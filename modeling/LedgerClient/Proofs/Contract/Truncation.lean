import LedgerClient.Proofs.Contract.RoundTrip
import LedgerClient.Proofs.Ledger.Truncation
import LedgerClient.Proofs.Script.Truncation

/-!
# Deployments that end too early

The decoders of a deployment take their bytes one after another, as those of the ledger do. So of
whatever kind a value is, the front of its encoding is never read as a value, and the error tells a
place within the front and asks for no more than was cut off (`cut_is_reported`).
-/

namespace LedgerClient

open Wire (Decoder DecoderOf Form Incremental ReportsCuts)

namespace Contract

/-- The error of a script that ends early. -/
def Error.endOfScript (offset needed : Nat) : Error := .ofWire (.endOfInput offset needed)

/-- A reader of scripts is as incremental within a reader of deployments. -/
theorem incremental_ofWire {α : Type} {d : Decoder α} (h : Incremental .endOfInput d) :
    Incremental .endOfScript (Decoder.mapError Error.ofWire d) := h.mapError Error.ofWire

/-- The texts of a description are taken one after another. -/
theorem incremental_description : Incremental .endOfScript Description.decode := by
  have htext := incremental_ofWire Script.incremental_readText
  exact htext.bind fun _ => htext.bind fun _ => htext.bind fun _ => htext.bind fun _ => htext.map

/-- The kind of a tag takes no bytes. -/
theorem incremental_kindOfTag (tag : UInt8) :
    Incremental .endOfScript (EntryPoint.kindOfTag tag) := by
  rw [EntryPoint.kindOfTag]
  split
  · exact .pure _
  · exact .fail fun c => ⟨_, c, rfl⟩

/-- The kind of the result takes the bytes of one number. -/
theorem incremental_result : Incremental .endOfScript EntryPoint.decodeResult := by
  refine Wire.incremental_offset.bind fun offset =>
    (incremental_ofWire Script.incremental_readInteger).bind fun tag => ?_
  split
  · exact incremental_kindOfTag _
  · exact .fail fun c => ⟨_, c, rfl⟩

/-- The kinds of the arguments take those of one push. -/
theorem incremental_parameters : Incremental .endOfScript EntryPoint.decodeParameters := by
  refine (incremental_ofWire Script.incremental_readData).bind fun tags => ?_
  split
  · exact .pure _
  · exact .fail fun c => ⟨_, c, rfl⟩

/-- So the parts of an entry point are taken one after another. -/
theorem incremental_entryPoint : Incremental .endOfScript EntryPoint.decode :=
  (incremental_ofWire Script.incremental_readSigned).map.bind fun _ =>
    incremental_result.bind fun _ => incremental_parameters.map

/-- The call takes its bytes as any call of a service does. -/
theorem incremental_call : Incremental .endOfScript Deployment.decodeCall := by
  refine Wire.incremental_offset.bind fun offset =>
    (incremental_ofWire Script.incremental_readSysCall).bind fun name => ?_
  split
  · exact .fail fun c => ⟨_, c, rfl⟩
  · exact .pure _

/-- So a whole deployment is taken piece by piece. -/
theorem incremental_deployment : Incremental .endOfScript Deployment.decode :=
  incremental_description.bind fun _ => incremental_entryPoint.bind fun _ =>
    (incremental_ofWire Script.incremental_readData).bind fun _ => incremental_call.map

/-- A deployment is not read with its end cut off. -/
theorem Deployment.reportsCuts {d : Deployment} {bs : Bytes} (h : Deployment.ofBytes bs = .ok d) :
    ReportsCuts Deployment.ofBytes .endOfScript bs := by
  obtain ⟨x, hwhole, -⟩ := Except.bind_eq_ok_iff.1 h
  obtain ⟨c, hd, hend⟩ := EntryPoint.wholeScript_eq_ok_iff.1 hwhole
  intro k hk
  obtain ⟨offset, needed, c', hcut, hbounds⟩ := incremental_deployment.endsEarly hd hend hk
  refine ⟨offset, needed, ?_, hbounds⟩
  rw [Deployment.ofBytes, EntryPoint.wholeScript, EStateM.run, hcut]
  rfl

end Contract

/-- The encoding of a transaction or an invocation that can be read back, and the script of any
deployment, are not read with the end cut off, wherever the cut is: they are found to end too early,
at a place before the cut and for want of no more bytes than were cut off. -/
theorem cut_is_reported (subject : String) :
    (∀ (t t' : Ledger.Transaction) (bs : Bytes), Form.encode t = .ok bs →
      Form.decode.run subject bs = .ok t' →
        ReportsCuts ((Form.decode : Decoder Ledger.Transaction).run subject) .endOfInput bs) ∧
    (∀ (t t' : Ledger.Invocation) (bs : Bytes), Form.encode t = .ok bs →
      Form.decode.run subject bs = .ok t' →
        ReportsCuts ((Form.decode : Decoder Ledger.Invocation).run subject) .endOfInput bs) ∧
    ∀ (d : Contract.Deployment) (bs : Bytes), d.encode = .ok bs →
      ReportsCuts Contract.Deployment.ofBytes (fun offset needed =>
        .script (.wire (.endOfInput offset needed))) bs :=
  ⟨fun _ _ _ _ hread => Ledger.incremental_transaction.reportsCuts hread,
    fun _ _ _ _ hread => Ledger.incremental_invocation.reportsCuts hread,
    fun _ _ hencode =>
      Contract.Deployment.reportsCuts (Contract.Deployment.ofBytes_of_encode hencode)⟩

/-- A transaction without its second count, an invocation in the middle of its script, and a
deployment before the script of its contract. -/
theorem cut_is_reported_sample :
    (∃ offset needed, (Form.decode : Decoder Ledger.Transaction).run "transaction" [0x00, 0x00] =
      .error (.endOfInput offset needed) ∧ offset ≤ 2 ∧ 1 ≤ needed ∧ needed ≤ 1) ∧
    (∃ offset needed, (Form.decode : Decoder Ledger.Invocation).run "invocation"
        [0xd1, 0x00, 0x02, 0x61] =
      .error (.endOfInput offset needed) ∧ offset ≤ 4 ∧ 1 ≤ needed ∧ needed ≤ 5) ∧
    ∃ offset needed, Contract.Deployment.ofBytes [0, 0, 0, 0, 0, 0, 0x02, 0xff, 0, 0] =
      .error (.script (.wire (.endOfInput offset needed))) ∧ offset ≤ 10 ∧ 1 ≤ needed ∧
        needed ≤ 23 := by
  let t : Ledger.Invocation := { Ledger.Invocation.new with version := 0, script := [0x61, 0x66] }
  have hencode : Contract.Deployment.encode ⟨[0x66], ⟨[], .void, ⟨false, false, false⟩⟩,
      ⟨"", "", "", "", ""⟩, by decide, by decide⟩ =
        .ok ([0, 0, 0, 0, 0, 0, 0x02, 0xff, 0, 0] ++ [0x01, 0x66] ++ Contract.Deployment.call) := by
    refine Contract.Deployment.encode_eq_ok_iff.2 ⟨⟨?_, Nat.zero_le _⟩, ?_⟩
    · simp only [Contract.Description.Pushable, Contract.Description.texts, Bytes.ofText_eq]
      decide
    · simp only [Contract.Deployment.pushes, Contract.Description.pushes,
        Contract.Description.texts, Bytes.ofText_eq]
      rfl
  have hlength : Contract.Deployment.call.length = 21 := by
    simp [Contract.Deployment.call, Contract.Deployment.length_createService]
  refine ⟨(cut_is_reported "transaction").1 (.blank 0) (.blank 0) [0, 0, 0] rfl rfl 2 (by decide),
    (cut_is_reported "invocation").2.1 t t [0xd1, 0, 2, 0x61, 0x66, 0, 0, 0, 0] rfl rfl 4
      (by decide), ?_⟩
  have hcut := (cut_is_reported "").2.2 _ _ hencode 10
  simp only [List.length_append, hlength] at hcut
  exact hcut (by decide)

end LedgerClient
