import LedgerClient.Text.Blank
import LedgerClient.Text.Case
import LedgerClient.Text.Split

/-!
# Outcomes of a run

A node reports how a script ended as the names of flags, joined by commas. Spaces around a name, the
case of its letters, empty names and repetitions mean nothing, so that an outcome is the set of
flags named.
-/

namespace LedgerClient.Script

/-- How a script ended; with no flag set it has not. -/
structure Outcome where
  /-- It came to its end. -/
  halted : Bool
  /-- It was stopped by an error. -/
  faulted : Bool
  /-- It stands at a breakpoint. -/
  stopped : Bool
  deriving DecidableEq, Repr, Inhabited

namespace Outcome

/-- No flag. -/
def noFlag : Outcome := ⟨false, false, false⟩

/-- The flags of both. -/
def union (a b : Outcome) : Outcome :=
  ⟨a.halted || b.halted, a.faulted || b.faulted, a.stopped || b.stopped⟩

/-- Whether two outcomes have a flag in common. -/
def meets (a b : Outcome) : Bool :=
  a.halted && b.halted || a.faulted && b.faulted || a.stopped && b.stopped

/-- A name in a report that is no flag's. -/
structure UnknownName where
  name : String
  deriving DecidableEq, Repr

/-- The wording of the error. -/
def UnknownName.message (e : UnknownName) : String :=
  "unknown VM state \x27" ++ e.name ++ "\x27"

/-- The flag that a name in upper case stands for. -/
def ofName? (name : List Char) : Option Outcome :=
  if name = "NONE".toList then some noFlag
  else if name = "HALT".toList then some ⟨true, false, false⟩
  else if name = "FAULT".toList then some ⟨false, true, false⟩
  else if name = "BREAK".toList then some ⟨false, false, true⟩
  else none

/-- The flag named between two commas; nothing but blanks names no flag. -/
def ofPiece (piece : List Char) : Except UnknownName Outcome :=
  let name := Text.trimChars piece
  if name.isEmpty then .ok noFlag
  else
    match ofName? (name.map Char.toUpper) with
    | some flag => .ok flag
    | none => .error ⟨String.ofList name⟩

/-- The outcome with the flags named in each piece added, up to the first that names none. -/
def addPieces (outcome : Outcome) : List (List Char) → Except UnknownName Outcome
  | [] => .ok outcome
  | piece :: pieces =>
    match ofPiece piece with
    | .ok flag => addPieces (outcome.union flag) pieces
    | .error e => .error e

/-- The outcome that a report names. -/
def parse (s : String) : Except UnknownName Outcome :=
  addPieces noFlag (Text.pieces ',' s.toList)

/-- The names of the flags that are set. -/
def names (o : Outcome) : List String :=
  (if o.halted then ["HALT"] else []) ++ (if o.faulted then ["FAULT"] else []) ++
    (if o.stopped then ["BREAK"] else [])

/-- The report of an outcome. -/
def toText (o : Outcome) : String :=
  if o.names.isEmpty then "NONE" else ", ".intercalate o.names

end Outcome

end LedgerClient.Script
