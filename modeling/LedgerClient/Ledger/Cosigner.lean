import LedgerClient.Ledger.Digest
import LedgerClient.Wire.Emission

/-!
# Cosigners

A cosigner is an account that has to agree to a transaction, with a scope in which its agreement is
valid: everywhere, in calls from the entry script, for listed contracts, or for contracts of listed
groups. The scope is a byte of flags, and the lists are sent only if their flags are set.
-/

namespace LedgerClient.Ledger

/-- Where an agreement is valid, as flags. No flag means everywhere. -/
structure Scope where
  byte : UInt8
  deriving DecidableEq, Repr, Inhabited

namespace Scope

/-- Everywhere. -/
def everywhere : Scope := ⟨0x00⟩

/-- While the entry script is the caller. -/
def calledByEntry : Scope := ⟨0x01⟩

/-- For the listed contracts. -/
def customContracts : Scope := ⟨0x10⟩

/-- For contracts of the listed groups. -/
def customGroups : Scope := ⟨0x20⟩

/-- All flags that exist. -/
def knownFlags : UInt8 := 0x01 ||| 0x10 ||| 0x20

/-- The scope with the given flags, if all of them exist. -/
def ofByte? (b : UInt8) : Option Scope :=
  if b &&& ~~~ knownFlags = 0 then some ⟨b⟩ else none

/-- Whether a scope has all flags of another, which has at least one. -/
def hasFlag (s flag : Scope) : Bool := flag.byte != 0 && s.byte &&& flag.byte == flag.byte

/-- The scope with the flags of both. -/
def combine (s t : Scope) : Scope := ⟨s.byte ||| t.byte⟩

/-- The names of the flags that are set. -/
def toText (s : Scope) : String :=
  if s.byte = 0 then "Global"
  else
    let names := [(calledByEntry, "CalledByEntry"), (customContracts, "CustomContracts"),
      (customGroups, "CustomGroups")]
    " | ".intercalate ((names.filter fun (flag, _) => s.hasFlag flag).map (·.2))

end Scope

/-- The public key of a group of contracts. -/
structure GroupKey where
  bytes : Bytes
  length_bytes : bytes.length = 33
  deriving DecidableEq

namespace GroupKey

/-- The number of bytes of a group's key. -/
def size : Nat := 33

/-- The group's key made of the given bytes, if there are as many. -/
def ofBytes? (bs : Bytes) : Option GroupKey :=
  if h : bs.length = 33 then some ⟨bs, h⟩ else none

/-- The group's key of the next bytes. -/
def decode : Wire.Decoder GroupKey := do
  let ⟨bs, h⟩ ← Wire.Decoder.takeSized 33
  return ⟨bs, h⟩

end GroupKey

/-- An account that has to agree to a transaction. -/
structure Cosigner where
  account : Hash160
  scope : Scope
  contracts : List Hash160
  groups : List GroupKey
  deriving DecidableEq

namespace Cosigner

/-- The most entries that either list may have. -/
def maxEntries : Nat := 16

/-- A cosigner whose agreement is valid in calls from the entry script. -/
def calledByEntry (account : Hash160) : Cosigner := ⟨account, .calledByEntry, [], []⟩

/-- A cosigner whose agreement is valid everywhere. -/
def everywhere (account : Hash160) : Cosigner := ⟨account, .everywhere, [], []⟩

/-- The bytes of a cosigner, unless one of its lists is too long. -/
def encode (c : Cosigner) : Except Wire.Error Bytes :=
  if maxEntries < c.contracts.length then
    .error (.refused (.tooManyContracts c.contracts.length maxEntries))
  else if maxEntries < c.groups.length then
    .error (.refused (.tooManyGroups c.groups.length maxEntries))
  else
    .ok (c.account.encode ++ c.scope.byte ::
      ((if c.scope.hasFlag .customContracts then
          Wire.Counted.writeList Digest.encode c.contracts else []) ++
        (if c.scope.hasFlag .customGroups then
          Wire.Counted.writeList GroupKey.bytes c.groups else [])))

/-- The number of bytes of a cosigner. -/
def encodedSize (c : Cosigner) : Nat :=
  Limits.scriptHashSize + 1 +
    (if c.scope.hasFlag .customContracts then
      Wire.Counted.listSize Digest.encodedSize c.contracts else 0) +
    (if c.scope.hasFlag .customGroups then
      Wire.Count.size c.groups.length + c.groups.length * GroupKey.size else 0)

/-- The cosigner of the next bytes. -/
def decode : Wire.Decoder Cosigner := do
  let account ← Digest.decode
  let flags ← Wire.Decoder.byte
  match Scope.ofByte? flags with
  | none => throw (.refused (.unknownScope flags))
  | some scope =>
    let contracts ←
      if scope.hasFlag .customContracts then Wire.Counted.readList Digest.decode maxEntries
      else pure []
    let groups ←
      if scope.hasFlag .customGroups then Wire.Counted.readList GroupKey.decode maxEntries
      else pure []
    return ⟨account, scope, contracts, groups⟩

/-- A list of cosigners after their number; the first that cannot be written ends it. -/
def emitList (cs : List Cosigner) : Wire.Emission Wire.Error :=
  .andThen (.ofBytes (Wire.Count.write cs.length))
    (.all (cs.map fun c => .ofExcept c.encode))

end Cosigner

end LedgerClient.Ledger
