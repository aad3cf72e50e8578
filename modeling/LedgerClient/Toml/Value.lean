/-!
# TOML values

A table remembers how it came to be, since that decides what may still be added to it: a table
written in braces is closed, one opened by a header takes no dotted keys from elsewhere, one that a
header implied may still get a header of its own, and one that dotted keys made grows by dotted keys
only. `Node.alter` walks along a path of keys, makes the tables that are missing and changes the one
at its end.
-/

namespace LedgerClient.Toml

/-- How a table came to be. -/
inductive Form where
  /-- In braces. -/
  | closed
  /-- By a header, or as the whole text. -/
  | header
  /-- As part of the path in a header. -/
  | implied
  /-- As part of a dotted key. -/
  | dotted
  deriving DecidableEq, Repr, Inhabited

/-- A value. Numbers with a point and points in time are kept as they are written. -/
inductive Node where
  | string (text : String)
  | integer (value : Int)
  | float (text : String)
  | boolean (value : Bool)
  | dateTime (text : String)
  | array (items : List Node)
  | table (form : Form) (members : List (String × Node))
  /-- The tables that repeated headers made. -/
  | tables (items : List (List (String × Node)))
  deriving Inhabited

/-- The members of a table in order. -/
abbrev Members := List (String × Node)

namespace Members

/-- The value of a key. -/
def get? (key : String) (ms : Members) : Option Node :=
  (ms.find? fun m => m.1 == key).map (·.2)

/-- The members with the value of a key exchanged. -/
def replace (key : String) (node : Node) (ms : Members) : Members :=
  ms.map fun m => if m.1 == key then (key, node) else m

/-- The members with the table at the end of a path changed. `dotted` tells whether the path is part
of a dotted key, which may not enter tables that have a header. -/
def alter (dotted : Bool) (change : Form → Members → Option Members) :
    List String → Form → Members → Option Members
  | [], form, ms => change form ms
  | key :: path, _, ms =>
    match get? key ms with
    | none =>
      let form := if dotted then Form.dotted else Form.implied
      (alter dotted change path form []).map fun inner => ms ++ [(key, .table form inner)]
    | some (.table form inner) =>
      if form = .closed ∨ (dotted ∧ form = .header) then none
      else (alter dotted change path form inner).map fun new => replace key (.table form new) ms
    | some (.tables items) =>
      match items.getLast? with
      | none => none
      | some last =>
        (alter dotted change path .header last).map fun new =>
          replace key (.tables (items.dropLast ++ [new])) ms
    | some _ => none

/-- The members with a value under a new key, in a table of the right form: dotted keys add to
dotted tables only, and other keys to all but these. -/
def insert (isDotted : Bool) (key : String) (value : Node) (form : Form) (ms : Members) :
    Option Members :=
  if (form = .dotted) ≠ isDotted then none
  else
    match get? key ms with
    | some _ => none
    | none => some (ms ++ [(key, value)])

/-- The members with the value of a dotted key, given as the keys before its last one and that. -/
def put (path : List String) (key : String) (value : Node) (form : Form) (ms : Members) :
    Option Members :=
  alter true (insert (! path.isEmpty) key value) path form ms

/-- The members with a table opened by a header. -/
def openTable (key : String) (_ : Form) (ms : Members) : Option Members :=
  match get? key ms with
  | none => some (ms ++ [(key, .table .header [])])
  | some (.table .implied inner) => some (replace key (.table .header inner) ms)
  | some _ => none

/-- The members with one more table under a key, opened by a repeated header. -/
def openNext (key : String) (_ : Form) (ms : Members) : Option Members :=
  match get? key ms with
  | none => some (ms ++ [(key, .tables [[]])])
  | some (.tables items) => some (replace key (.tables (items ++ [[]])) ms)
  | some _ => none

end Members

end LedgerClient.Toml
