import LedgerClient.Rpc.Host
import LedgerClient.Text.Case

/-!
# Addresses of nodes

The address of a node is a URL. It is normalised when it is read: scheme and host are in lower case,
the scheme's own port is not shown, a path is at least a slash and has no segments that stand for
the present or the parent directory, and characters that must not stand as they are get escaped. A
backslash counts as a slash where the scheme is one of the common ones, which also need a host.
-/

namespace LedgerClient.Rpc

/-- The address of a node. -/
structure Endpoint where
  scheme : String
  /-- The user's part in front of the host, its sign included. -/
  user : String
  /-- The host, if the address has one. -/
  host : Option String
  /-- The port, unless it is the scheme's own. -/
  port : Option Nat
  path : String
  /-- The query, its sign included. -/
  query : String
  /-- The fragment, its sign included. -/
  fragment : String
  deriving DecidableEq, Repr

namespace Endpoint

/-- Why a text is no address. -/
inductive Error where
  /-- It does not start with a scheme. -/
  | relative
  /-- It has no host and needs one. -/
  | emptyHost
  /-- The port is no number of 16 bits. -/
  | port
  /-- The host is none. -/
  | host (e : Host.Error)
  deriving DecidableEq, Repr

/-- The wording of an error. -/
def Error.message : Error → String
  | .relative => "relative URL without a base"
  | .emptyHost => "empty host"
  | .port => "invalid port number"
  | .host e => e.message

/-- The port that a common scheme has, if it has one. -/
def commonSchemes : List (String × Option Nat) :=
  [("http", some 80), ("https", some 443), ("ws", some 80), ("wss", some 443), ("ftp", some 21),
    ("file", none)]

/-- Whether a scheme is one of the common ones. -/
def isCommon (scheme : String) : Bool := commonSchemes.any fun s => s.1 == scheme

/-- The port of a scheme. -/
def defaultPort? (scheme : String) : Option Nat :=
  (commonSchemes.find? fun s => s.1 == scheme).bind (·.2)

/-! ## Escaped characters -/

/-- The characters escaped in a fragment. -/
def inFragment : List Char := [' ', '"', '<', '>', '\x60']

/-- The characters escaped in a path. -/
def inPath : List Char := inFragment ++ ['#', '?', '\x7b', '\x7d']

/-- The characters escaped in a user's part. -/
def inUser : List Char := inPath ++ ['/', ':', ';', '=', '@', '[', '\\', ']', '^', '|']

/-- The characters escaped in a query. -/
def inQuery (scheme : String) : List Char :=
  [' ', '"', '#', '<', '>'] ++ if isCommon scheme then ['\x27'] else []

/-- A query or fragment, its sign in front, with the listed characters escaped. -/
def behindSign (listed : List Char) : List Char → String
  | [] => ""
  | sign :: cs => String.ofList (sign :: Text.percentEncode listed cs)

/-! ## Ports -/

/-- The port that digits behind a colon spell. -/
def portOf (scheme : String) (cs : List Char) : Except Error (Option Nat) :=
  if cs.isEmpty then .ok none
  else if cs.all Char.isDigit then
    let n := cs.foldl (fun n c => 10 * n + (c.toNat - 48)) 0
    if 65535 < n then .error .port
    else if defaultPort? scheme = some n then .ok none
    else .ok (some n)
  else .error .port

/-! ## Paths -/

/-- Whether a segment stands for the present directory. -/
def isPresent (segment : List Char) : Bool :=
  [".", "%2e"].contains (Text.toLowerAscii (String.ofList segment))

/-- Whether a segment stands for the parent directory. -/
def isParent (segment : List Char) : Bool :=
  ["..", ".%2e", "%2e.", "%2e%2e"].contains (Text.toLowerAscii (String.ofList segment))

/-- Segments without those that stand for a directory; `acc` are the segments before, last first. A
path that ends in one of them ends in a slash. -/
def resolve (acc : List (List Char)) : List (List Char) → List (List Char)
  | [] => acc.reverse
  | [last] =>
    if isPresent last then ([] :: acc).reverse
    else if isParent last then ([] :: acc.drop 1).reverse
    else (last :: acc).reverse
  | segment :: rest =>
    if isPresent segment then resolve acc rest
    else if isParent segment then resolve (acc.drop 1) rest
    else resolve (segment :: acc) rest

/-- The path that characters behind a host spell. -/
def pathOf (common : Bool) (cs : List Char) : String :=
  let slashes := if common then cs.map fun c => if c = '\\' then '/' else c else cs
  match slashes with
  | [] => if common then "/" else ""
  | _ :: body =>
    let segments := resolve [] (Text.pieces '/' body)
    String.ofList (segments.flatMap fun segment => '/' :: Text.percentEncode inPath segment)

/-! ## Whole addresses -/

/-- A text in front of the first character with a property, and the rest. -/
def breakAt (p : Char → Bool) (cs : List Char) : List Char × List Char :=
  cs.span (! p ·)

/-- The part of a list behind its last element with a property, and the part before that element. -/
def breakAtLast (p : Char → Bool) (cs : List Char) : Option (List Char × List Char) :=
  match cs.reverse.span (! p ·) with
  | (_, []) => none
  | (back, _ :: front) => some (front.reverse, back.reverse)

/-- The scheme in front of a text and what comes behind its colon. -/
def schemeOf? (cs : List Char) : Option (String × List Char) :=
  match cs.span fun c => c.isAlphanum || c == '+' || c == '-' || c == '.' with
  | (c :: name, ':' :: rest) =>
    if c.isAlpha then some (Text.toLowerAscii (String.ofList (c :: name)), rest) else none
  | _ => none

/-- The user's part as it is shown: name and password, its sign included. -/
def userOf (cs : List Char) : String :=
  let (name, password) := breakAt (· == ':') cs
  let password := password.drop 1
  if name.isEmpty ∧ password.isEmpty then ""
  else
    String.ofList (Text.percentEncode inUser name ++
      (if password.isEmpty then [] else ':' :: Text.percentEncode inUser password) ++ ['@'])

/-- A host and what stands behind the first colon outside brackets, if there is one; `inside` tells
whether a bracket is open. -/
def splitPort (inside : Bool) : List Char → List Char × Option (List Char)
  | [] => ([], none)
  | c :: cs =>
    if c = ':' ∧ ¬ inside then ([], some cs)
    else
      let (host, port) := splitPort (c == '[' || inside && c != ']') cs
      (c :: host, port)

/-- The address with the given parts, from the characters behind its host. -/
def withPlace (scheme user host : String) (port : Option Nat) (rest : List Char) : Endpoint :=
  let (path, rest) := breakAt (fun c => c == '?' || c == '#') rest
  let (query, fragment) := breakAt (· == '#') rest
  { scheme := scheme
    user := user
    host := some host
    port := port
    path := pathOf (isCommon scheme) path
    query := behindSign (inQuery scheme) query
    fragment := behindSign inFragment fragment }

/-- Whether a character ends the host in an address. -/
def endsHost (scheme : String) (c : Char) : Bool :=
  c == '/' || c == '?' || c == '#' || isCommon scheme && c == '\\'

/-- The characters behind a scheme as an address with a host. -/
def withHost (scheme : String) (cs : List Char) : Except Error Endpoint := do
  let (authority, rest) := breakAt (endsHost scheme) cs
  let (user, place) :=
    match breakAtLast (· == '@') authority with
    | some (user, place) => (userOf user, place)
    | none => ("", authority)
  let (name, port) := splitPort false place
  if name.isEmpty ∧ (isCommon scheme ∨ port.isSome ∨ user ≠ "") then .error .emptyHost
  else
    let host ← (Host.parse (isCommon scheme) name).mapError .host
    let port ← portOf scheme (port.getD [])
    return withPlace scheme user host port rest

/-- The characters behind the host's slashes as the address of a file, which has neither user nor
port and names this computer by no name. -/
def ofFile (cs : List Char) : Except Error Endpoint := do
  let (name, rest) := breakAt (endsHost "file") cs
  let host ← if name.isEmpty then .ok "" else (Host.parse true name).mapError .host
  return withPlace "file" "" (if host = "localhost" then "" else host) none rest

/-- The characters behind a scheme as an address without a host. -/
def withoutHost (scheme : String) (cs : List Char) : Endpoint :=
  let (path, rest) := breakAt (fun c => c == '?' || c == '#') cs
  let (query, fragment) := breakAt (· == '#') rest
  { scheme := scheme
    user := ""
    host := none
    port := none
    path :=
      if path.head? = some '/' then pathOf false path
      else String.ofList (Text.percentEncode [] path)
    query := behindSign (inQuery scheme) query
    fragment := behindSign inFragment fragment }

/-- A text without control characters and spaces at its ends, and without tabs and line ends. -/
def clean (s : String) : List Char :=
  let isEdge (c : Char) : Bool := c.toNat ≤ 32
  (((s.toList.dropWhile isEdge).reverse.dropWhile isEdge).reverse).filter fun c =>
    c != '\t' && c != '\n' && c != '\r'

/-- The address that a text spells. -/
def parse (s : String) : Except Error Endpoint :=
  match schemeOf? (clean s) with
  | none => .error .relative
  | some (scheme, rest) =>
    let isSlash (c : Char) : Bool := c == '/' || c == '\\'
    if scheme = "file" then
      if (rest.take 2).length = 2 ∧ (rest.take 2).all isSlash then ofFile (rest.drop 2)
      else ofFile ('/' :: rest.dropWhile isSlash)
    else if isCommon scheme then withHost scheme (rest.dropWhile isSlash)
    else
      match rest with
      | '/' :: '/' :: body => withHost scheme body
      | _ => .ok (withoutHost scheme rest)

/-- The text of an address. -/
def toText (e : Endpoint) : String :=
  let port :=
    match e.port with
    | some n => ":" ++ toString n
    | none => ""
  let authority :=
    match e.host with
    | some host => "//" ++ e.user ++ host ++ port
    | none => ""
  e.scheme ++ ":" ++ authority ++ e.path ++ e.query ++ e.fragment

end Endpoint

end LedgerClient.Rpc
