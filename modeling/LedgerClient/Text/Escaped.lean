/-!
# Characters shown in error texts

An error text shows an offending character between apostrophes. Characters that would not show
are written as escapes: the common controls by a letter, all others that have no visible form by
their code point. Only the characters of Latin-1 are ever shown, since what is quoted is a byte.
-/

namespace LedgerClient.Text

/-- The lower-case hexadecimal digits of a code point, without leading zeros. -/
def codePointDigits (n : Nat) : String :=
  String.ofList (Nat.toDigits 16 n)

/-- Whether a Latin-1 character has a visible form of its own. -/
def isVisibleLatin (c : Char) : Bool :=
  let n := c.toNat
  (32 ≤ n && n < 127) || (160 < n && n != 173)

/-- A Latin-1 character between apostrophes, escaped where it has no visible form. -/
def quotedChar (c : Char) : String :=
  let body :=
    match c with
    | '\x00' => "\\0"
    | '\t' => "\\t"
    | '\n' => "\\n"
    | '\r' => "\\r"
    | '\\' => "\\\\"
    | '\x27' => "\\\x27"
    | _ =>
      if isVisibleLatin c then String.singleton c
      else "\\u\x7b" ++ codePointDigits c.toNat ++ "\x7d"
  "\x27" ++ body ++ "\x27"

end LedgerClient.Text
