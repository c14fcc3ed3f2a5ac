import Dataflow.Text.Unshown

/-!
# Quoted text

A text between double quotes, with escapes: the usual ones for the quote, the backslash, tab, line
feed, carriage return and null, and `\u{…}` with the code point in hexadecimal for every other
character that cannot be shown on its own.
-/

namespace Dataflow

namespace Text

/-- The code point in hexadecimal, in small letters and without leading zeros. -/
def hex (n : Nat) : String := String.ofList (Nat.toDigits 16 n)

/-- One character of a quoted text. -/
def quoteChar (c : Char) : String :=
  match c with
  | '\x00' => "\\0"
  | '\t' => "\\t"
  | '\r' => "\\r"
  | '\n' => "\\n"
  | '\\' => "\\\\"
  | '"' => "\\\""
  | _ => if isUnshown c then "\\u\x7b" ++ hex c.toNat ++ "\x7d" else c.toString

/-- A text in quotes. -/
def quote (s : String) : String :=
  "\"" ++ String.join (s.toList.map quoteChar) ++ "\""

/-! ## Small examples -/

example : quote "a\"b" = "\"a\\\"b\"" := by decide +kernel
example : quote "\x7f" = "\"\\u\x7b7f\x7d\"" := by decide +kernel

end Text

end Dataflow
