import DeclLang.Text.Printable

/-!
# Quoted texts

How a string is shown: between double quotes, with quotes and backslashes behind a backslash, four
controls by a letter, and every other character that cannot be shown by its number.
-/

namespace DeclLang.Text

/-- The lower-case hexadecimal digits of a number, without leading zeros. -/
def hexNumeral (n : Nat) : List Char :=
  Nat.toDigits 16 n

/-- How one character of a quoted text is written. -/
def escape (c : Char) : List Char :=
  match c with
  | '"' => ['\\', '"']
  | '\\' => ['\\', '\\']
  | '\n' => ['\\', 'n']
  | '\r' => ['\\', 'r']
  | '\t' => ['\\', 't']
  | '\x00' => ['\\', '0']
  | c => if isPrintable c then [c] else ['\\', 'u', '\x7b'] ++ hexNumeral c.toNat ++ ['\x7d']

/-- The text between double quotes. -/
def quote (text : String) : String :=
  String.ofList ('"' :: text.toList.flatMap escape ++ ['"'])

end DeclLang.Text
