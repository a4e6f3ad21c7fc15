import EvmBridge.Text.Unprintable

/-!
# Quoted texts in messages

A message quotes a text between double quotes. Quotes and backslashes inside are escaped, the
usual controls have their short escapes, and a character without a glyph of its own is shown by
its number.
-/

namespace EvmBridge.Text

/-- The hexadecimal digits of a code point, lowercase and without leading zeros. -/
def codePoint (c : Char) : List Char := Nat.toDigits 16 c.toNat

/-- The sign that stands for a character behind a backslash, if it has one. -/
def sign? : Char → Option Char
  | '\x00' => some '0'
  | '\t' => some 't'
  | '\n' => some 'n'
  | '\r' => some 'r'
  | '"' => some '"'
  | '\\' => some '\\'
  | _ => none

/-- How one character stands inside quotes. -/
def quotedChar (c : Char) : List Char :=
  match sign? c with
  | some sign => ['\\', sign]
  | none => if isUnprintable c then ['\\', 'u', '\x7b'] ++ codePoint c ++ ['\x7d'] else [c]

/-- The text between double quotes. -/
def quoted (s : String) : String :=
  String.ofList ('"' :: s.toList.flatMap quotedChar ++ ['"'])

end EvmBridge.Text
