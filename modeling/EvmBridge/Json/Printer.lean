import EvmBridge.Json.Basic

/-!
# Writing JSON

`Json.render` writes a value without any blank, members in the order they have. `Json.pretty`
writes one item or member a line, indented by two spaces a level; an empty array or object stays
on its line.
-/

namespace EvmBridge.Json

/-- The letter that stands for a character behind a backslash, if it has one. -/
def shorthand? : Char → Option Char
  | '\x08' => some 'b'
  | '\t' => some 't'
  | '\n' => some 'n'
  | '\x0c' => some 'f'
  | '\r' => some 'r'
  | '"' => some '"'
  | '\\' => some '\\'
  | _ => none

/-- How one character stands inside a text: quotes, backslashes and controls are escaped, all
else stands for itself. -/
def escaped (c : Char) : List Char :=
  match shorthand? c with
  | some letter => ['\\', letter]
  | none =>
    if c.toNat < 0x20 then
      ['\\', 'u', '0', '0', Nat.digitChar (c.toNat / 16), Nat.digitChar (c.toNat % 16)]
    else [c]

/-- A text between double quotes. -/
def quotedChars (s : String) : List Char :=
  '"' :: s.toList.flatMap escaped ++ ['"']

def numberChars : Number → List Char
  | .int i => (toString i).toList
  | .real x => x.text

mutual

/-- A value without blanks. -/
def chars : Json → List Char
  | .null => ['n', 'u', 'l', 'l']
  | .bool true => ['t', 'r', 'u', 'e']
  | .bool false => ['f', 'a', 'l', 's', 'e']
  | .num n => numberChars n
  | .str s => quotedChars s
  | .arr items => '[' :: itemChars items
  | .obj members => '\x7b' :: memberChars members

/-- The items of an array and the closing bracket. -/
def itemChars : List Json → List Char
  | [] => [']']
  | v :: rest => v.chars ++ moreItemChars rest

/-- The items after the first, each behind a comma, and the closing bracket. -/
def moreItemChars : List Json → List Char
  | [] => [']']
  | v :: rest => ',' :: (v.chars ++ moreItemChars rest)

/-- The members of an object and the closing brace. -/
def memberChars : List (String × Json) → List Char
  | [] => ['\x7d']
  | (k, v) :: rest => quotedChars k ++ ':' :: (v.chars ++ moreMemberChars rest)

/-- The members after the first, each behind a comma, and the closing brace. -/
def moreMemberChars : List (String × Json) → List Char
  | [] => ['\x7d']
  | (k, v) :: rest => ',' :: (quotedChars k ++ ':' :: (v.chars ++ moreMemberChars rest))

end

def render (v : Json) : String := String.ofList v.chars

/-- A line break and the indentation of a level. -/
def newline (level : Nat) : List Char := '\n' :: List.replicate (2 * level) ' '

mutual

/-- A value on several lines, at a level of indentation. -/
def prettyChars (level : Nat) : Json → List Char
  | .null => ['n', 'u', 'l', 'l']
  | .bool true => ['t', 'r', 'u', 'e']
  | .bool false => ['f', 'a', 'l', 's', 'e']
  | .num n => numberChars n
  | .str s => quotedChars s
  | .arr [] => ['[', ']']
  | .arr (v :: rest) =>
    '[' :: (newline (level + 1) ++ v.prettyChars (level + 1) ++ prettyItems (level + 1) rest) ++
      newline level ++ [']']
  | .obj [] => ['\x7b', '\x7d']
  | .obj ((k, v) :: rest) =>
    '\x7b' :: (newline (level + 1) ++ quotedChars k ++ ':' :: ' ' :: v.prettyChars (level + 1) ++
      prettyMembers (level + 1) rest) ++ newline level ++ ['\x7d']

def prettyItems (level : Nat) : List Json → List Char
  | [] => []
  | v :: rest => ',' :: (newline level ++ v.prettyChars level ++ prettyItems level rest)

def prettyMembers (level : Nat) : List (String × Json) → List Char
  | [] => []
  | (k, v) :: rest =>
    ',' :: (newline level ++ quotedChars k ++ ':' :: ' ' :: v.prettyChars level ++
      prettyMembers level rest)

end

/-- The text of a value on several lines. -/
def pretty (v : Json) : String := String.ofList (v.prettyChars 0)

end EvmBridge.Json
