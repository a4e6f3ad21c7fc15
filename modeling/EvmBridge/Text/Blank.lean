/-!
# Blank text

The characters that count as white space when a text is checked for being blank: the controls
from tabulation to carriage return, next line, and the separators of every width.
-/

namespace EvmBridge.Text

/-- Whether a character is white space. -/
def isBlankChar (c : Char) : Bool :=
  let n := c.toNat
  (9 ≤ n && n ≤ 13) || n = 0x20 || n = 0x85 || n = 0xa0 || n = 0x1680 ||
    (0x2000 ≤ n && n ≤ 0x200a) || n = 0x2028 || n = 0x2029 || n = 0x202f || n = 0x205f ||
    n = 0x3000

def isBlank (s : String) : Bool := s.toList.all isBlankChar

/-- Letters of the basic Latin alphabet in lower case, all else as it is. -/
def lowercase (s : String) : String := s.map Char.toLower

end EvmBridge.Text
