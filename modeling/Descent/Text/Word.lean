import Descent.Text.Alphabetic
import Descent.Text.Digit
import Descent.Text.Mark

namespace Descent.Text

/-- Connecting punctuation (general category Pc) and the two join controls. -/
def connectorRanges : Ranges where
  list := [
    (0x5F, 0x5F), (0x200C, 0x200D), (0x203F, 0x2040), (0x2054, 0x2054), (0xFE33, 0xFE34),
    (0xFE4D, 0xFE4F), (0xFF3F, 0xFF3F)]

/-- Letters, marks, decimal digits, connecting punctuation and join controls. -/
def isWord (c : Char) : Bool :=
  isAlphabetic c || isMark c || isDigit c || connectorRanges.contains c.toNat

end Descent.Text
