import Scriptlet.Text.CodeRange

/-!
Contract: blank characters, the Unicode property `White_Space`.

The line feed is blank; scanning treats it apart because it can end a statement.
-/

namespace Scriptlet.Text

/-- Code points with the property `White_Space`. -/
def blankRanges : List CodeRange :=
   [(0x9, 0xD), (0x20, 0x20), (0x85, 0x85), (0xA0, 0xA0), (0x1680, 0x1680), (0x2000, 0x200A),
    (0x2028, 0x2029), (0x202F, 0x202F), (0x205F, 0x205F), (0x3000, 0x3000)]

/-- Whether a character is blank. -/
def isBlank (char : Char) : Bool :=
  CodeRange.covers blankRanges char.toNat

theorem blankRanges_ascending : CodeRange.Ascending blankRanges := by
  decide

end Scriptlet.Text
