import LiveConfig.Text.CodePoints

/-!
# White space

The characters with the Unicode property `White_Space`, and text without them at its ends.
-/

namespace LiveConfig.Text

/-- The characters with the property `White_Space`. -/
def whiteSpace : CodePoints := #[
  (0x9, 0xd), (0x20, 0x20), (0x85, 0x85), (0xa0, 0xa0), (0x1680, 0x1680), (0x2000, 0x200a),
  (0x2028, 0x2029), (0x202f, 0x202f), (0x205f, 0x205f), (0x3000, 0x3000)]

/-- Whether a character has the property `White_Space`. -/
def isWhiteSpace (c : Char) : Bool := whiteSpace.has c

/-- Whether a text has no character but white space. -/
def isBlank (s : String) : Bool := s.toList.all isWhiteSpace

end LiveConfig.Text
