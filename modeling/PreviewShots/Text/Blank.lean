import PreviewShots.Text.Range

/-!
# Blank characters

White space of Unicode together with the four information separators
U+001C to U+001F. Zero-width characters are not blank.
-/

namespace PreviewShots.Text

def blankRanges : List Range := [
  (0x9, 0xd), (0x1c, 0x20), (0x85, 0x85), (0xa0, 0xa0), (0x1680, 0x1680),
  (0x2000, 0x200a), (0x2028, 0x2029), (0x202f, 0x202f), (0x205f, 0x205f), (0x3000, 0x3000)]

def isBlank (c : CodePoint) : Bool :=
  inRanges blankRanges c

def dropBlank (text : Text) : Text :=
  text.dropWhile isBlank

/-- The text without the blank characters at its ends. -/
def trim (text : Text) : Text :=
  (dropBlank (dropBlank text).reverse).reverse

end PreviewShots.Text
