import Tutor.Text.Ranges

/-!
Blank characters: those with the property White_Space of the Unicode character database, and the
removal of blanks from the ends of a text.
-/

set_option autoImplicit false
set_option relaxedAutoImplicit false

namespace Tutor.Text

def blankRanges : Ranges :=
  [(0x09, 0x0D), (0x20, 0x20), (0x85, 0x85), (0xA0, 0xA0), (0x1680, 0x1680), (0x2000, 0x200A),
   (0x2028, 0x2029), (0x202F, 0x202F), (0x205F, 0x205F), (0x3000, 0x3000)]

def isBlank (c : Char) : Bool := blankRanges.has c

def dropBlanks (cs : List Char) : List Char := cs.dropWhile isBlank

def dropBlanksEnd (cs : List Char) : List Char := (dropBlanks cs.reverse).reverse

def trimChars (cs : List Char) : List Char := dropBlanksEnd (dropBlanks cs)

def trim (s : String) : String := String.ofList (trimChars s.toList)

def isBlankText (s : String) : Bool := s.toList.all isBlank

example : trim "\u00a0 x y\u2003\n" = "x y" := by decide +kernel

end Tutor.Text
