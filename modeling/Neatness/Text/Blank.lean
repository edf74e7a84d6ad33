/-!
# Blank characters

Which characters separate words without being seen: the white space property of the character
standard.  A student name is compared after its surrounding blanks are gone, and several rules skip
runs of blanks.
-/

namespace Neatness
namespace Text

/-- White space: the tab to carriage return controls, the space, the next-line control, and the
spaces and separators beyond them. -/
def isBlank (c : Char) : Bool :=
  let n := c.toNat
  (9 ≤ n && n ≤ 13) || n == 0x20 || n == 0x85 || n == 0xA0 || n == 0x1680 ||
    (0x2000 ≤ n && n ≤ 0x200A) || n == 0x2028 || n == 0x2029 || n == 0x202F ||
    n == 0x205F || n == 0x3000

/-- A space or a tab: a blank that stays on its line. -/
def isInline (c : Char) : Bool :=
  c == ' ' || c == '\t'

/-- A text without the blanks at its two ends. -/
def trim (cs : List Char) : List Char :=
  ((cs.dropWhile isBlank).reverse.dropWhile isBlank).reverse

@[simp] theorem trim_nil : trim [] = [] := rfl

end Text
end Neatness
