import Mustache.Text.Basic

/-!
# Blank characters

The white space of template text: the code points with the Unicode property White_Space and the
four information separators U+001C to U+001F.  `strip` cuts blanks from both ends and `words` cuts
a text at its runs of blanks.
-/

namespace Mustache

namespace Text

/-- The blank code points as closed ranges, ascending and apart. -/
def blankRanges : List (Nat × Nat) :=
  [(0x09, 0x0D), (0x1C, 0x20), (0x85, 0x85), (0xA0, 0xA0), (0x1680, 0x1680), (0x2000, 0x200A),
   (0x2028, 0x2029), (0x202F, 0x202F), (0x205F, 0x205F), (0x3000, 0x3000)]

/-- Is the character white space? -/
def isBlank (c : Char) : Bool := blankRanges.any fun r => r.1 ≤ c.toNat && c.toNat ≤ r.2

/-- The text without the blanks at its two ends. -/
def strip (s : Text) : Text := ((s.dropWhile isBlank).reverse.dropWhile isBlank).reverse

/-- The longest pieces of a text that hold no blank. -/
def words (s : Text) : List Text := (s.splitOnP isBlank).filter fun w => !w.isEmpty

/-- No piece that `words` gives is empty. -/
theorem ne_nil_of_mem_words {s w : Text} (h : w ∈ words s) : w ≠ [] := by
  rintro rfl
  simp [words] at h

example : isBlank '\u200b' = false ∧ isBlank '\ufeff' = false ∧ isBlank '\x1c' = true := by decide

end Text

end Mustache
