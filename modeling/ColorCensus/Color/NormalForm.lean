import ColorCensus.Text.Blank
import ColorCensus.Text.Lowercase

/-!
# The normal form of a color value

Two spellings of a value are the same color when they differ only in letter case and blanks.
-/

namespace ColorCensus.Color

open Text

def normalForm (value : List Char) : List Char := (lower (trim value)).filter (!isBlank ·)

theorem not_isBlank_of_mem_normalForm {value : List Char} {c : Char}
    (h : c ∈ normalForm value) : isBlank c = false := by
  simpa using (List.mem_filter.mp h).2

end ColorCensus.Color
