/-!
# Blanks

A blank is a character that separates words: the 25 white-space characters of Unicode together
with the four information separators of ASCII. Trimming, splitting and collapsing all mean this
one class.
-/

namespace ColorCensus.Text

/-- The blanks outside ASCII. -/
def wideBlanks : List Nat :=
  [0x85, 0xA0, 0x1680, 0x2000, 0x2001, 0x2002, 0x2003, 0x2004, 0x2005, 0x2006, 0x2007, 0x2008,
   0x2009, 0x200A, 0x2028, 0x2029, 0x202F, 0x205F, 0x3000]

def isBlank (c : Char) : Bool :=
  let n := c.toNat
  if n < 0x80 then n == 0x20 || (0x9 ≤ n && n ≤ 0xD) || (0x1C ≤ n && n ≤ 0x1F)
  else wideBlanks.contains n

def trimLeft (cs : List Char) : List Char := cs.dropWhile isBlank

/-- Drops the characters of a class from the end. -/
def dropEndWhile (p : Char → Bool) (cs : List Char) : List Char :=
  (cs.reverse.dropWhile p).reverse

def trim (cs : List Char) : List Char := dropEndWhile isBlank (trimLeft cs)

/-- Every run of blanks becomes one space; `inRun` says that the run at hand is written. -/
def collapseAfter (inRun : Bool) : List Char → List Char
  | [] => []
  | c :: rest =>
      if isBlank c then
        if inRun then collapseAfter true rest else ' ' :: collapseAfter true rest
      else c :: collapseAfter false rest

def collapse (cs : List Char) : List Char := collapseAfter false cs

/-- The first maximal run of characters that are not blank. -/
def firstWord? (cs : List Char) : Option (List Char) :=
  match (trimLeft cs).takeWhile (!isBlank ·) with
  | [] => none
  | w => some w

theorem trimLeft_eq_self {cs : List Char} (h : ∀ c ∈ cs.head?, isBlank c = false) :
    trimLeft cs = cs := by
  cases cs with
  | nil => rfl
  | cons c r =>
    have hc : isBlank c = false := h c rfl
    simp [trimLeft, hc]

theorem dropEndWhile_concat {p : Char → Bool} {c : Char} (h : p c = true) (cs : List Char) :
    dropEndWhile p (cs ++ [c]) = dropEndWhile p cs := by
  rw [dropEndWhile, dropEndWhile, List.reverse_concat, List.dropWhile_cons_of_pos h]

end ColorCensus.Text
