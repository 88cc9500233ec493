import ColorCensus.Theme.Lines
import Mathlib.Data.List.Induction

/-!
# Matching braces

Braces match in the order they are written: between the two braces of a block the braces are
balanced. A block is open at the end of a text when what follows its brace closes no block from
before, and the theme in force there is that of the innermost open block that sets one.

A stack finds that theme. The reason is a normal form: every word of braces is a balanced word,
interrupted by closing braces that match nothing and, after these, by opening braces that
nothing matches. The stack holds the latter.
-/

namespace ColorCensus.Theme

/-- A brace of a stylesheet; an opening one comes with the theme that its block sets, if any. -/
inductive Brace where
  | opening (theme : Option Theme)
  | closing
deriving DecidableEq, Repr

namespace Brace

/-! ## Blocks -/

/-- Every brace has its counterpart. -/
inductive Balanced : List Brace → Prop
  | nil : Balanced []
  | block {theme : Option Theme} {inner rest : List Brace} :
      Balanced inner → Balanced rest → Balanced (opening theme :: (inner ++ closing :: rest))

/-- The counterpart of a brace that stands right before these ones is among them. -/
def Closes (later : List Brace) : Prop :=
  ∃ inner rest, later = inner ++ closing :: rest ∧ Balanced inner

/-- No block that sets a theme is open after these braces. -/
def Unthemed (braces : List Brace) : Prop :=
  ∀ before theme later, braces = before ++ opening (some theme) :: later → Closes later

/-- The theme of the innermost block open after these braces that sets one, or else the base. -/
def InForce (braces : List Brace) (theme : Theme) : Prop :=
  (∃ before later, braces = before ++ opening (some theme) :: later ∧ ¬ Closes later ∧
    Unthemed later) ∨ Unthemed braces ∧ theme = base

/-- What a word of braces leaves unmatched: a number of closing braces, then opening ones, the
innermost first. -/
inductive Leaves : List Brace → Nat → Blocks → Prop
  | balanced {w : List Brace} : Balanced w → Leaves w 0 []
  | surplus {v w : List Brace} {k : Nat} :
      Leaves v k [] → Balanced w → Leaves (v ++ closing :: w) (k + 1) []
  | unclosed {v w : List Brace} {k : Nat} {blocks : Blocks} {tag : Option Theme} :
      Leaves v k blocks → Balanced w → Leaves (v ++ opening tag :: w) k (tag :: blocks)

variable {v w : List Brace} {theme : Theme} {tag : Option Theme} {k : Nat} {blocks : Blocks}

theorem split_cases {a b : Brace} {before later : List Brace}
    (h : v ++ a :: w = before ++ b :: later) :
    (∃ mid, v = before ++ b :: mid ∧ later = mid ++ a :: w) ∨
      (v = before ∧ a = b ∧ w = later) ∨ ∃ mid, before = v ++ a :: mid ∧ w = mid ++ b :: later := by
  obtain ⟨mid, rfl, hmid⟩ | ⟨mid, rfl, hmid⟩ := List.append_eq_append_iff.mp h
  · cases mid with
    | nil => exact .inr (.inl ⟨by simp, List.cons.inj hmid⟩)
    | cons _ mid =>
        obtain ⟨rfl, rfl⟩ := List.cons.inj hmid
        exact .inr (.inr ⟨mid, rfl, rfl⟩)
  · cases mid with
    | nil =>
        obtain ⟨rfl, rfl⟩ := List.cons.inj hmid
        exact .inr (.inl ⟨by simp, rfl, rfl⟩)
    | cons _ mid =>
        obtain ⟨rfl, rfl⟩ := List.cons.inj hmid
        exact .inl ⟨mid, rfl, rfl⟩

theorem Closes.append (h : Closes v) : Closes (v ++ w) := by
  obtain ⟨inner, rest, rfl, hinner⟩ := h
  exact ⟨inner, rest ++ w, by simp, hinner⟩

namespace Balanced

theorem append (hv : Balanced v) (hw : Balanced w) : Balanced (v ++ w) := by
  induction hv with
  | nil => exact hw
  | block hinner _ _ ih =>
      rw [List.cons_append, List.append_assoc, List.cons_append]
      exact .block hinner ih

theorem two_mul_count_closing (h : Balanced w) : 2 * w.count closing = w.length := by
  induction h with
  | nil => rfl
  | block _ _ hinner hrest =>
      simp
      omega

theorem two_mul_count_closing_le (h : Balanced w) {rest : List Brace} (hw : w = v ++ rest) :
    2 * v.count closing ≤ v.length := by
  induction h generalizing v rest with
  | nil => simp [(List.append_eq_nil_iff.mp hw.symm).1]
  | block hinner _ ihinner ihrest =>
      obtain ⟨rfl, -⟩ | ⟨v, rfl, hv⟩ := List.cons_eq_append_iff.mp hw
      · simp
      obtain ⟨mid, rfl, hmid⟩ | ⟨mid, hmid, -⟩ := List.append_eq_append_iff.mp hv
      · have := hinner.two_mul_count_closing
        obtain ⟨rfl, -⟩ | ⟨v, rfl, hrest⟩ := List.cons_eq_append_iff.mp hmid
        · simp
          omega
        · have := ihrest hrest
          simp
          omega
      · have := ihinner hmid
        simp
        omega

theorem not_closes (h : Balanced w) : ¬ Closes w := by
  rintro ⟨inner, rest, rfl, hinner⟩
  have hsplit : inner ++ closing :: rest = (inner ++ [closing]) ++ rest := by simp
  have hle := h.two_mul_count_closing_le hsplit
  have := hinner.two_mul_count_closing
  simp at hle
  omega

theorem closes (h : Balanced w) {before later : List Brace}
    (hw : w = before ++ opening tag :: later) : Closes later := by
  induction h generalizing before later with
  | nil => simp at hw
  | @block _ inner rest hinner _ ihinner ihrest =>
      cases before with
      | nil =>
          obtain ⟨-, rfl⟩ := List.cons.inj hw
          exact ⟨inner, rest, rfl, hinner⟩
      | cons _ before =>
          obtain ⟨-, hw⟩ := List.cons.inj hw
          obtain ⟨mid, rfl, rfl⟩ | ⟨-, hbrace, -⟩ | ⟨mid, -, rfl⟩ := split_cases hw
          · exact Closes.append (ihinner rfl)
          · cases hbrace
          · exact ihrest rfl

theorem unthemed (h : Balanced w) : Unthemed w := fun _ _ _ hw => h.closes hw

theorem not_closes_append (hw : Balanced w) (hv : ¬ Closes v) :
    ¬ Closes (v ++ opening tag :: w) := by
  rintro ⟨inner, rest, heq, hinner⟩
  obtain ⟨mid, rfl, rfl⟩ | ⟨-, hbrace, -⟩ | ⟨mid, rfl, rfl⟩ := split_cases heq
  · exact hv ⟨inner, mid, rfl, hinner⟩
  · cases hbrace
  · exact hw.not_closes (Closes.append (hinner.closes rfl))

theorem unthemed_append (hw : Balanced w) (hv : Unthemed v) :
    Unthemed (v ++ opening none :: w) := by
  intro before theme later heq
  obtain ⟨mid, rfl, rfl⟩ | ⟨-, hbrace, -⟩ | ⟨mid, -, rfl⟩ := split_cases heq
  · exact (hv _ _ _ rfl).append
  · cases hbrace
  · exact hw.closes rfl

end Balanced

theorem InForce.unique {theme' : Theme} (h : InForce w theme) (h' : InForce w theme') :
    theme = theme' := by
  obtain ⟨before, later, rfl, hopen, hlater⟩ | ⟨hnone, rfl⟩ := h
  · obtain ⟨before', later', hw, hopen', hlater'⟩ | ⟨hnone, -⟩ := h'
    · obtain ⟨mid, rfl, rfl⟩ | ⟨-, hbrace, -⟩ | ⟨mid, rfl, rfl⟩ := split_cases hw
      · exact absurd (hlater' _ _ _ rfl) hopen
      · cases hbrace
        rfl
      · exact absurd (hlater _ _ _ rfl) hopen'
    · exact absurd (hnone _ _ _ rfl) hopen
  · obtain ⟨before', later', rfl, hopen', -⟩ | ⟨-, rfl⟩ := h'
    · exact absurd (hnone _ _ _ rfl) hopen'
    · rfl

/-! ## The normal form of a word of braces -/

namespace Leaves

theorem append_balanced (h : Leaves v k blocks) (hw : Balanced w) : Leaves (v ++ w) k blocks := by
  cases h with
  | balanced hv => exact .balanced (hv.append hw)
  | surplus hv hrest =>
      rw [List.append_assoc, List.cons_append]
      exact .surplus hv (hrest.append hw)
  | unclosed hv hrest =>
      rw [List.append_assoc, List.cons_append]
      exact .unclosed hv (hrest.append hw)

end Leaves

theorem exists_leaves (w : List Brace) : ∃ k blocks, Leaves w k blocks := by
  induction w using List.reverseRecOn with
  | nil => exact ⟨0, [], .balanced .nil⟩
  | append_singleton w brace ih =>
      obtain ⟨k, blocks, h⟩ := ih
      cases brace with
      | opening tag => exact ⟨k, tag :: blocks, .unclosed h .nil⟩
      | closing =>
          cases h with
          | balanced hw => exact ⟨1, [], .surplus (.balanced hw) .nil⟩
          | surplus hv hrest => exact ⟨_, [], .surplus (.surplus hv hrest) .nil⟩
          | unclosed hv hrest =>
              rw [List.append_assoc, List.cons_append]
              exact ⟨_, _, hv.append_balanced (.block hrest .nil)⟩

namespace Leaves

theorem closes (h : Leaves w k blocks) (hk : k ≠ 0) : Closes w := by
  induction h with
  | balanced => exact absurd rfl hk
  | @surplus v rest k hv _ ih =>
      cases hv with
      | balanced hv => exact ⟨v, rest, rfl, hv⟩
      | surplus => exact (ih (Nat.succ_ne_zero _)).append
  | unclosed _ _ ih => exact (ih hk).append

/-- The closing braces of a word match all its opening ones but those it leaves. -/
theorem length_eq (h : Leaves w k blocks) :
    w.length + k = 2 * w.count closing + blocks.length := by
  induction h with
  | balanced hw => simp [hw.two_mul_count_closing]
  | surplus _ hrest ih =>
      have := hrest.two_mul_count_closing
      simp at ih ⊢
      omega
  | unclosed _ hrest ih =>
      have := hrest.two_mul_count_closing
      simp at ih ⊢
      omega

theorem mem (h : Leaves w k blocks) (htag : tag ∈ blocks) : opening tag ∈ w := by
  induction h with
  | balanced => cases htag
  | surplus => cases htag
  | unclosed _ _ ih =>
      obtain rfl | htag := List.mem_cons.mp htag
      · simp
      · exact List.mem_append_left _ (ih htag)

theorem unthemed (h : Leaves w k blocks) (hnone : blocks = []) : Unthemed w := by
  induction h with
  | balanced hw => exact hw.unthemed
  | surplus _ hrest ih =>
      intro before theme later hw
      obtain ⟨mid, rfl, rfl⟩ | ⟨-, hbrace, -⟩ | ⟨mid, -, rfl⟩ := split_cases hw
      · exact (ih rfl _ _ _ rfl).append
      · cases hbrace
      · exact hrest.closes rfl
  | unclosed => cases hnone

theorem inForce (h : Leaves w k blocks) : InForce w blocks.theme := by
  induction h with
  | balanced hw => exact .inr ⟨hw.unthemed, rfl⟩
  | surplus hv hrest => exact .inr ⟨(surplus hv hrest).unthemed rfl, rfl⟩
  | @unclosed v w _ _ tag _ hw ih =>
      cases tag with
      | some theme => exact .inl ⟨v, w, rfl, hw.not_closes, hw.unthemed⟩
      | none =>
          -- A block without a theme passes on the one around it.
          obtain ⟨before, later, rfl, hopen, hlater⟩ | ⟨hnone, htheme⟩ := ih
          · refine .inl ⟨before, later ++ opening none :: w, ?_, hw.not_closes_append hopen,
              hw.unthemed_append hlater⟩
            rw [List.append_assoc, List.cons_append]
            rfl
          · exact .inr ⟨hw.unthemed_append hnone, htheme⟩

end Leaves

/-! ## The stack -/

/-- What one brace does to the stack of open blocks. -/
def step (blocks : Blocks) : Brace → Blocks
  | opening theme => theme :: blocks
  | closing => blocks.drop 1

/-- The stack of open blocks after some braces. -/
def read (blocks : Blocks) (w : List Brace) : Blocks := w.foldl step blocks

theorem read_append : read blocks (v ++ w) = read (read blocks v) w := List.foldl_append

theorem Balanced.read_eq (h : Balanced w) : read blocks w = blocks := by
  induction h generalizing blocks with
  | nil => rfl
  | @block theme inner rest _ _ ihinner ihrest =>
      calc read blocks (opening theme :: (inner ++ closing :: rest))
          = read (read (theme :: blocks) inner) (closing :: rest) := read_append
        _ = read (theme :: blocks) (closing :: rest) := by rw [ihinner]
        _ = blocks := ihrest

theorem Leaves.read_eq {left : Blocks} (h : Leaves w k left) :
    read blocks w = left ++ blocks.drop k := by
  induction h with
  | balanced hw => exact hw.read_eq
  | @surplus v rest k _ hrest ih =>
      rw [read_append, ih]
      calc read (blocks.drop k) (closing :: rest) = (blocks.drop k).drop 1 := hrest.read_eq
        _ = blocks.drop (k + 1) := List.drop_drop
  | @unclosed v w k left tag _ hw ih =>
      rw [read_append, ih]
      exact hw.read_eq

/-- The stack finds the theme in force. -/
theorem inForce_read (w : List Brace) : InForce w (read [] w).theme := by
  obtain ⟨k, blocks, h⟩ := exists_leaves w
  have hread : read [] w = blocks := by rw [h.read_eq, List.drop_nil, List.append_nil]
  rw [hread]
  exact h.inForce

end Brace

end ColorCensus.Theme
