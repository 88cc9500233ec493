import ColorCensus.Proofs.Pieces
import Mathlib.Data.List.Basic

/-!
# Searches as lists of ways

A pattern says what a piece of text looks like, and nothing about how to find
it. A search for it tries one thing after the other and takes what succeeds
first: a run is taken whole and then ever shorter (`many`), or left out and then
taken ever longer (`few`). Here a pattern is the list of everything that its
search could come to, in the order in which it would try, and the search is the
head of that list.

A recogniser does not search; it takes every run whole. That it comes to the
same is due to what stands behind a run: if it cannot start with a character of
the run, there is only one way (`flatMap_many`). So the pieces of a pattern can
be gone through one by one, from the last one to the first (`Finds`).
-/

namespace ColorCensus.Text

/-! ## Ways to go on in a text -/

/-- What may be left of a text behind a piece, in the order in which it is tried. -/
abbrev Ways := List Char → List (List Char)

namespace Ways

def literal (lit : List Char) : Ways := fun cs => (dropLiteral? lit cs).toList

/-- One character of a class. -/
def one (p : Char → Bool) : Ways := fun cs => (dropOne? p cs).toList

/-- A run of a class, as long as possible at first, and then ever shorter. -/
def many (p : Char → Bool) : Ways
  | [] => [[]]
  | c :: cs => if p c then many p cs ++ [c :: cs] else [c :: cs]

/-- A run of a class, as short as possible at first, and then ever longer. -/
def few (p : Char → Bool) : Ways
  | [] => [[]]
  | c :: cs => (c :: cs) :: if p c then few p cs else []

/-- Pieces one after the other, and then whatever comes behind them. -/
def andThen {β : Type} : List Ways → (List Char → List β) → List Char → List β
  | [], rest, cs => rest cs
  | w :: ws, rest, cs => (w cs).flatMap (andThen ws rest)

/-- A run that is not empty. -/
def run (p : Char → Bool) : Ways := andThen [one p] (many p)

/-- Pieces that are left out if they are not there. -/
def optional (ws : List Ways) : Ways := fun cs => andThen ws (fun left => [left]) cs ++ [cs]

/-- Text between two quotes, and what is left behind it. -/
def inQuotes (cs : List Char) : List (List Char × List Char) :=
  (one isQuote cs).flatMap fun inside => (run (!isQuote ·) inside).flatMap fun behind =>
    (one isQuote behind).map fun left => (inside.take (consumed inside behind), left)

variable {α β : Type} {p : Char → Bool}

theorem flatMap_toList (o : Option α) (f : α → Option β) :
    (o.toList.flatMap fun a => (f a).toList) = (o.bind f).toList := by
  cases o with
  | none => rfl
  | some a => exact List.flatMap_singleton _ a

theorem flatMap_many {rest : List Char → List β} (h : ∀ c cs, p c = true → rest (c :: cs) = [])
    (cs : List Char) : (many p cs).flatMap rest = rest (cs.dropWhile p) := by
  induction cs with
  | nil => exact List.flatMap_singleton _ _
  | cons c cs ih =>
      rw [many, List.dropWhile_cons]
      split
      · next hc =>
          rw [List.flatMap_append, ih, List.flatMap_singleton, h c cs hc, List.append_nil]
      · exact List.flatMap_singleton _ _

theorem one_of_pos {c : Char} (h : p c = true) (cs : List Char) : one p (c :: cs) = [cs] := by
  rw [one, dropOne?, if_pos h]
  rfl

theorem one_of_neg {c : Char} (h : p c = false) (cs : List Char) : one p (c :: cs) = [] := by
  rw [one, dropOne?, h]
  rfl

theorem run_of_pos {c : Char} (h : p c = true) (cs : List Char) :
    run p (c :: cs) = many p cs := by
  rw [run, andThen, one_of_pos h]
  exact List.flatMap_singleton _ _

theorem run_of_neg {c : Char} (h : p c = false) (cs : List Char) : run p (c :: cs) = [] := by
  rw [run, andThen, one_of_neg h]
  rfl

theorem flatMap_run {rest : List Char → List β} (h : ∀ c cs, p c = true → rest (c :: cs) = [])
    (cs : List Char) : (run p cs).flatMap rest = (dropRun? p cs).toList.flatMap rest := by
  cases cs with
  | nil => rfl
  | cons c cs =>
      rw [dropRun?, takeRun?, List.takeWhile_cons, List.dropWhile_cons]
      cases hc : p c with
      | false =>
          rw [run_of_neg hc]
          rfl
      | true =>
          rw [run_of_pos hc]
          exact (flatMap_many h cs).trans (List.flatMap_singleton _ _).symm

theorem many_eq_cons (p : Char → Bool) (cs : List Char) :
    ∃ shorter, many p cs = cs.dropWhile p :: shorter := by
  induction cs with
  | nil => exact ⟨[], rfl⟩
  | cons c cs ih =>
      rw [many, List.dropWhile_cons]
      split
      · obtain ⟨shorter, h⟩ := ih
        exact ⟨shorter ++ [c :: cs], by rw [h, List.cons_append]⟩
      · exact ⟨[], rfl⟩

theorem flatMap_andThen {γ : Type} (ws : List Ways) (rest : List Char → List β) (f : β → List γ)
    (cs : List Char) :
    (andThen ws rest cs).flatMap f = andThen ws (fun left => (rest left).flatMap f) cs := by
  induction ws generalizing cs with
  | nil => rfl
  | cons w ws ih =>
      rw [andThen, andThen, List.flatMap_assoc]
      exact List.flatMap_congr fun left _ => ih left

theorem flatMap_optional (ws : List Ways) (rest : List Char → List β) (cs : List Char) :
    (optional ws cs).flatMap rest = andThen ws rest cs ++ rest cs := by
  rw [optional, List.flatMap_append, flatMap_andThen, List.flatMap_singleton]
  simp only [List.flatMap_singleton]

theorem takeQuoted?_eq (cs : List Char) :
    takeQuoted? cs = (dropOne? isQuote cs).bind fun inside =>
      (takeRun? (!isQuote ·) inside).bind fun taken =>
        (dropOne? isQuote taken.2).map fun left => (taken.1, left) := by
  unfold takeQuoted?
  simp only [Option.bind_eq_bind, Option.pure_def, Option.map_eq_bind]
  rfl

theorem inQuotes_inside (inside : List Char) :
    ((run (!isQuote ·) inside).flatMap fun behind => (one isQuote behind).map fun left =>
        (inside.take (consumed inside behind), left)) =
      ((takeRun? (!isQuote ·) inside).bind fun taken =>
        (dropOne? isQuote taken.2).map fun left => (taken.1, left)).toList := by
  have hstop : ∀ c cs, (!isQuote c) = true → ((one isQuote (c :: cs)).map fun left =>
      (inside.take (consumed inside (c :: cs)), left)) = [] := by
    intro c cs hc
    rw [one_of_neg (by simpa using hc)]
    rfl
  rw [flatMap_run hstop, dropRun?]
  cases htaken : takeRun? (!isQuote ·) inside with
  | none => rfl
  | some taken =>
      rw [takeRun?_append htaken, Option.map_some, Option.bind_some, Option.toList_some,
        List.flatMap_singleton, consumed_append, List.take_left, one]
      cases dropOne? isQuote taken.2 with
      | none => rfl
      | some left => rfl

theorem inQuotes_eq (cs : List Char) : inQuotes cs = (takeQuoted? cs).toList := by
  rw [takeQuoted?_eq, ← flatMap_toList]
  exact List.flatMap_congr fun inside _ => inQuotes_inside inside

/-! ## The first way -/

/-- The first way, if there is one, is what a function gives. -/
def Finds {β : Type} (ways : List Char → List β) (first : List Char → Option β) : Prop :=
  ∀ cs, (ways cs).head? = first cs

namespace Finds

variable {β : Type} {ws : List Ways} {rest : List Char → List β} {first : List Char → Option β}
  {p : Char → Bool}

theorem eq_nil (h : Finds rest first) {cs : List Char} (hnone : first cs = none) : rest cs = [] :=
  List.head?_eq_none_iff.mp ((h cs).trans hnone)

theorem flatMap_toList {α : Type} {f : α → List β} {g : α → Option β}
    (h : ∀ a, (f a).head? = g a) (o : Option α) : (o.toList.flatMap f).head? = o.bind g := by
  cases o with
  | none => rfl
  | some a =>
      rw [Option.toList_some, List.flatMap_singleton, h a]
      rfl

theorem literal (h : Finds (andThen ws rest) first) (lit : List Char) :
    Finds (andThen (.literal lit :: ws) rest) fun cs => (dropLiteral? lit cs).bind first :=
  fun _ => flatMap_toList h _

theorem run (h : Finds (andThen ws rest) first)
    (hstop : ∀ c cs, p c = true → first (c :: cs) = none) :
    Finds (andThen (.run p :: ws) rest) fun cs => (dropRun? p cs).bind first := by
  intro cs
  rw [andThen, flatMap_run fun c cs hc => h.eq_nil (hstop c cs hc)]
  exact flatMap_toList h _

theorem many (h : Finds (andThen ws rest) first)
    (hstop : ∀ c cs, p c = true → first (c :: cs) = none) :
    Finds (andThen (.many p :: ws) rest) fun cs => first (cs.dropWhile p) := by
  intro cs
  rw [andThen, flatMap_many fun c cs hc => h.eq_nil (hstop c cs hc)]
  exact h _

/-- A run in front of what always leads on is taken whole. -/
theorem many_some {f : List Char → β} (h : Finds (andThen ws rest) fun cs => some (f cs)) :
    Finds (andThen (.many p :: ws) rest) fun cs => some (f (cs.dropWhile p)) := by
  intro cs
  obtain ⟨shorter, hmany⟩ := many_eq_cons p cs
  rw [andThen, hmany, List.flatMap_cons, List.head?_append, h]
  rfl

theorem optional {pieces : List Ways} {present : List Char → Option β}
    (h : Finds (andThen ws rest) first)
    (hpieces : Finds (andThen pieces (andThen ws rest)) present) :
    Finds (andThen (.optional pieces :: ws) rest) fun cs => (present cs).or (first cs) := by
  intro cs
  rw [andThen, flatMap_optional, List.head?_append, hpieces, h]

theorem inQuotes {f : List Char × List Char → List β} {g : List Char × List Char → Option β}
    (h : ∀ taken, (f taken).head? = g taken) :
    Finds (fun cs => (Ways.inQuotes cs).flatMap f) fun cs => (takeQuoted? cs).bind g := by
  intro cs
  dsimp only
  rw [inQuotes_eq]
  exact flatMap_toList h _

end Finds

end Ways

/-! ## Recognisers that take more -/

section

variable {α : Type} {r longer : Recognizer α}

/-- A recogniser takes what another one takes and goes on, over text in which the other one takes
nothing. -/
structure Prolongs (longer r : Recognizer α) : Prop where
  refuses : ∀ before cs, r before cs = none → longer before cs = none
  takes : ∀ before cs value left, r before cs = some (value, left) →
    ∃ skipped rest, left = skipped ++ rest ∧ longer before cs = some (value, rest) ∧
      ∀ c ∈ skipped, ∀ before cs, r before (c :: cs) = none

namespace Prolongs

variable {before : Option Char} {cs rest : List Char} {value : α}

theorem eq_none (h : Prolongs longer r) (hlonger : longer before cs = none) :
    r before cs = none := by
  cases hshort : r before cs with
  | none => rfl
  | some taken =>
      obtain ⟨_, _, _, hsome, -⟩ := h.takes _ _ _ _ hshort
      cases hlonger.symm.trans hsome

theorem shape (h : Prolongs longer r) (hr : TakesPiece r)
    (hlonger : longer before cs = some (value, rest)) :
    ∃ piece skipped, cs = piece ++ (skipped ++ rest) ∧ piece ≠ [] ∧
      r before cs = some (value, skipped ++ rest) ∧
      ∀ c ∈ skipped, ∀ before cs, r before (c :: cs) = none := by
  cases hshort : r before cs with
  | none => cases (h.refuses _ _ hshort).symm.trans hlonger
  | some taken =>
      obtain ⟨value', left⟩ := taken
      obtain ⟨skipped, rest', rfl, hsome, hskipped⟩ := h.takes _ _ _ _ hshort
      obtain ⟨piece, rfl, hne⟩ := hr _ _ _ _ hshort
      cases hsome.symm.trans hlonger
      exact ⟨piece, skipped, rfl, hne, rfl, hskipped⟩

theorem takesPiece (h : Prolongs longer r) (hr : TakesPiece r) : TakesPiece longer := by
  intro before cs value rest hlonger
  obtain ⟨piece, skipped, rfl, hne, -, -⟩ := h.shape hr hlonger
  exact ⟨piece ++ skipped, (List.append_assoc _ _ _).symm,
    List.append_ne_nil_of_left_ne_nil hne skipped⟩

end Prolongs

theorem tokensFrom_over {skipped : List Char}
    (h : ∀ c ∈ skipped, ∀ before cs, r before (c :: cs) = none) (rest : List Char) (pos : Nat)
    (before : Option Char) :
    tokensFrom r 0 pos before (skipped ++ rest) =
      tokensFrom r 0 (pos + skipped.length) (skipped.getLast?.or before) rest := by
  induction skipped generalizing pos before with
  | nil => rfl
  | cons c skipped ih =>
      rw [List.cons_append, tokensFrom_none (h c List.mem_cons_self _ _),
        ih fun d hd => h d (List.mem_cons_of_mem _ hd), getLast?_cons_or, List.length_cons,
        Nat.add_right_comm, Nat.add_assoc]

theorem Prolongs.map_tokens (h : Prolongs longer r) (hr : TakesPiece r) (text : List Char) :
    (tokens longer text).map (fun t => (t.start, t.value)) =
      (tokens r text).map fun t => (t.start, t.value) := by
  suffices ∀ pos, (tokensFrom longer 0 pos none text).map (fun t => (t.start, t.value)) =
      (tokensFrom r 0 pos none text).map fun t => (t.start, t.value) from this 0
  refine walk_induction (h.takesPiece hr) (motive := fun before text => ∀ pos,
      (tokensFrom longer 0 pos before text).map (fun t => (t.start, t.value)) =
        (tokensFrom r 0 pos before text).map fun t => (t.start, t.value))
    (fun _ _ => rfl) ?_ ?_ none text
  · intro before c rest hnone ih pos
    rw [tokensFrom_none hnone, tokensFrom_none (h.eq_none hnone), ih]
  · intro before taken value rest hne hlonger ih pos
    obtain ⟨piece, skipped, htext, hpiece, hshort, hskipped⟩ := h.shape hr hlonger
    rw [← List.append_assoc] at htext
    obtain rfl : taken = piece ++ skipped := List.append_cancel_right htext
    rw [tokensFrom_some hne hlonger, List.map_cons, ih]
    rw [List.append_assoc] at hshort ⊢
    rw [tokensFrom_some hpiece hshort, tokensFrom_over hskipped, List.map_cons,
      List.getLast?_append, List.length_append, Nat.add_assoc]

end

end ColorCensus.Text
