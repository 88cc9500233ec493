/-!
# Splitting at a separator

The pieces of a text between the places where one separator stands: there is one more piece
than there are separators, no piece holds a separator, and joining the pieces gives the text.
-/

namespace ColorCensus.Text

def splitOn (sep : Char) : List Char → List (List Char)
  | [] => [[]]
  | c :: rest =>
      if c == sep then [] :: splitOn sep rest
      else match splitOn sep rest with
        | [] => [[c]]
        | piece :: pieces => (c :: piece) :: pieces

def joinWith (sep : Char) : List (List Char) → List Char
  | [] => []
  | [piece] => piece
  | piece :: pieces => piece ++ sep :: joinWith sep pieces

theorem length_splitOn (sep : Char) (text : List Char) :
    (splitOn sep text).length = text.count sep + 1 := by
  induction text with
  | nil => rfl
  | cons c rest ih =>
      by_cases hc : c = sep
      · simp [splitOn, hc, ih]
      · have hne : splitOn sep rest ≠ [] := by intro h; simp [h] at ih
        obtain ⟨l, ls, h⟩ := List.exists_cons_of_ne_nil hne
        rw [h] at ih
        simp only [splitOn, beq_iff_eq, hc, if_false, h, List.length_cons,
          List.count_cons_of_ne hc] at ih ⊢
        exact ih

theorem splitOn_ne_nil (sep : Char) (text : List Char) : splitOn sep text ≠ [] := by
  intro h
  have := length_splitOn sep text
  simp [h] at this

theorem not_mem_of_mem_splitOn {sep : Char} {text piece : List Char}
    (h : piece ∈ splitOn sep text) : sep ∉ piece := by
  induction text generalizing piece with
  | nil => simp [splitOn] at h; simp [h]
  | cons c rest ih =>
      obtain ⟨l, ls, hs⟩ := List.exists_cons_of_ne_nil (splitOn_ne_nil sep rest)
      rw [hs] at ih
      by_cases hc : c = sep
      · simp only [splitOn, hc, beq_self_eq_true, if_true, hs, List.mem_cons] at h
        rcases h with rfl | h
        · simp
        · exact ih (List.mem_cons.mpr h)
      · simp only [splitOn, beq_iff_eq, hc, if_false, hs, List.mem_cons] at h
        rcases h with rfl | h
        · simpa [Ne.symm hc] using ih List.mem_cons_self
        · exact ih (List.mem_cons_of_mem _ h)

theorem joinWith_splitOn (sep : Char) (text : List Char) :
    joinWith sep (splitOn sep text) = text := by
  induction text with
  | nil => rfl
  | cons c rest ih =>
      obtain ⟨l, ls, hs⟩ := List.exists_cons_of_ne_nil (splitOn_ne_nil sep rest)
      rw [hs] at ih
      by_cases hc : c = sep
      · simp [splitOn, hc, hs, joinWith, ih]
      · simp only [splitOn, beq_iff_eq, hc, if_false, hs]
        cases ls with
        | nil => simpa [joinWith] using ih
        | cons m ms => simpa [joinWith] using ih

theorem splitOn_of_not_mem {sep : Char} {cs : List Char} (h : sep ∉ cs) :
    splitOn sep cs = [cs] := by
  induction cs with
  | nil => rfl
  | cons c cs ih =>
      have hc : (c == sep) = false :=
        beq_eq_false_iff_ne.mpr fun heq => h (heq ▸ List.mem_cons_self)
      rw [splitOn, ih fun hmem => h (List.mem_cons_of_mem _ hmem)]
      simp [hc]

theorem splitOn_append_sep (sep : Char) (front rest : List Char) :
    splitOn sep (front ++ sep :: rest) = splitOn sep front ++ splitOn sep rest := by
  induction front with
  | nil => simp [splitOn]
  | cons c front ih =>
      rw [List.cons_append, splitOn, splitOn, ih]
      obtain ⟨piece, pieces, h⟩ := List.exists_cons_of_ne_nil (splitOn_ne_nil sep front)
      rw [h]
      split
      · rfl
      · rfl

theorem splitOn_append_cons {sep : Char} {piece : List Char} (h : sep ∉ piece)
    (rest : List Char) : splitOn sep (piece ++ sep :: rest) = piece :: splitOn sep rest := by
  rw [splitOn_append_sep, splitOn_of_not_mem h, List.singleton_append]

theorem splitOn_append {sep : Char} {front text piece : List Char} {pieces : List (List Char)}
    (h : sep ∉ front) (htext : splitOn sep text = piece :: pieces) :
    splitOn sep (front ++ text) = (front ++ piece) :: pieces := by
  induction front with
  | nil => exact htext
  | cons c front ih =>
      have hc : c ≠ sep := fun heq => h (heq ▸ List.mem_cons_self)
      rw [List.cons_append, splitOn, ih fun hmem => h (List.mem_cons_of_mem _ hmem)]
      simp [hc]

theorem joinWith_append (sep : Char) {pieces : List (List Char)} (hne : pieces ≠ [])
    (text : List Char) (piece : List Char) :
    joinWith sep (piece :: pieces) ++ text = piece ++ sep :: (joinWith sep pieces ++ text) := by
  obtain ⟨next, pieces, rfl⟩ := List.exists_cons_of_ne_nil hne
  rw [joinWith, List.append_assoc, List.cons_append]
  exact nofun

theorem suffix_joinWith (sep : Char) (pieces : List (List Char)) (last : List Char) :
    last <:+ joinWith sep (pieces ++ [last]) := by
  induction pieces with
  | nil => exact List.suffix_refl last
  | cons piece pieces ih =>
      have hjoin := joinWith_append sep (List.concat_ne_nil last pieces) [] piece
      rw [List.append_nil, List.append_nil] at hjoin
      rw [List.cons_append, hjoin]
      exact (ih.trans (List.suffix_cons sep _)).trans (List.suffix_append piece _)

theorem splitOn_joinWith_append {sep : Char} {pieces : List (List Char)}
    (h : ∀ piece ∈ pieces, sep ∉ piece) (last text : List Char) :
    splitOn sep (joinWith sep (pieces ++ [last]) ++ text) =
      pieces ++ splitOn sep (last ++ text) := by
  induction pieces with
  | nil => rfl
  | cons piece pieces ih =>
      have hne : pieces ++ [last] ≠ [] := List.concat_ne_nil last pieces
      rw [List.cons_append, joinWith_append _ hne, splitOn_append_cons (h piece List.mem_cons_self),
        ih fun q hq => h q (List.mem_cons_of_mem _ hq), List.cons_append]

/-- Where a text is cut in two, the last piece of the first part and the first piece of the second
are one. -/
theorem splitOn_append_pieces {sep : Char} {front rest last first : List Char}
    {pieces more : List (List Char)} (hfront : splitOn sep front = pieces ++ [last])
    (hrest : splitOn sep rest = first :: more) :
    splitOn sep (front ++ rest) = pieces ++ (last ++ first) :: more := by
  have hnone : ∀ piece ∈ pieces ++ [last], sep ∉ piece := by
    intro piece hpiece
    rw [← hfront] at hpiece
    exact not_mem_of_mem_splitOn hpiece
  rw [← joinWith_splitOn sep front, hfront,
    splitOn_joinWith_append fun piece hpiece => hnone piece (List.mem_append_left _ hpiece),
    splitOn_append (hnone last List.mem_concat_self) hrest]

theorem splitOn_joinWith {sep : Char} {pieces : List (List Char)} (hne : pieces ≠ [])
    (h : ∀ piece ∈ pieces, sep ∉ piece) : splitOn sep (joinWith sep pieces) = pieces := by
  induction pieces with
  | nil => exact absurd rfl hne
  | cons piece pieces ih =>
      have hpiece : sep ∉ piece := h piece List.mem_cons_self
      cases pieces with
      | nil => exact splitOn_of_not_mem hpiece
      | cons next pieces =>
          rw [joinWith, splitOn_append_cons hpiece, ih (List.cons_ne_nil _ _)]
          · intro q hq
            exact h q (List.mem_cons_of_mem _ hq)
          · exact nofun

end ColorCensus.Text
