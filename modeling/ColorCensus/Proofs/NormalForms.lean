import ColorCensus.Color.NormalForm

/-!
# Normal forms stay as they are

The normal form of a value is in normal form already. Blanks are no trouble: the last step takes
them out, and nothing brings them back. Lower-casing is the part with an argument. What it writes
for a capital sigma depends on the text around it, and that text changes when the blanks go. But
lower-casing writes small letters only, and no small letter is a capital: none of those in the
table, none of the two that stand for the capital I with dot, and neither of the two sigmas. So
there is no sigma left to look around from, and the second time every character stays.

That no small letter of the table is a capital is told run by run (`CaseRun.apart`).
-/

namespace ColorCensus

open Text

namespace Text

/-! ## Capitals -/

/-- Two runs have no code point in common: one of them ends before the other starts, or both go in
steps of two and pass each other by. -/
def CaseRun.apart (r s : CaseRun) : Bool :=
  Nat.blt r.last s.first || Nat.blt s.last r.first ||
    (s.stride == 2 && (r.stride == 2 || r.first == r.last) && (r.first + s.first) % 2 == 1)

/-- The small letters of a run. -/
def CaseRun.small (r : CaseRun) : CaseRun :=
  { r with first := (r.first + r.shift).toNat, last := (r.last + r.shift).toNat }

theorem CaseRun.covers_iff {r : CaseRun} {n : Nat} :
    r.covers n = true ↔ r.first ≤ n ∧ n ≤ r.last ∧ (n - r.first) % r.stride = 0 := by
  simp only [covers, Bool.and_eq_true, decide_eq_true_eq, beq_iff_eq, and_assoc]

theorem CaseRun.covers_small {r : CaseRun} {n : Nat} (hshift : 0 ≤ r.first + r.shift)
    (h : r.covers n = true) : r.small.covers (n + r.shift).toNat = true := by
  obtain ⟨hfirst, hlast, hstep⟩ := covers_iff.mp h
  refine covers_iff.mpr ⟨?_, ?_, ?_⟩
  · simp only [small]
    omega
  · simp only [small]
    omega
  · rw [← hstep]
    congr 1
    simp only [small]
    omega

theorem CaseRun.not_covers_of_apart {r s : CaseRun} {n : Nat} (h : r.apart s = true)
    (hr : r.covers n = true) : s.covers n = false := by
  rw [Bool.eq_false_iff]
  intro hs
  obtain ⟨hfirst, hlast, hstep⟩ := covers_iff.mp hr
  obtain ⟨hfirst', hlast', hstep'⟩ := covers_iff.mp hs
  simp only [apart, Bool.or_eq_true, Bool.and_eq_true, Nat.blt_eq, beq_iff_eq] at h
  rcases h with (hbefore | hbehind) | ⟨⟨htwo, hsteps⟩, hodd⟩
  · omega
  · omega
  · rw [htwo] at hstep'
    rcases hsteps with htwo' | hsingle
    · rw [htwo'] at hstep
      omega
    · omega

/-- All capitals: those of the table, those of ASCII, and the capital I with dot, which moves to the
first of its two small letters. -/
def capitalRuns : List CaseRun := ⟨0x41, 0x5A, 1, 32⟩ :: ⟨0x130, 0x130, 1, -199⟩ :: caseRuns

def isCapital (c : Char) : Bool := capitalRuns.any (·.covers c.toNat)

theorem isCapital_eq_false_iff {c : Char} :
    isCapital c = false ↔ ∀ r ∈ capitalRuns, r.covers c.toNat = false := by
  simp only [isCapital, List.any_eq_false, Bool.not_eq_true]

theorem isCapital_eq_false_iff_of {c : Char} :
    isCapital c = false ↔ isAsciiUpper c = false ∧ c ≠ '\u0130' ∧
      caseRuns.find? (·.covers c.toNat) = none := by
  rw [isCapital_eq_false_iff, capitalRuns, List.forall_mem_cons, List.forall_mem_cons,
    List.find?_eq_none]
  refine and_congr ?_ (and_congr ?_ ?_)
  · rw [← Bool.not_eq_true, ← Bool.not_eq_true, isAsciiUpper_iff, CaseRun.covers_iff]
    simp only [Nat.mod_one, and_true]
  · have hdot : ('\u0130' : Char).toNat = 0x130 := rfl
    rw [← Bool.not_eq_true, CaseRun.covers_iff, Ne, ← Char.toNat_inj, hdot]
    simp only [Nat.mod_one, and_true]
    omega
  · simp only [Bool.not_eq_true]

theorem capitalRuns_small_apart :
    (capitalRuns.all fun r => capitalRuns.all r.small.apart) = true := by
  decide +kernel

theorem not_isCapital_shifted {r : CaseRun} (hr : r ∈ capitalRuns) {n : Nat}
    (hn : r.covers n = true) : isCapital (Char.ofNat (n + r.shift).toNat) = false := by
  rcases toNat_ofNat_or (n + r.shift).toNat with hnat | hzero
  · have hpositive : ∀ r ∈ capitalRuns, 0 ≤ r.first + r.shift := by decide +kernel
    rw [isCapital_eq_false_iff, hnat]
    intro s hs
    have hapart := List.all_eq_true.mp (List.all_eq_true.mp capitalRuns_small_apart r hr) s hs
    exact CaseRun.not_covers_of_apart hapart (CaseRun.covers_small (hpositive r hr) hn)
  · rw [hzero]
    decide +kernel

theorem sigma_isCapital : isCapital 'Σ' = true := by decide +kernel

/-! ## Lower-casing -/

theorem smallLetters_of_not_isCapital {c : Char} (h : isCapital c = false) :
    smallLetters c = [c] := by
  obtain ⟨hupper, hdotted, hnone⟩ := isCapital_eq_false_iff_of.mp h
  unfold smallLetters
  rw [hupper, beq_eq_false_iff_ne.mpr hdotted, hnone]
  split
  · rfl
  · rfl

theorem not_isCapital_of_mem_smallLetters {c d : Char} (h : d ∈ smallLetters c) :
    isCapital d = false := by
  unfold smallLetters at h
  split at h
  · next hascii =>
      split at h
      · next hupper =>
          obtain ⟨hA, hZ⟩ := isAsciiUpper_iff.mp hupper
          rw [List.mem_singleton.mp h]
          exact not_isCapital_shifted List.mem_cons_self
            (CaseRun.covers_iff.mpr ⟨hA, hZ, Nat.mod_one _⟩)
      · next hupper =>
          have hwide : ∀ r ∈ caseRuns, 0x80 ≤ r.first := by decide +kernel
          rw [List.mem_singleton.mp h, isCapital_eq_false_iff_of]
          refine ⟨Bool.eq_false_iff.mpr hupper, ?_, List.find?_eq_none.mpr fun r hr hcovers => ?_⟩
          · rintro rfl
            exact absurd hascii (by decide)
          · have hfirst := hwide r hr
            have hcovered := (CaseRun.covers_iff.mp hcovers).1
            omega
  · next hascii =>
      split at h
      · simp only [List.mem_cons, List.not_mem_nil, or_false] at h
        rcases h with rfl | rfl
        · decide +kernel
        · decide +kernel
      · next hdotted =>
          split at h
          · next r hr =>
              have hcovers : r.covers c.toNat = true := by simpa using List.find?_some hr
              rw [List.mem_singleton.mp h]
              exact not_isCapital_shifted
                (List.mem_cons_of_mem _ (List.mem_cons_of_mem _ (List.mem_of_find?_eq_some hr)))
                hcovers
          · next hnone =>
              rw [List.mem_singleton.mp h, isCapital_eq_false_iff_of]
              refine ⟨?_, by simpa using hdotted, hnone⟩
              rw [← Bool.not_eq_true, isAsciiUpper_iff]
              omega

theorem lowerAfter_of_no_capital {before cs : List Char} (h : ∀ c ∈ cs, isCapital c = false) :
    lowerAfter before cs = cs := by
  induction cs generalizing before with
  | nil => rfl
  | cons c cs ih =>
      obtain ⟨hc, hcs⟩ := List.forall_mem_cons.mp h
      have hsigma : (c == 'Σ') = false := by
        rw [beq_eq_false_iff_ne]
        rintro rfl
        cases sigma_isCapital.symm.trans hc
      rw [lowerAfter, hsigma, smallLetters_of_not_isCapital hc, ih hcs]
      rfl

theorem no_capital_in_lowerAfter {before cs : List Char} {d : Char}
    (h : d ∈ lowerAfter before cs) : isCapital d = false := by
  induction cs generalizing before with
  | nil => cases h
  | cons c cs ih =>
      rw [lowerAfter] at h
      rcases List.mem_append.mp h with hd | hd
      · split at hd
        · rw [List.mem_singleton.mp hd]
          split
          · decide +kernel
          · decide +kernel
        · exact not_isCapital_of_mem_smallLetters hd
      · exact ih hd

theorem lower_of_no_capital {cs : List Char} (h : ∀ c ∈ cs, isCapital c = false) :
    lower cs = cs := lowerAfter_of_no_capital h

theorem no_capital_in_lower {cs : List Char} {d : Char} (h : d ∈ lower cs) :
    isCapital d = false := no_capital_in_lowerAfter h

/-! ## Blanks -/

theorem trim_of_no_blank {cs : List Char} (h : ∀ c ∈ cs, isBlank c = false) : trim cs = cs := by
  have hleft : trimLeft cs = cs := trimLeft_eq_self fun c hc => h c (List.mem_of_mem_head? hc)
  have hright : cs.reverse.dropWhile isBlank = cs.reverse := by
    refine trimLeft_eq_self fun c hc => h c ?_
    exact List.mem_reverse.mp (List.mem_of_mem_head? hc)
  rw [trim, hleft, dropEndWhile, hright, List.reverse_reverse]

end Text

namespace Color

/-- A text in normal form: no blanks and no capitals. -/
def IsNormal (value : List Char) : Prop :=
  ∀ c ∈ value, isBlank c = false ∧ isCapital c = false

theorem isNormal_normalForm (value : List Char) : IsNormal (normalForm value) := by
  intro c hc
  refine ⟨not_isBlank_of_mem_normalForm hc, ?_⟩
  exact no_capital_in_lower (List.mem_filter.mp hc).1

theorem IsNormal.normalForm_eq {value : List Char} (h : IsNormal value) :
    normalForm value = value := by
  have hfilter : value.filter (!isBlank ·) = value :=
    List.filter_eq_self.mpr fun c hc => by rw [(h c hc).1]; rfl
  rw [normalForm, trim_of_no_blank fun c hc => (h c hc).1,
    lower_of_no_capital fun c hc => (h c hc).2, hfilter]

/-- Taken again, the normal form is the same, and it has no blank. Two values are compared by their
normal forms, so this is what makes it no matter whether a value that is compared was one before. -/
theorem normalForm_normalForm (value : List Char) :
    normalForm (normalForm value) = normalForm value ∧
      ∀ c ∈ normalForm value, isBlank c = false :=
  ⟨(isNormal_normalForm value).normalForm_eq, fun c hc => (isNormal_normalForm value c hc).1⟩

/-- The capital I with dot becomes two characters, and a capital sigma a final one where its word
ends, even if the normal form goes on behind it. -/
example : normalForm "İ".toList = ['i', '\u0307'] ∧ normalForm "ΑΣ Σ".toList = "αςσ".toList := by
  constructor
  · decide +kernel
  · decide +kernel

end Color

end ColorCensus
