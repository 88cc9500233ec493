import ColorCensus.Import.Resolve
import Mathlib.Data.List.MinMax
import Mathlib.Data.List.Nodup

/-!
# The longest alias is the only one

Two names that a specifier starts with are prefixes of one text, so if they are
of one length they are the same. Hence no two aliases ever compete for a
specifier: the longest that fits stands alone (`IsLongest.unique`), and the
order in which the aliases were written down has no say in what is followed and
where it leads. All that is asked of the aliases is that no name has two
targets.
-/

namespace ColorCensus.Import

open Text

/-- No name stands for two directories. -/
def IsMapping (aliases : List (String × String)) : Prop := (aliases.map (·.1)).Nodup

/-- An alias that a specifier starts with, with none longer beside it. -/
structure IsLongest (aliases : List (String × String)) (specifier : List Char)
    (a : String × String) : Prop where
  mem : a ∈ aliases
  fits : a.1.toList <+: specifier
  longest : ∀ b ∈ aliases, b.1.toList <+: specifier → b.1.length ≤ a.1.length

variable {aliases aliases' : List (String × String)} {specifier : List Char}
  {a b : String × String}

theorem IsMapping.eq_of_name_eq (h : IsMapping aliases) (ha : a ∈ aliases) (hb : b ∈ aliases)
    (hname : a.1 = b.1) : a = b :=
  List.inj_on_of_nodup_map h ha hb hname

theorem IsMapping.perm (h : IsMapping aliases) (hperm : aliases.Perm aliases') :
    IsMapping aliases' :=
  (hperm.map _).nodup_iff.mp h

/-- Names of one length that one specifier starts with are the same name. -/
theorem name_eq_of_isPrefix (ha : a.1.toList <+: specifier) (hb : b.1.toList <+: specifier)
    (hlength : a.1.length = b.1.length) : a.1 = b.1 := by
  refine String.toList_injective ?_
  have hle : a.1.toList.length ≤ b.1.toList.length := by
    rw [String.length_toList, String.length_toList, hlength]
  have hprefix : a.1.toList <+: b.1.toList := List.prefix_of_prefix_length_le ha hb hle
  exact hprefix.eq_of_length (by rw [String.length_toList, String.length_toList, hlength])

theorem IsLongest.unique (hmapping : IsMapping aliases) (ha : IsLongest aliases specifier a)
    (hb : IsLongest aliases specifier b) : a = b := by
  have hlength : a.1.length = b.1.length :=
    Nat.le_antisymm (hb.longest a ha.mem ha.fits) (ha.longest b hb.mem hb.fits)
  exact hmapping.eq_of_name_eq ha.mem hb.mem (name_eq_of_isPrefix ha.fits hb.fits hlength)

theorem IsLongest.perm (h : IsLongest aliases specifier a) (hperm : aliases.Perm aliases') :
    IsLongest aliases' specifier a where
  mem := hperm.mem_iff.mp h.mem
  fits := h.fits
  longest := fun b hb => h.longest b (hperm.mem_iff.mpr hb)

/-! ## What the search for an alias answers -/

theorem longestAlias?_eq_argmax (aliases : List (String × String)) (specifier : List Char) :
    longestAlias? aliases specifier =
      (aliases.filter fun a => a.1.toList.isPrefixOf specifier).argmax fun a => a.1.length := by
  rw [longestAlias?, List.argmax]
  congr 1
  funext best a
  cases best with
  | none => rfl
  | some b => rfl

theorem mem_fitting : a ∈ (aliases.filter fun a => a.1.toList.isPrefixOf specifier) ↔
    a ∈ aliases ∧ a.1.toList <+: specifier := by
  rw [List.mem_filter, List.isPrefixOf_iff_prefix]

theorem longestAlias?_eq_none_iff :
    longestAlias? aliases specifier = none ↔ ∀ a ∈ aliases, ¬a.1.toList <+: specifier := by
  rw [longestAlias?_eq_argmax, List.argmax_eq_none, List.eq_nil_iff_forall_not_mem]
  simp only [mem_fitting, not_and]

theorem isLongest_of_longestAlias? (h : longestAlias? aliases specifier = some a) :
    IsLongest aliases specifier a := by
  rw [longestAlias?_eq_argmax] at h
  obtain ⟨hmem, hfits⟩ := mem_fitting.mp (List.argmax_mem h)
  refine ⟨hmem, hfits, fun b hb hfits' => ?_⟩
  have hb' := mem_fitting.mpr ⟨hb, hfits'⟩
  exact List.le_of_mem_argmax (f := fun a : String × String => a.1.length) hb' h

theorem longestAlias?_eq_some_iff (hmapping : IsMapping aliases) :
    longestAlias? aliases specifier = some a ↔ IsLongest aliases specifier a := by
  refine ⟨isLongest_of_longestAlias?, fun h => ?_⟩
  cases hb : longestAlias? aliases specifier with
  | none => exact absurd h.fits (longestAlias?_eq_none_iff.mp hb a h.mem)
  | some b => rw [(isLongest_of_longestAlias? hb).unique hmapping h]

/-- The search is the one that puts the longest names first, without changing the order of names
of one length, and takes the first that fits. -/
theorem longestAlias?_eq_find?_sorted (hmapping : IsMapping aliases) (specifier : List Char) :
    longestAlias? aliases specifier =
      (aliases.mergeSort fun a b => decide (b.1.length ≤ a.1.length)).find? fun a =>
        a.1.toList.isPrefixOf specifier := by
  have hsorted : (aliases.mergeSort fun a b => decide (b.1.length ≤ a.1.length)).Pairwise
      fun a b => decide (b.1.length ≤ a.1.length) :=
    List.pairwise_mergeSort
      (fun a b c => by simp only [decide_eq_true_eq]; omega)
      (fun a b => by simp only [Bool.or_eq_true, decide_eq_true_eq]; omega) aliases
  cases hfound : (aliases.mergeSort fun a b => decide (b.1.length ≤ a.1.length)).find?
      fun a => a.1.toList.isPrefixOf specifier with
  | none =>
      refine longestAlias?_eq_none_iff.mpr fun a ha hfits => ?_
      have hnot := List.find?_eq_none.mp hfound a (List.mem_mergeSort.mpr ha)
      exact hnot (List.isPrefixOf_iff_prefix.mpr hfits)
  | some a =>
      obtain ⟨hfits, front, rest, hsplit, hfront⟩ := List.find?_eq_some_iff_append.mp hfound
      rw [hsplit, List.pairwise_append] at hsorted
      have hmem : ∀ b, b ∈ aliases ↔ b ∈ front ++ a :: rest := by
        intro b
        rw [← hsplit, List.mem_mergeSort]
      refine (longestAlias?_eq_some_iff hmapping).mpr
        ⟨(hmem a).mpr List.mem_append_cons_self, List.isPrefixOf_iff_prefix.mp hfits, ?_⟩
      intro b hb hfits'
      rcases List.mem_append.mp ((hmem b).mp hb) with hb | hb
      · have hnot := hfront b hb
        rw [List.isPrefixOf_iff_prefix.mpr hfits'] at hnot
        cases hnot
      · rcases List.mem_cons.mp hb with rfl | hb
        · exact Nat.le_refl _
        · exact of_decide_eq_true (List.rel_of_pairwise_cons hsorted.2.1 hb)

theorem longestAlias?_perm (hmapping : IsMapping aliases) (hperm : aliases.Perm aliases')
    (specifier : List Char) :
    longestAlias? aliases specifier = longestAlias? aliases' specifier := by
  refine Option.ext fun a => ?_
  rw [longestAlias?_eq_some_iff hmapping, longestAlias?_eq_some_iff (hmapping.perm hperm)]
  exact ⟨fun h => h.perm hperm, fun h => h.perm hperm.symm⟩

/-! ## What is followed, and where it leads -/

theorem isFollowable_perm (hperm : aliases.Perm aliases') (kind : Kind) (specifier : List Char) :
    isFollowable aliases kind specifier = isFollowable aliases' kind specifier := by
  have hnames : startsWithAny (aliases.map (·.1)) specifier =
      startsWithAny (aliases'.map (·.1)) specifier := (hperm.map _).any_eq
  rw [isFollowable, isFollowable, hnames]

theorem candidates_of_isLongest (hmapping : IsMapping aliases)
    (hslash : startsWithAny ["/"] (trim specifier) = false)
    (ha : IsLongest aliases (trim specifier) a) (extensions : List String)
    (workspace importer : Path) (kind : Kind) :
    candidates aliases extensions workspace importer kind specifier =
      candidatePaths extensions (trim specifier)
        ((workspace.join (.ofString a.2)).join
          (.ofText ((trim specifier).drop a.1.length))) := by
  rw [candidates, hslash, (longestAlias?_eq_some_iff hmapping).mpr ha]
  rfl

/-- The order of the aliases makes no difference to what is followed nor to where it leads. A
specifier that does not start at the root and that some alias fits leads where the longest of
them says, which is one alias and no more. -/
theorem candidates_perm (hmapping : IsMapping aliases) (hperm : aliases.Perm aliases')
    (extensions : List String) (workspace importer : Path) (kind : Kind) (specifier : List Char) :
    isFollowable aliases kind specifier = isFollowable aliases' kind specifier ∧
      candidates aliases extensions workspace importer kind specifier =
        candidates aliases' extensions workspace importer kind specifier ∧
      (startsWithAny ["/"] (trim specifier) = false →
        (∃ a ∈ aliases, a.1.toList <+: trim specifier) →
          ∃ a, (∀ b, IsLongest aliases (trim specifier) b ↔ b = a) ∧
            candidates aliases extensions workspace importer kind specifier =
              candidatePaths extensions (trim specifier)
                ((workspace.join (.ofString a.2)).join
                  (.ofText ((trim specifier).drop a.1.length)))) := by
  refine ⟨isFollowable_perm hperm kind specifier, ?_, fun hslash hfits => ?_⟩
  · rw [candidates, candidates, longestAlias?_perm hmapping hperm]
  · have hsome : longestAlias? aliases (trim specifier) ≠ none := by
      intro hnone
      obtain ⟨a, ha, hprefix⟩ := hfits
      exact longestAlias?_eq_none_iff.mp hnone a ha hprefix
    obtain ⟨a, ha⟩ := Option.ne_none_iff_exists'.mp hsome
    have hlongest := isLongest_of_longestAlias? ha
    refine ⟨a, fun b => ⟨fun hb => hb.unique hmapping hlongest, fun hb => hb ▸ hlongest⟩, ?_⟩
    exact candidates_of_isLongest hmapping hslash hlongest extensions workspace importer kind

def nestedAliases : List (String × String) := [("@", "src"), ("", "lib"), ("@ui/", "packages/ui")]

/-- Of three names that fit, the longest leads on, and so it does when they are turned around. -/
theorem candidates_perm_nested :
    let found (aliases : List (String × String)) :=
      candidates aliases [".css"] (.ofString "/w") (.ofString "/w/b.css") .code "@ui/a.css".toList
    IsMapping nestedAliases ∧
      (∀ b, IsLongest nestedAliases "@ui/a.css".toList b ↔ b = ("@ui/", "packages/ui")) ∧
      found nestedAliases = [.ofString "/w/packages/ui/a.css"] ∧
      found nestedAliases.reverse = [.ofString "/w/packages/ui/a.css"] := by
  intro found
  have hmapping : IsMapping nestedAliases := by
    rw [IsMapping]
    decide
  obtain ⟨-, hsame, hlongest⟩ := candidates_perm hmapping (List.reverse_perm nestedAliases).symm
    [".css"] (.ofString "/w") (.ofString "/w/b.css") .code "@ui/a.css".toList
  obtain ⟨a, ha, hfound⟩ := hlongest (by decide) ⟨("", "lib"), by decide, by decide⟩
  have hname : IsLongest nestedAliases "@ui/a.css".toList ("@ui/", "packages/ui") :=
    isLongest_of_longestAlias? (by decide)
  obtain rfl : ("@ui/", "packages/ui") = a := (ha _).mp hname
  have hfirst : found nestedAliases = [.ofString "/w/packages/ui/a.css"] :=
    hfound.trans (by decide +kernel)
  exact ⟨hmapping, ha, hfirst, hsame.symm.trans hfirst⟩

end ColorCensus.Import
