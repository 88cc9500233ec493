import ColorCensus.Import.Closure
import ColorCensus.Proofs.Aliases

/-!
# What is followed and what has candidates

A specifier is read twice before the host is asked about any file: once to see
whether it is followed at all, and once for the paths that it may mean. Both
readings go by how the specifier begins, and they try the beginnings in
different orders, while an alias may be spelled like any other beginning. The
order makes no difference to what is asked here. Whichever rule comes first, a
specifier with one of the beginnings is taken from somewhere, and that is what
each of the readings comes down to (`isFollowable_iff`, `candidates_ne_nil_iff`).

They differ in what they leave out. Only the first one refuses two slashes at
the start, and an address in a style sheet that no other rule places. So all
that is followed has candidates, and of code imports nothing that has some is
refused, but for the two slashes. For the other code imports the search alone
decides (`target?_of_code`).
-/

namespace ColorCensus.Import

open Text

/-- The beginnings that say where a specifier is taken from: the importing file, the root, or where
an alias points. -/
def beginnings (aliases : List (String × String)) : List String :=
  ["./", "../", "/"] ++ aliases.map (·.1)

def IsPlaced (aliases : List (String × String)) (specifier : List Char) : Prop :=
  ∃ b ∈ beginnings aliases, b.toList <+: specifier

/-- A specifier names a resource by its address, or spells it out. -/
def IsAddress (specifier : List Char) : Prop :=
  ∃ scheme ∈ ["http:", "https:", "data:"], scheme.toList <+: lower specifier

variable {aliases : List (String × String)} {extensions : List String} {workspace importer : Path}
  {kind : Kind} {specifier : List Char}

theorem startsWithAny_iff {texts : List String} {cs : List Char} :
    startsWithAny texts cs = true ↔ ∃ b ∈ texts, b.toList <+: cs := by
  rw [startsWithAny, List.any_eq_true]
  simp only [List.isPrefixOf_iff_prefix]

theorem startsWithAny_append (texts more : List String) (cs : List Char) :
    startsWithAny (texts ++ more) cs = (startsWithAny texts cs || startsWithAny more cs) :=
  List.any_append

/-- The beginnings, by the rules of the search in the order in which it tries them. -/
theorem isPlaced_iff : IsPlaced aliases specifier ↔
    startsWithAny ["/"] specifier = true ∨ longestAlias? aliases specifier ≠ none ∨
      startsWithAny ["./", "../"] specifier = true := by
  have hnames : startsWithAny (aliases.map (·.1)) specifier = true ↔
      longestAlias? aliases specifier ≠ none := by
    rw [startsWithAny_iff, ne_eq, longestAlias?_eq_none_iff]
    simp only [List.mem_map, exists_exists_and_eq_and, not_forall, not_not, exists_prop]
  have hplaced : IsPlaced aliases specifier ↔
      startsWithAny (["./", "../"] ++ ["/"] ++ aliases.map (·.1)) specifier = true :=
    startsWithAny_iff.symm
  rw [hplaced, startsWithAny_append, startsWithAny_append, Bool.or_eq_true, Bool.or_eq_true, hnames,
    or_assoc, or_comm, or_assoc]

/-! ## The two readings -/

theorem isFollowable_iff : isFollowable aliases kind specifier = true ↔
    ¬['/', '/'] <+: specifier ∧
      (IsPlaced aliases specifier ∨ kind = .stylesheet ∧ ¬IsAddress specifier) := by
  have hslashes : startsWithAny ["//"] specifier = true ↔ ['/', '/'] <+: specifier := by
    simp only [startsWithAny_iff, List.mem_singleton, exists_eq_left]
    rfl
  have hplaced : startsWithAny (beginnings aliases) specifier = true ↔
      IsPlaced aliases specifier := startsWithAny_iff
  have haddress : startsWithAny ["http:", "https:", "data:"] (lower specifier) = true ↔
      IsAddress specifier := startsWithAny_iff
  rw [isFollowable]
  split
  · next h => exact iff_of_false Bool.false_ne_true fun hfollowed => hfollowed.1 (hslashes.mp h)
  · next h =>
      rw [and_iff_right (hslashes.not.mp h), ← startsWithAny_append, Bool.or_eq_true,
        Bool.and_eq_true, beq_iff_eq, Bool.not_eq_true', ← Bool.not_eq_true, haddress]
      exact or_congr_left hplaced

theorem candidatePaths_ne_nil_iff {base : Path} : candidatePaths extensions specifier base ≠ [] ↔
    hasExtension specifier = true ∨ extensions ≠ [] := by
  rw [candidatePaths]
  split
  · next h => exact iff_of_true (List.cons_ne_nil _ _) (.inl h)
  · next h =>
      rw [or_iff_right h, ne_eq, List.append_eq_nil_iff, List.map_eq_nil_iff, List.map_eq_nil_iff,
        and_self]

/-- A specifier has candidates if it is placed, and always in a style sheet, unless there is nothing
to be tried behind it. -/
theorem candidates_ne_nil_iff :
    candidates aliases extensions workspace importer kind specifier ≠ [] ↔
      (IsPlaced aliases (trim specifier) ∨ kind = .stylesheet) ∧
        (hasExtension (trim specifier) = true ∨ extensions ≠ []) := by
  rw [isPlaced_iff]
  unfold candidates
  dsimp only
  split
  · next hroot => rw [candidatePaths_ne_nil_iff, and_iff_right (.inl (.inl hroot))]
  · next hroot =>
      split
      · next a halias =>
          have hname : longestAlias? aliases (trim specifier) ≠ none := by simp [halias]
          rw [candidatePaths_ne_nil_iff, and_iff_right (.inl (.inr (.inl hname)))]
      · next halias =>
          split
          · next h =>
              rw [Bool.or_eq_true, beq_iff_eq] at h
              rw [candidatePaths_ne_nil_iff, and_iff_right]
              exact h.imp_left fun hstep => .inr (.inr hstep)
          · next h =>
              rw [Bool.or_eq_true, beq_iff_eq] at h
              refine iff_of_false (fun hsome => hsome rfl) fun hplaced => h (hplaced.1.imp_left ?_)
              -- No rule applied, and for each of the beginnings there is one that looks for it.
              rintro (hslash | hname | hstep)
              · exact absurd hslash hroot
              · exact absurd halias hname
              · exact hstep

theorem isPlaced_of_code (hcode : kind = .code)
    (h : candidates aliases extensions workspace importer kind specifier ≠ []) :
    IsPlaced aliases (trim specifier) := by
  obtain ⟨hplaced, -⟩ := candidates_ne_nil_iff.mp h
  rw [hcode] at hplaced
  exact hplaced.resolve_right (by decide)

/-! ## Where they agree -/

/-- What is followed is what has candidates, but for what starts with two slashes and, in a style
sheet, an address that nothing places. -/
theorem isFollowable_iff_candidates (htrim : trim specifier = specifier) (hne : extensions ≠ []) :
    isFollowable aliases kind specifier = true ↔
      candidates aliases extensions workspace importer kind specifier ≠ [] ∧
        ¬['/', '/'] <+: specifier ∧ (IsPlaced aliases specifier ∨ ¬IsAddress specifier) := by
  have hsome : hasExtension specifier = true ∨ extensions ≠ [] := .inr hne
  rw [isFollowable_iff, candidates_ne_nil_iff, htrim, and_iff_left hsome, or_and_left,
    and_left_comm]

/-- Every followed specifier has a candidate, and a code import that has one is followed, unless it
starts with two slashes. In which order the two try the beginnings of a specifier is all the same,
for each of them comes down to whether there is one. -/
theorem isFollowable_agrees (htrim : trim specifier = specifier) (hne : extensions ≠ [])
    (aliases : List (String × String)) (workspace importer : Path) (kind : Kind) :
    (isFollowable aliases kind specifier = true →
        candidates aliases extensions workspace importer kind specifier ≠ []) ∧
      (kind = .code → ¬['/', '/'] <+: specifier →
        candidates aliases extensions workspace importer kind specifier ≠ [] →
          isFollowable aliases kind specifier = true) := by
  have hagree : isFollowable aliases kind specifier = true ↔
      candidates aliases extensions workspace importer kind specifier ≠ [] ∧
        ¬['/', '/'] <+: specifier ∧ (IsPlaced aliases specifier ∨ ¬IsAddress specifier) :=
    isFollowable_iff_candidates htrim hne
  refine ⟨fun h => (hagree.mp h).1, fun hcode hslashes hcandidates => ?_⟩
  have hplaced := isPlaced_of_code hcode hcandidates
  rw [htrim] at hplaced
  exact hagree.mpr ⟨hcandidates, hslashes, .inl hplaced⟩

/-- An alias that is spelled like a step up is the step for one reading and the alias for the
other. -/
theorem isFollowable_agrees_stepAlias :
    let found := candidates [("../", "src")] [".ts"] (.ofString "/w") (.ofString "/w/lib/b.ts")
      .code "../a".toList
    trim "../a".toList = "../a".toList ∧ ¬['/', '/'] <+: "../a".toList ∧
      found = [.ofString "/w/src/a.ts", .ofString "/w/src/a/index.ts"] ∧ found ≠ [] ∧
      isFollowable [("../", "src")] .code "../a".toList = true := by
  intro found
  have htrim : trim "../a".toList = "../a".toList := by decide
  have hslashes : ¬['/', '/'] <+: "../a".toList := by decide
  have hfound : found = [.ofString "/w/src/a.ts", .ofString "/w/src/a/index.ts"] := by
    decide +kernel
  obtain ⟨hsome, hfollowed⟩ := isFollowable_agrees htrim (List.cons_ne_nil ".ts" [])
    [("../", "src")] (.ofString "/w") (.ofString "/w/lib/b.ts") .code
  have hcandidates : found ≠ [] := by
    rw [hfound]
    exact List.cons_ne_nil _ _
  have hfollowable := hfollowed rfl hslashes hcandidates
  exact ⟨htrim, hslashes, hfound, hsome hfollowable, hfollowable⟩

/-- For code imports the search alone decides: what is not followed has nothing to search, unless it
starts with two slashes. -/
theorem target?_of_code {m : Type → Type} [Monad m] [LawfulMonad m] (host : Host m)
    (settings : Settings) (workspace importer : Path) {edge : Edge}
    (htrim : trim edge.specifier = edge.specifier) (hcode : edge.kind = .code)
    (hslashes : ¬['/', '/'] <+: edge.specifier) :
    Prod.fst <$> target? host settings workspace importer edge =
      firstFile? host settings workspace
        (candidates settings.aliases settings.extensions workspace importer edge.kind
          edge.specifier) := by
  rw [target?]
  split
  · rw [map_bind]
    refine (bind_congr fun found => ?_).trans (bind_pure _)
    cases found with
    | none => exact map_pure _ _
    | some p => exact map_pure _ _
  · next hrefused =>
      have hnil : candidates settings.aliases settings.extensions workspace importer edge.kind
          edge.specifier = [] := by
        by_contra hsome
        have hplaced := isPlaced_of_code hcode hsome
        rw [htrim] at hplaced
        exact hrefused (isFollowable_iff.mpr ⟨hslashes, .inl hplaced⟩)
      rw [hnil, firstFile?, map_pure]

end ColorCensus.Import
