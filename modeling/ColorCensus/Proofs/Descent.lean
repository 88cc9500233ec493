import ColorCensus.Proofs.Aliases
import ColorCensus.Proofs.Canonical
import ColorCensus.Proofs.Labels

/-!
# Specifiers that lead down

A specifier from the root or under an alias is taken from a directory, and what
comes behind the root or the alias should lead down from there. It does if it
has no step up: steps that lead down survive when a path is made canonical
(`Descends.isBelow`), so whatever the directory is spelled like, its canonical
form is what the result starts with.

Two more things have to be seen to. An extension is written behind the last
step, or behind `index`, and changes that one step only, as long as it brings
no steps up with it (`Descends.of_stem`). And what comes behind an alias must
not start with a slash: it would be an absolute path then, which stays what it
is from any directory. Behind the root all slashes are dropped, and behind an
alias they are not, so an alias without a slash at its end is left there
(`candidates_elsewhere`).
-/

namespace ColorCensus

open Text

namespace Path

/-- Some steps, and none of them a step up. -/
structure Descends (names : List Name) : Prop where
  ne_nil : names ≠ []
  down : ∀ n ∈ names, n.isParent = false

theorem settle_append {names below : List Name} (h : ∀ n ∈ below, n.isParent = false)
    (done : List Name) : settle done (names ++ below) = settle done names ++ below := by
  induction names generalizing done with
  | nil => rw [List.nil_append, settle_eq_append h, settle]
  | cons n names ih =>
      rw [List.cons_append, settle, settle, ih, ih]
      split
      · rfl
      · rfl

theorem Descends.append {front names : List Name} (h : Descends names)
    (hfront : ∀ n ∈ front, n.isParent = false) : Descends (front ++ names) where
  ne_nil := List.append_ne_nil_of_right_ne_nil front h.ne_nil
  down := fun n hn => (List.mem_append.mp hn).elim (hfront n) (h.down n)

/-- Steps that lead down from a directory lead down from its canonical form. -/
theorem Descends.isBelow {names : List Name} (h : Descends names) (directory : Path) :
    (Path.canonical ⟨directory.root, directory.names ++ names⟩).IsBelow directory.canonical :=
  ⟨rfl, names, h.ne_nil, settle_append h.down []⟩

/-! ## Steps that are spelled -/

theorem Name.text_of_ofPiece? {piece : List Char} {n : Name} (h : ofPiece? piece = some n) :
    n.text = piece := by
  rw [ofPiece?, Option.dite_none_right_eq_some] at h
  obtain ⟨_, h⟩ := h
  cases h
  rfl

theorem Name.ofPiece?_isSome {piece : List Char} (hne : piece ≠ []) (hdot : piece ≠ ['.'])
    (hslash : '/' ∉ piece) : ∃ n, ofPiece? piece = some n :=
  ⟨_, dif_pos ⟨hne, hdot, hslash⟩⟩

theorem isParent_of_mem_filterMap {pieces : List (List Char)} (h : ['.', '.'] ∉ pieces) :
    ∀ n ∈ pieces.filterMap Name.ofPiece?, n.isParent = false := by
  intro n hn
  obtain ⟨piece, hpiece, hname⟩ := List.mem_filterMap.mp hn
  refine Bool.eq_false_iff.mpr fun hparent => h ?_
  rw [← eq_of_beq hparent, Name.text_of_ofPiece? hname]
  exact hpiece

theorem descends_ofText {cs : List Char} (hup : ['.', '.'] ∉ splitOn '/' cs)
    (hstep : ∃ piece ∈ splitOn '/' cs, piece ≠ [] ∧ piece ≠ ['.']) :
    Descends (ofText cs).names where
  ne_nil := by
    obtain ⟨piece, hpiece, hne, hdot⟩ := hstep
    obtain ⟨n, hn⟩ := Name.ofPiece?_isSome hne hdot (not_mem_of_mem_splitOn hpiece)
    exact List.ne_nil_of_mem (List.mem_filterMap.mpr ⟨piece, hpiece, hn⟩)
  down := isParent_of_mem_filterMap hup

theorem names_ofText_dropWhile (cs : List Char) :
    (ofText (cs.dropWhile (· == '/'))).names = (ofText cs).names := by
  induction cs with
  | nil => rfl
  | cons c cs ih =>
      rw [List.dropWhile_cons]
      split
      · next hc =>
          rw [ih, ofText, ofText, splitOn, if_pos hc, List.filterMap_cons]
          rfl
      · rfl

theorem isAbsolute_ofText_eq_false {cs : List Char} (h : cs.head? ≠ some '/') :
    (ofText cs).isAbsolute = false := by
  have hspelled := ofText_spelled .relative h
  rw [Root.text, List.nil_append] at hspelled
  rw [hspelled]
  rfl

/-! ## Steps that a text is written behind -/

/-- Written behind a step, a text goes up again: a step up stands behind a slash of it. -/
def LeadsUp (text : List Char) : Prop := ['.', '.'] ∈ (splitOn '/' text).tail

theorem Name.append_ne_dots {n : Name} (h : n.isParent = false) (text : List Char) :
    n.text ++ text ≠ ['.'] ∧ n.text ++ text ≠ ['.', '.'] := by
  constructor
  · intro heq
    rcases List.append_eq_singleton_iff.mp heq with ⟨hnil, -⟩ | ⟨hdot, -⟩
    · exact n.ne_nil hnil
    · exact n.ne_dot hdot
  · intro heq
    rcases List.append_eq_cons_iff.mp heq with ⟨hnil, -⟩ | ⟨rest, hname, hrest⟩
    · exact n.ne_nil hnil
    · rcases List.append_eq_singleton_iff.mp hrest.symm with ⟨rfl, -⟩ | ⟨rfl, -⟩
      · exact n.ne_dot hname
      · rw [isParent, hname] at h
        cases h

theorem Descends.of_stem {stem : Name} {text : List Char} (hstem : stem.isParent = false)
    (htext : ¬LeadsUp text) :
    Descends ((splitOn '/' (stem.text ++ text)).filterMap Name.ofPiece?) := by
  obtain ⟨piece, pieces, hsplit⟩ := List.exists_cons_of_ne_nil (splitOn_ne_nil '/' text)
  have hmem : piece ∈ splitOn '/' text := by
    rw [hsplit]
    exact List.mem_cons_self
  have hpiece : '/' ∉ piece := not_mem_of_mem_splitOn hmem
  obtain ⟨hdot, hup⟩ := Name.append_ne_dots hstem piece
  obtain ⟨n, hn⟩ : ∃ n, Name.ofPiece? (stem.text ++ piece) = some n := by
    refine Name.ofPiece?_isSome (List.append_ne_nil_of_left_ne_nil stem.ne_nil piece) hdot ?_
    exact fun h => (List.mem_append.mp h).elim stem.no_slash hpiece
  rw [splitOn_append stem.no_slash hsplit, List.filterMap_cons, hn]
  constructor
  case ne_nil => exact List.cons_ne_nil _ _
  case down =>
    intro m hm
    rcases List.mem_cons.mp hm with rfl | hm
    · rw [Name.isParent, Name.text_of_ofPiece? hn]
      exact beq_eq_false_iff_ne.mpr hup
    · refine isParent_of_mem_filterMap ?_ m hm
      rw [LeadsUp, hsplit, List.tail_cons] at htext
      exact htext

theorem continued_eq {p : Path} {front : List Name} {last : Name}
    (h : p.names = front ++ [last]) (tail : String) :
    p.continued tail =
      ⟨p.root, front ++ (splitOn '/' (last.text ++ tail.toList)).filterMap Name.ofPiece?⟩ := by
  obtain ⟨root, names⟩ := p
  dsimp only at h ⊢
  subst h
  have hne : front ++ [last] ≠ [] := List.concat_ne_nil last front
  obtain ⟨-, c, rest, hjoin, hc⟩ := spelled_names hne
  have hhead : (joinWith '/' ((front ++ [last]).map Name.text) ++ tail.toList).head? ≠
      some '/' := by
    rw [hjoin]
    exact fun h => hc (Option.some.inj h)
  have hslash : ∀ piece ∈ front.map Name.text, '/' ∉ piece := by
    intro piece hpiece
    obtain ⟨n, -, rfl⟩ := List.mem_map.mp hpiece
    exact n.no_slash
  rw [continued, text_eq hne, List.append_assoc, ofText_spelled root hhead, List.map_append,
    List.map_singleton, splitOn_joinWith_append hslash, List.filterMap_append,
    filterMap_ofPiece?]

end Path

namespace Import

open ColorCensus.Path

/-! ## The candidates below a directory -/

section

variable {base steps : Path} (hrelative : steps.isAbsolute = false)
  (hsteps : Descends steps.names)

include hrelative hsteps

theorem isBelow_continued {extension : String} (hextension : ¬LeadsUp extension.toList) :
    ((base.join steps).continued extension).canonical.IsBelow base.canonical := by
  obtain ⟨front, last, hlast⟩ : ∃ front last, steps.names = front ++ [last] :=
    ⟨_, _, (List.dropLast_concat_getLast hsteps.ne_nil).symm⟩
  have hdown : ∀ n ∈ front ++ [last], n.isParent = false := hlast ▸ hsteps.down
  have hnames : (base.join steps).names = (base.names ++ front) ++ [last] := by
    rw [join_eq_append hrelative, List.append_assoc, ← hlast]
  have hstem := Descends.of_stem (hdown last List.mem_concat_self) hextension
  have hfront := hstem.append fun n hn => hdown n (List.mem_append_left _ hn)
  have hbelow := hfront.isBelow base
  rw [continued_eq hnames, List.append_assoc, join_eq_append hrelative]
  exact hbelow

theorem isBelow_index {extension : String} (hextension : ¬LeadsUp extension.toList) :
    ((base.join steps).join (.ofString ("index" ++ extension))).canonical.IsBelow
      base.canonical := by
  have hhead : ("index" ++ extension).toList.head? ≠ some '/' := by
    rw [String.toList_append]
    exact nofun
  let index : Name := ⟨"index".toList, by decide, by decide, by decide⟩
  have hindex : index.isParent = false := by decide
  have hstem : Descends (ofString ("index" ++ extension)).names := by
    rw [ofString, String.toList_append]
    exact Descends.of_stem hindex hextension
  have hrelative' : (ofString ("index" ++ extension)).isAbsolute = false :=
    isAbsolute_ofText_eq_false hhead
  have hbelow := (hstem.append hsteps.down).isBelow base
  rw [join_eq_append hrelative', join_eq_append hrelative, List.append_assoc]
  exact hbelow

/-- From steps that lead down from a directory, all candidates are below it, but for those of an
extension that goes up. -/
theorem isBelow_of_mem_candidatePaths {extensions : List String} {specifier : List Char}
    {p : Path} (hp : p ∈ candidatePaths extensions specifier (base.join steps)) :
    p.IsBelow base.canonical ∨
      ∃ e ∈ extensions, LeadsUp e.toList ∧
        p ∈ candidatePaths [e] specifier (base.join steps) := by
  rw [candidatePaths] at hp
  by_cases hextension : hasExtension specifier = true
  · rw [if_pos hextension, List.mem_singleton, join_eq_append hrelative] at hp
    rw [hp]
    exact .inl (hsteps.isBelow base)
  · rw [if_neg hextension] at hp
    obtain ⟨e, he, hmem, hbelow⟩ : ∃ e ∈ extensions,
        p ∈ candidatePaths [e] specifier (base.join steps) ∧
          (¬LeadsUp e.toList → p.IsBelow base.canonical) := by
      simp only [candidatePaths, if_neg hextension]
      rcases List.mem_append.mp hp with hp | hp
      · obtain ⟨e, he, rfl⟩ := List.mem_map.mp hp
        exact ⟨e, he, List.mem_cons_self, isBelow_continued hrelative hsteps⟩
      · obtain ⟨e, he, rfl⟩ := List.mem_map.mp hp
        exact ⟨e, he, List.mem_cons_of_mem _ List.mem_cons_self, isBelow_index hrelative hsteps⟩
    by_cases hup : LeadsUp e.toList
    · exact .inr ⟨e, he, hup, hmem⟩
    · exact .inl (hbelow hup)

end

/-! ## Specifiers from the root and under an alias -/

/-- A specifier is taken from a directory: one that starts with a slash from the workspace, and
any other from where the longest alias that fits it points. The tail is what comes behind. -/
inductive TakenFrom (aliases : List (String × String)) (workspace : Path) :
    List Char → Path → List Char → Prop
  | root (tail : List Char) : TakenFrom aliases workspace ('/' :: tail) workspace tail
  | under {specifier tail : List Char} {a : String × String}
      (hslash : specifier.head? ≠ some '/') (hlongest : IsLongest aliases specifier a)
      (htail : specifier = a.1.toList ++ tail) :
      TakenFrom aliases workspace specifier (workspace.join (.ofString a.2)) tail

variable {aliases : List (String × String)} {workspace directory : Path}
  {specifier tail : List Char}

theorem startsWithAny_slash : startsWithAny ["/"] specifier = false ↔
    specifier.head? ≠ some '/' := by
  rw [startsWithAny, List.any_cons, List.any_nil, Bool.or_false, Bool.eq_false_iff, ne_eq,
    List.isPrefixOf_iff_prefix]
  cases specifier with
  | nil => decide
  | cons c cs =>
      have hslash : "/".toList = ['/'] := by decide
      rw [hslash, List.head?_cons, ne_eq, Option.some.injEq, List.cons_prefix_cons,
        and_iff_left List.nil_prefix, eq_comm]

/-- The candidates of a specifier that is taken from a directory are those of the steps that its
tail spells, unless it is taken from an alias and goes on with a slash. -/
theorem exists_steps_of_takenFrom (hmapping : IsMapping aliases)
    (htrim : trim specifier = specifier)
    (htaken : TakenFrom aliases workspace specifier directory tail)
    (hstart : specifier.head? = some '/' ∨ tail.head? ≠ some '/') (importer : Path)
    (kind : Kind) :
    ∃ steps : Path, steps.isAbsolute = false ∧ steps.names = (ofText tail).names ∧
      ∀ extensions, candidates aliases extensions workspace importer kind specifier =
        candidatePaths extensions specifier (directory.join steps) := by
  cases htaken with
  | root =>
      refine ⟨.ofText (tail.dropWhile (· == '/')), ?_, names_ofText_dropWhile tail, fun _ => ?_⟩
      · refine isAbsolute_ofText_eq_false fun h => ?_
        have hhead := List.head?_dropWhile_not (· == '/') tail
        rw [h] at hhead
        cases hhead
      · rw [candidates, htrim]
        rfl
  | under hslash hlongest htail =>
      refine ⟨.ofText tail, isAbsolute_ofText_eq_false (hstart.resolve_left hslash), rfl,
        fun _ => ?_⟩
      have hslash' : startsWithAny ["/"] (trim specifier) = false := by
        rw [htrim]
        exact startsWithAny_slash.mpr hslash
      rw [candidates_of_isLongest hmapping hslash' (htrim.symm ▸ hlongest), htrim, htail,
        ← String.length_toList, List.drop_left]

/-- A specifier from the root or under an alias whose tail takes a step and none up leads
strictly below the canonical form of the directory that it is taken from. This is not said of a
tail that goes on with a slash behind an alias, nor of the candidates of an extension that goes
up. -/
theorem candidates_below (hmapping : IsMapping aliases) (htrim : trim specifier = specifier)
    (htaken : TakenFrom aliases workspace specifier directory tail)
    (hup : ['.', '.'] ∉ splitOn '/' tail)
    (hstep : ∃ piece ∈ splitOn '/' tail, piece ≠ [] ∧ piece ≠ ['.'])
    (hstart : specifier.head? = some '/' ∨ tail.head? ≠ some '/') (extensions : List String)
    (importer : Path) (kind : Kind) :
    ∀ p ∈ candidates aliases extensions workspace importer kind specifier,
      p.IsBelow directory.canonical ∨
        ∃ e ∈ extensions, LeadsUp e.toList ∧
          p ∈ candidates aliases [e] workspace importer kind specifier := by
  intro p hp
  obtain ⟨steps, hrelative, hnames, hcandidates⟩ :=
    exists_steps_of_takenFrom hmapping htrim htaken hstart importer kind
  have hsteps : Descends steps.names := hnames ▸ descends_ofText hup hstep
  simp only [hcandidates] at hp ⊢
  exact isBelow_of_mem_candidatePaths hrelative hsteps hp

/-- The directory of an alias may lie outside of the workspace, and what is taken from it is
below it all the same. -/
theorem candidates_below_shared :
    let found := candidates [("@/", "../shared")] [".ts"] (.ofString "/w") (.ofString "/w/b.ts")
      .code "@/a".toList
    TakenFrom [("@/", "../shared")] (.ofString "/w") "@/a".toList
        ((Path.ofString "/w").join (.ofString "../shared")) "a".toList ∧
      found = [.ofString "/shared/a.ts", .ofString "/shared/a/index.ts"] ∧
      ∀ p ∈ found, p.IsBelow (.ofString "/shared") := by
  intro found
  have hmapping : IsMapping [("@/", "../shared")] := List.nodup_singleton _
  have htaken : TakenFrom [("@/", "../shared")] (.ofString "/w") "@/a".toList
      ((Path.ofString "/w").join (.ofString "../shared")) "a".toList :=
    .under (a := ("@/", "../shared")) (by decide) (isLongest_of_longestAlias? (by decide))
      (by decide)
  have hdirectory : ((Path.ofString "/w").join (.ofString "../shared")).canonical =
      .ofString "/shared" := by decide +kernel
  refine ⟨htaken, by decide +kernel, fun p hp => ?_⟩
  have hbelow := candidates_below hmapping (by decide) htaken (by decide)
    ⟨"a".toList, by decide, by decide, by decide⟩ (.inr (by decide)) [".ts"]
    (.ofString "/w/b.ts") .code p hp
  rw [hdirectory] at hbelow
  refine hbelow.resolve_right ?_
  rintro ⟨e, he, hup, -⟩
  rw [List.mem_singleton.mp he, LeadsUp] at hup
  revert hup
  decide

/-- An alias without a slash at its end is left by a specifier that goes on with one, since that
reads as a path from the root; and an extension may go up by itself. -/
theorem candidates_elsewhere :
    (TakenFrom [("@", "src")] (.ofString "/w") "@/a.css".toList
          ((Path.ofString "/w").join (.ofString "src")) "/a.css".toList ∧
        candidates [("@", "src")] [] (.ofString "/w") (.ofString "/w/b.ts") .code
          "@/a.css".toList = [.ofString "/a.css"] ∧
        ¬(Path.ofString "/a.css").IsBelow
          ((Path.ofString "/w").join (.ofString "src")).canonical) ∧
      TakenFrom [] (.ofString "/w") "/a".toList (.ofString "/w") "a".toList ∧
        candidates [] ["./../../b"] (.ofString "/w") (.ofString "/w/b.ts") .code "/a".toList =
          [.ofString "/b", .ofString "/w/b"] ∧
        ¬(Path.ofString "/b").IsBelow (Path.ofString "/w").canonical := by
  have hslash : "/a".toList = '/' :: "a".toList := by decide
  rw [hslash]
  refine ⟨⟨?_, by decide +kernel, fun h => ?_⟩, .root _, by decide +kernel, fun h => ?_⟩
  · exact .under (a := ("@", "src")) (by decide) (isLongest_of_longestAlias? (by decide))
      (by decide)
  · exact absurd h.isPrefix (by decide +kernel)
  · exact absurd h.isPrefix (by decide +kernel)

end Import

end ColorCensus
