import ColorCensus.Proofs.Labels
import ColorCensus.Proofs.Pieces
import ColorCensus.Proofs.Record

/-!
# What a directory pattern covers

A pattern that ends in a slash is held against the names of the directories on
the way to a file, one name at a time. A name holds no slash. So the name of a
directory covers all that is below a directory of that name, at any depth,
while a pattern of two names or more is equal to none of them and covers
nothing at all (`excludes_label_iff`).

What a pattern covers is not brought in by any import: every candidate is
tested before the host is asked about it.
-/

namespace ColorCensus

open Text

namespace Path.Glob

/-- A pattern without any character that stands for others. -/
def IsPlain (pattern : List Char) : Prop := ∀ c ∈ pattern, c ≠ '*' ∧ c ≠ '?' ∧ c ≠ '['

instance (pattern : List Char) : Decidable (IsPlain pattern) := List.decidableBAll _ pattern

theorem pieces_of_isPlain {pattern : List Char} (h : IsPlain pattern) :
    pieces pattern = pattern.map .one := by
  induction pattern with
  | nil => rfl
  | cons c pattern ih =>
      obtain ⟨hstar, hany, hset⟩ := h c List.mem_cons_self
      have hrest : pieces pattern = pattern.map .one :=
        ih fun d hd => h d (List.mem_cons_of_mem _ hd)
      rw [pieces] at hrest ⊢
      rw [piecesFrom, if_neg (by simpa using hstar), if_neg (by simpa using hany),
        if_neg (by simpa using hset), hrest, List.map_cons]

theorem accepts_map_one (pattern cs : List Char) :
    accepts (pattern.map .one) cs = true ↔ cs = pattern := by
  induction pattern generalizing cs with
  | nil => rw [List.map_nil, accepts, List.isEmpty_iff]
  | cons c pattern ih =>
      cases cs with
      | nil => exact ⟨nofun, nofun⟩
      | cons d cs =>
          have hstep : accepts ((c :: pattern).map .one) (d :: cs) =
              (d == c && accepts (pattern.map .one) cs) := rfl
          rw [hstep, Bool.and_eq_true, beq_iff_eq, ih, List.cons.injEq]

/-- A plain pattern matches its own text only. -/
theorem isMatch_iff_eq {pattern : List Char} (h : IsPlain pattern) (cs : List Char) :
    isMatch pattern cs = true ↔ cs = pattern := by
  rw [isMatch, pieces_of_isPlain h, accepts_map_one]

end Path.Glob

namespace Import

open ColorCensus.Path

/-- The pattern that names a directory of the workspace. -/
def directoryPattern (directory : Path) : String := directory.toString ++ "/"

section

variable {directory : Path} (hrelative : directory.root = .relative)
  (hnames : directory.names ≠ [])

include hrelative hnames

theorem text_directory :
    directory.text = joinWith '/' (directory.names.map Name.text) := by
  obtain ⟨root, names⟩ := directory
  dsimp only at hrelative
  subst hrelative
  exact text_eq hnames

theorem text_eq_name_iff {n : Name} : directory.text = n.text ↔ directory.names = [n] := by
  rw [text_directory hrelative hnames]
  constructor
  · intro h
    have hsplit := congrArg (splitOn '/') h
    rw [(spelled_names hnames).1, splitOn_of_not_mem n.no_slash] at hsplit
    have hread := congrArg (List.filterMap Name.ofPiece?) hsplit
    rw [filterMap_ofPiece?, List.filterMap_cons, Name.ofPiece?_text] at hread
    exact hread
  · intro h
    rw [h]
    rfl

theorem exists_text_concat : ∃ front c, directory.text = front ++ [c] ∧ c ≠ '/' := by
  obtain ⟨names, last, hlast⟩ : ∃ names last, directory.names = names ++ [last] :=
    ⟨_, _, (List.dropLast_concat_getLast hnames).symm⟩
  obtain ⟨start, c, hname⟩ : ∃ start c, last.text = start ++ [c] :=
    ⟨_, _, (List.dropLast_concat_getLast last.ne_nil).symm⟩
  obtain ⟨front, hfront⟩ := suffix_joinWith '/' (names.map Name.text) last.text
  refine ⟨front ++ start, c, ?_, ?_⟩
  · rw [text_directory hrelative hnames, hlast, List.map_append, List.map_singleton, ← hfront,
      hname, List.append_assoc]
  · intro hc
    refine last.no_slash ?_
    rw [hname, hc]
    exact List.mem_concat_self

theorem dropEndWhile_directoryPattern :
    dropEndWhile (· == '/') (directoryPattern directory).toList = directory.text := by
  obtain ⟨front, c, htext, hc⟩ := exists_text_concat hrelative hnames
  have hpattern : (directoryPattern directory).toList = front ++ c :: ['/'] := by
    rw [directoryPattern, String.toList_append, Path.toString, String.toList_ofList, htext,
      List.append_assoc]
    rfl
  rw [hpattern, dropEndWhile_append_stop (by simpa using hc), htext]
  rfl

theorem excludes_directoryPattern (hplain : Glob.IsPlain directory.text) (label : List Char) :
    excludes (directoryPattern directory) label = true ↔
      directory.text ∈ (splitOn '/' label).dropLast := by
  have hslash : ((directoryPattern directory).toList.getLast? == some '/') = true := by
    rw [directoryPattern, String.toList_append]
    exact beq_iff_eq.mpr List.getLast?_concat
  rw [excludes, if_pos hslash, dropEndWhile_directoryPattern hrelative hnames, List.any_eq_true]
  constructor
  · rintro ⟨part, hpart, hmatch⟩
    rw [← (Glob.isMatch_iff_eq hplain part).mp hmatch]
    exact hpart
  · intro h
    exact ⟨directory.text, h, (Glob.isMatch_iff_eq hplain _).mpr rfl⟩

variable {workspace p : Path}

/-- Below a directory of the workspace, the pattern that names the directory covers a file if and
only if the directory is one step from the workspace. -/
theorem excludes_label_iff (hplain : Glob.IsPlain directory.text)
    (hbelow : p.IsBelow (workspace.join directory)) :
    excludes (directoryPattern directory) (Path.label workspace p).toList = true ↔
      directory.names.length = 1 := by
  obtain ⟨below, hne, hp⟩ := hbelow.names
  have hroot := hbelow.root
  have hsteps : directory.isAbsolute = false := by
    rw [isAbsolute, hrelative]
    rfl
  rw [join_eq_append hsteps] at hp hroot
  obtain ⟨root, names⟩ := p
  dsimp only at hp hroot
  subst hp hroot
  have hlabel : directory.names ++ below ≠ [] := List.append_ne_nil_of_left_ne_nil hnames below
  have hway : (splitOn '/' (Path.text ⟨.relative, directory.names ++ below⟩)).dropLast =
      (directory.names ++ below.dropLast).map Name.text := by
    rw [text_eq hlabel]
    have hsplit := (spelled_names hlabel).1
    rw [Root.text, List.nil_append, hsplit, ← List.map_dropLast,
      List.dropLast_append_of_ne_nil hne]
  rw [List.append_assoc, label_below, excludes_directoryPattern hrelative hnames hplain,
    Path.toString, String.toList_ofList, hway, List.mem_map]
  constructor
  · rintro ⟨n, -, htext⟩
    rw [(text_eq_name_iff hrelative hnames).mp htext.symm]
    rfl
  · intro hlength
    obtain ⟨n, hn⟩ := List.length_eq_one_iff.mp hlength
    refine ⟨n, ?_, ((text_eq_name_iff hrelative hnames).mpr hn).symm⟩
    rw [hn]
    exact List.mem_append_left _ List.mem_cons_self

end

theorem target?_ne_of_isExcluded {σ : Type} {settings : Settings} {workspace importer p : Path}
    (hexcluded : isExcluded settings.excludePaths workspace p = true)
    (hworkspace : workspace.isAbsolute = true) (himporter : importer.isAbsolute = true)
    (host : Host (StateM σ)) (edge : Edge) (s : σ) :
    ((target? host settings workspace importer edge).run s).1.1 ≠ some p := by
  intro htarget
  have hrecords : Records (target? host.recorded settings workspace importer edge)
      (target? host settings workspace importer edge) _ :=
    target?_records hworkspace himporter edge
  obtain ⟨asked, -, -, hfound⟩ := hrecords s []
  have hincluded := (hfound p htarget).included
  rw [hexcluded] at hincluded
  cases hincluded

/-- The pattern that names a directory of the workspace covers what is below it if and only if the
directory is one step from the workspace. Then no import of any file brings in what is below. -/
theorem directoryPattern_covers {workspace directory p : Path}
    (hrelative : directory.root = .relative) (hnames : directory.names ≠ [])
    (hplain : Glob.IsPlain directory.text) (hbelow : p.IsBelow (workspace.join directory)) :
    (isExcluded [directoryPattern directory] workspace p = true ↔ directory.names.length = 1) ∧
      (directory.names.length = 1 → ∀ settings : Settings,
        directoryPattern directory ∈ settings.excludePaths →
          isExcluded settings.excludePaths workspace p = true ∧
            ∀ (σ : Type) (host : Host (StateM σ)) (importer : Path) (edge : Edge) (s : σ),
              workspace.isAbsolute = true → importer.isAbsolute = true →
                ((target? host settings workspace importer edge).run s).1.1 ≠ some p) := by
  have hcovers := excludes_label_iff hrelative hnames hplain hbelow
  constructor
  · rw [isExcluded, List.any_cons, List.any_nil, Bool.or_false]
    exact hcovers
  · intro hlength settings hpattern
    have hexcluded : isExcluded settings.excludePaths workspace p = true :=
      List.any_eq_true.mpr ⟨_, hpattern, hcovers.mpr hlength⟩
    exact ⟨hexcluded, fun σ host importer edge s hworkspace himporter =>
      target?_ne_of_isExcluded hexcluded hworkspace himporter host edge s⟩

/-- Two directories below `node_modules`, nothing is brought in although every path is a file. -/
theorem directoryPattern_covers_packages :
    let directory := Path.ofString "node_modules"
    let p := Path.ofString "/w/node_modules/a/lib/b.js"
    directoryPattern directory = "node_modules/" ∧
      p.IsBelow ((Path.ofString "/w").join directory) ∧
      isExcluded ({} : Settings).excludePaths (.ofString "/w") p = true ∧
      ((target? endless {} (.ofString "/w") (.ofString "/w/a.ts")
        ⟨"./node_modules/a/lib/b.js".toList, .code, 0⟩).run ()).1.1 ≠ some p := by
  intro directory p
  have hpattern : directoryPattern directory = "node_modules/" := by decide +kernel
  have hbelow : p.IsBelow ((Path.ofString "/w").join directory) :=
    ⟨by decide +kernel, p.names.drop 2, by decide +kernel, by decide +kernel⟩
  have hplain : Glob.IsPlain directory.text := by decide +kernel
  have hmem : directoryPattern directory ∈ ({} : Settings).excludePaths := by
    rw [hpattern]
    exact List.mem_cons_self
  obtain ⟨-, hcovers⟩ := directoryPattern_covers (by decide +kernel) (by decide +kernel) hplain
    hbelow
  obtain ⟨hexcluded, hnone⟩ := hcovers (by decide +kernel) {} hmem
  exact ⟨hpattern, hbelow, hexcluded,
    hnone Unit endless _ _ () (by decide +kernel) (by decide +kernel)⟩

/-- A directory two steps from the workspace is not covered, and an import leads into it. -/
theorem nested_directory_uncovered :
    let directory := Path.ofString "src/generated"
    let p := Path.ofString "/w/src/generated/a.css"
    directoryPattern directory = "src/generated/" ∧
      p.IsBelow ((Path.ofString "/w").join directory) ∧
      isExcluded ["src/generated/"] (.ofString "/w") p = false ∧
      ((target? endless { excludePaths := ["src/generated/"] } (.ofString "/w")
        (.ofString "/w/a.ts") ⟨"./src/generated/a.css".toList, .code, 0⟩).run ()).1.1 =
          some p := by
  intro directory p
  have hbelow : p.IsBelow ((Path.ofString "/w").join directory) :=
    ⟨by decide +kernel, p.names.drop 3, by decide +kernel, by decide +kernel⟩
  exact ⟨by decide +kernel, hbelow, by decide +kernel, by decide +kernel⟩

end Import

end ColorCensus
