import ColorCensus.Disk.Tree
import ColorCensus.Proofs.Canonical

/-!
# A label names one path

A path is read back from its spelling (`ofText_text`), so two paths are never
spelled alike. A label is the spelling of a path: of the steps below the
workspace if there are such, and of the whole path otherwise. The steps below
the workspace spell a relative path, so among absolute paths the two never meet
and a label tells which path it belongs to (`label_injOn`).

Which of the two it is shows at its start, since a spelling starts with a slash
if and only if the path is absolute (`text_head_iff`), and a relative one leads
back from the workspace to the path (`join_label`). What counts as below is a
matter of whole steps: a directory next to the workspace whose name goes on
after that of the workspace is outside, and so is a path of the same steps that
starts with another number of slashes.
-/

namespace ColorCensus

open Text

namespace Path

theorem filterMap_ofPiece? (names : List Name) :
    (names.map Name.text).filterMap Name.ofPiece? = names := by
  induction names with
  | nil => rfl
  | cons n names ih => rw [List.map_cons, List.filterMap_cons, Name.ofPiece?_text, ih]

theorem joinWith_cons (sep : Char) (piece : List Char) (pieces : List (List Char)) :
    ∃ rest, joinWith sep (piece :: pieces) = piece ++ rest := by
  cases pieces with
  | nil => exact ⟨[], (List.append_nil _).symm⟩
  | cons next pieces => exact ⟨_, rfl⟩

theorem spelled_names {names : List Name} (hne : names ≠ []) :
    splitOn '/' (joinWith '/' (names.map Name.text)) = names.map Name.text ∧
      ∃ c rest, joinWith '/' (names.map Name.text) = c :: rest ∧ c ≠ '/' := by
  have hslash : ∀ piece ∈ names.map Name.text, '/' ∉ piece := by
    intro piece hpiece
    obtain ⟨n, -, rfl⟩ := List.mem_map.mp hpiece
    exact n.no_slash
  refine ⟨splitOn_joinWith (by simpa using hne) hslash, ?_⟩
  cases names with
  | nil => exact absurd rfl hne
  | cons n names =>
      obtain ⟨rest, hjoin⟩ := joinWith_cons '/' n.text (names.map Name.text)
      obtain ⟨c, cs, htext⟩ := List.exists_cons_of_ne_nil n.ne_nil
      refine ⟨c, cs ++ rest, ?_, ?_⟩
      · rw [List.map_cons, hjoin, htext, List.cons_append]
      · intro hc
        exact n.no_slash (by rw [htext, hc]; exact List.mem_cons_self)

theorem text_eq {root : Root} {names : List Name} (hne : names ≠ []) :
    text ⟨root, names⟩ = root.text ++ joinWith '/' (names.map Name.text) := by
  obtain ⟨n, rest, rfl⟩ := List.exists_cons_of_ne_nil hne
  cases root <;> rfl

theorem ofText_spelled (root : Root) {cs : List Char} (h : cs.head? ≠ some '/') :
    ofText (root.text ++ cs) = ⟨root, (splitOn '/' cs).filterMap Name.ofPiece?⟩ := by
  have hstop : cs.takeWhile (· == '/') = [] := by
    cases cs with
    | nil => rfl
    | cons c cs => exact List.takeWhile_cons_of_neg fun hc => h (congrArg some (eq_of_beq hc))
  have hroot : Root.ofText (root.text ++ cs) = root := by
    have htext : ∀ c ∈ root.text, (c == '/') = true := by
      cases root with
      | relative => exact nofun
      | slash => exact List.all_eq_true.mp rfl
      | twoSlashes => exact List.all_eq_true.mp rfl
    rw [Root.ofText, List.takeWhile_append_of_pos htext, hstop, List.append_nil]
    cases root with
    | relative => rfl
    | slash => rfl
    | twoSlashes => rfl
  have hnames : (splitOn '/' (root.text ++ cs)).filterMap Name.ofPiece? =
      (splitOn '/' cs).filterMap Name.ofPiece? := by
    cases root with
    | relative => rfl
    | slash => rfl
    | twoSlashes => rfl
  rw [ofText, hroot, hnames]

theorem ofText_text (p : Path) : ofText p.text = p := by
  obtain ⟨root, names⟩ := p
  by_cases hne : names = []
  · subst hne
    cases root <;> rfl
  · obtain ⟨hsplit, c, rest, hjoin, hc⟩ := spelled_names hne
    have hhead : (joinWith '/' (names.map Name.text)).head? ≠ some '/' := by
      rw [hjoin]
      exact fun h => hc (Option.some.inj h)
    rw [text_eq hne, ofText_spelled root hhead, hsplit, filterMap_ofPiece?]

theorem toString_inj {p q : Path} : p.toString = q.toString ↔ p = q := by
  constructor
  · intro h
    have htext : p.text = q.text := String.ofList_injective h
    rw [← ofText_text p, htext, ofText_text]
  · exact congrArg toString

/-- A path leads on from a directory by one step or more. -/
structure IsBelow (p directory : Path) : Prop where
  root : p.root = directory.root
  names : ∃ below, below ≠ [] ∧ p.names = directory.names ++ below

theorem IsBelow.isPrefix {p directory : Path} (h : p.IsBelow directory) :
    directory.names <+: p.names := by
  obtain ⟨below, -, hnames⟩ := h.names
  exact ⟨below, hnames.symm⟩

theorem label_below (workspace : Path) (names : List Name) :
    label workspace ⟨workspace.root, workspace.names ++ names⟩ = toString ⟨.relative, names⟩ := by
  rw [label, below?, if_pos ⟨rfl, List.prefix_append _ _⟩]
  dsimp only
  rw [List.drop_left]

/-- What a label spells: a relative path for a path from the workspace down, and
otherwise the path itself. -/
theorem exists_label_eq (workspace p : Path) :
    ∃ spelled : Path, label workspace p = spelled.toString ∧
      (spelled = p ∨ spelled.root = .relative ∧ workspace.root = p.root ∧
        workspace.names ++ spelled.names = p.names) := by
  unfold label below?
  split
  · next names h =>
      rw [Option.ite_none_right_eq_some] at h
      obtain ⟨⟨hroot, rest, hrest⟩, h⟩ := h
      cases h
      refine ⟨_, rfl, .inr ⟨rfl, hroot, ?_⟩⟩
      rw [← hrest, List.drop_left]
  · exact ⟨p, rfl, .inl rfl⟩

/-- Two absolute paths with one label are the same path. -/
theorem label_injOn {workspace p q : Path} (hp : p.isAbsolute = true) (hq : q.isAbsolute = true)
    (h : label workspace p = label workspace q) : p = q := by
  obtain ⟨s, hs, hp'⟩ := exists_label_eq workspace p
  obtain ⟨t, ht, hq'⟩ := exists_label_eq workspace q
  rw [hs, ht, toString_inj] at h
  subst h
  rw [isAbsolute, bne_iff_ne] at hp hq
  rcases hp' with rfl | ⟨hrel, hroot, hnames⟩
  · rcases hq' with rfl | ⟨hrel, -, -⟩
    · rfl
    · exact absurd hrel hp
  · rcases hq' with rfl | ⟨-, hroot', hnames'⟩
    · exact absurd hrel hq
    · obtain ⟨root, names⟩ := p
      obtain ⟨root', names'⟩ := q
      dsimp only at hroot hroot' hnames hnames'
      rw [← hroot, ← hroot', ← hnames, ← hnames']

/-! ## Inside and outside of the workspace -/

/-- An absolute path without steps up. -/
structure IsCanonical (p : Path) : Prop where
  absolute : p.isAbsolute = true
  canonical : p.canonical = p

theorem eq_or_isBelow_iff {directory p : Path} : p = directory ∨ p.IsBelow directory ↔
    ∃ names, p = ⟨directory.root, directory.names ++ names⟩ := by
  constructor
  · rintro (rfl | hbelow)
    · exact ⟨[], by rw [List.append_nil]⟩
    · obtain ⟨names, -, hnames⟩ := hbelow.names
      exact ⟨names, by rw [← hbelow.root, ← hnames]⟩
  · rintro ⟨names, rfl⟩
    cases names with
    | nil => exact .inl (by rw [List.append_nil])
    | cons n names => exact .inr ⟨rfl, n :: names, List.cons_ne_nil _ _, rfl⟩

theorem label_outside {workspace p : Path} (h : ¬(p = workspace ∨ p.IsBelow workspace)) :
    label workspace p = p.toString := by
  obtain ⟨spelled, hlabel, rfl | ⟨-, hroot, hnames⟩⟩ := exists_label_eq workspace p
  · exact hlabel
  · refine absurd (eq_or_isBelow_iff.mpr ⟨spelled.names, ?_⟩) h
    rw [hroot, hnames]

theorem text_head_iff {p : Path} : p.text.head? = some '/' ↔ p.isAbsolute = true := by
  constructor
  · intro h
    obtain ⟨cs, htext⟩ := List.head?_eq_some_iff.mp h
    rw [← ofText_text p, htext]
    exact isAbsolute_ofText cs
  · intro h
    obtain ⟨cs, htext⟩ := text_of_isAbsolute h
    rw [htext]
    rfl

theorem label_head_iff {workspace p : Path} (hp : p.isAbsolute = true) :
    (label workspace p).toList.head? = some '/' ↔ ¬(p = workspace ∨ p.IsBelow workspace) := by
  by_cases hinside : p = workspace ∨ p.IsBelow workspace
  · obtain ⟨names, rfl⟩ := eq_or_isBelow_iff.mp hinside
    rw [label_below, toString, String.toList_ofList, text_head_iff]
    exact ⟨nofun, fun houtside => absurd hinside houtside⟩
  · rw [label_outside hinside, toString, String.toList_ofList, text_head_iff]
    exact iff_of_true hp hinside

theorem join_label {workspace p : Path} (h : p = workspace ∨ p.IsBelow workspace) :
    workspace.join (.ofString (label workspace p)) = p := by
  obtain ⟨names, rfl⟩ := eq_or_isBelow_iff.mp h
  rw [label_below, ofString, toString, String.toList_ofList, ofText_text]
  exact join_eq_append rfl workspace

end Path

namespace Disk

variable {m : Type → Type} [Monad m]

/-- Whatever the workspace, no two canonical paths have one label. A label starts with a slash
exactly if its path is neither the workspace nor below it, and otherwise it leads from the workspace
back to the path. -/
theorem labels_identify (disk : Disk m) (workspace : Path) :
    let directory := disk.absolute workspace
    let label := disk.host.label directory
    (∀ p q : Path, p.IsCanonical → q.IsCanonical → p ≠ q → label p ≠ label q) ∧
      ∀ p : Path, p.IsCanonical →
        ((label p).toList.head? = some '/' ↔ ¬(p = directory ∨ p.IsBelow directory)) ∧
          (p = directory ∨ p.IsBelow directory →
            disk.absolute (directory.join (.ofString (label p))) = p) := by
  intro directory label
  constructor
  · intro p q hp hq hne hlabel
    exact hne (Path.label_injOn hp.absolute hq.absolute hlabel)
  · intro p hp
    refine ⟨Path.label_head_iff hp.absolute, fun hinside => ?_⟩
    have hback : directory.join (.ofString (label p)) = p := Path.join_label hinside
    rw [hback, absolute_eq, Path.absoluteFrom_eq_self hp.absolute hp.canonical]

/-- A disk without files. -/
def bare : Disk Id := Tree.disk (pure {}) (.ofString "/home/me") fun _ => none

/-- Next to the workspace `/w` are a directory whose name goes on after that of the workspace and
one of the same steps behind two slashes. -/
theorem labels_identify_neighbours :
    let directory := bare.absolute (.ofString "../../w")
    let label := bare.host.label directory
    let inside := Path.ofString "/w/a.css"
    let behindTwo := Path.ofString "//w/a.css"
    let beside := Path.ofString "/w-other/a.css"
    (inside.IsCanonical ∧ behindTwo.IsCanonical ∧ inside ≠ behindTwo ∧
        label inside ≠ label behindTwo) ∧
      (beside.IsCanonical ∧ (label beside).toList.head? = some '/') ∧
      (inside.IsBelow directory ∧ (label inside).toList.head? ≠ some '/' ∧
        bare.absolute (directory.join (.ofString (label inside))) = inside) ∧
      (directory.IsCanonical ∧ label directory = "." ∧
        bare.absolute (directory.join (.ofString (label directory))) = directory) := by
  intro directory label inside behindTwo beside
  have hdirectory : directory = .ofString "/w" := by decide +kernel
  have hinside : inside.IsCanonical := ⟨by decide +kernel, by decide +kernel⟩
  have hbehindTwo : behindTwo.IsCanonical := ⟨by decide +kernel, by decide +kernel⟩
  have hbeside : beside.IsCanonical := ⟨by decide +kernel, by decide +kernel⟩
  have hworkspace : directory.IsCanonical := ⟨by decide +kernel, by decide +kernel⟩
  have hbelow : inside.IsBelow directory := by
    rw [hdirectory]
    exact ⟨by decide +kernel, (Path.ofString "a.css").names, by decide +kernel, by decide +kernel⟩
  have houtside : ¬(beside = directory ∨ beside.IsBelow directory) := by
    rw [hdirectory]
    rintro (heq | hbelow)
    · revert heq
      decide +kernel
    · exact absurd hbelow.isPrefix (by decide +kernel)
  have hne : inside ≠ behindTwo := by decide +kernel
  obtain ⟨hdistinct, hplaced⟩ := labels_identify bare (.ofString "../../w")
  refine ⟨⟨hinside, hbehindTwo, hne, hdistinct _ _ hinside hbehindTwo hne⟩,
    ⟨hbeside, (hplaced beside hbeside).1.mpr houtside⟩,
    ⟨hbelow, fun hslash => ?_, (hplaced inside hinside).2 (.inr hbelow)⟩,
    ⟨hworkspace, by decide +kernel, (hplaced directory hworkspace).2 (.inl rfl)⟩⟩
  exact (hplaced inside hinside).1.mp hslash (.inr hbelow)

end Disk

end ColorCensus
