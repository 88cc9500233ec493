import ColorCensus.Disk.Basic
import ColorCensus.Import.Resolve

/-!
# Every path in a walk is canonical

A path means a canonical one: it is put behind the current directory, unless it
is absolute, and then its steps up are taken. Canonical paths are the fixed
points of that, whatever the directory, so all spellings of a file come to one
path. The candidates of a specifier are canonical as well, and absolute if the
workspace and the importing file are.
-/

namespace ColorCensus

namespace Path

/-- The canonical path that a path means, seen from a directory. -/
def absoluteFrom (p current : Path) : Path := (current.join p).canonical

theorem isAbsolute_join {base : Path} (h : base.isAbsolute = true) (p : Path) :
    (base.join p).isAbsolute = true := by
  unfold join
  split
  · next hp => exact hp
  · exact h

theorem join_eq_append {p : Path} (h : p.isAbsolute = false) (base : Path) :
    base.join p = ⟨base.root, base.names ++ p.names⟩ := by
  rw [join, h]
  rfl

theorem isAbsolute_canonical (p : Path) : p.canonical.isAbsolute = p.isAbsolute := rfl

theorem isAbsolute_absoluteFrom {current : Path} (h : current.isAbsolute = true) (p : Path) :
    (p.absoluteFrom current).isAbsolute = true := by
  rw [absoluteFrom, isAbsolute_canonical]
  exact isAbsolute_join h p

theorem absoluteFrom_eq_self {p : Path} (habsolute : p.isAbsolute = true)
    (hcanonical : p.canonical = p) (current : Path) : p.absoluteFrom current = p := by
  rw [absoluteFrom, join, if_pos habsolute, hcanonical]

theorem isAbsolute_ofText (cs : List Char) : (ofText ('/' :: cs)).isAbsolute = true := by
  have hroot : Root.ofText ('/' :: cs) ≠ .relative := by
    rw [Root.ofText, List.takeWhile_cons_of_pos (by rfl), List.length_cons]
    split
    · next h => exact absurd h (Nat.succ_ne_zero _)
    · exact nofun
    · exact nofun
  exact bne_iff_ne.mpr hroot

theorem text_of_isAbsolute {p : Path} (h : p.isAbsolute = true) :
    ∃ cs, p.text = '/' :: cs := by
  obtain ⟨root, names⟩ := p
  cases root with
  | relative => cases h
  | slash => exact ⟨_, rfl⟩
  | twoSlashes => exact ⟨_, rfl⟩

theorem isAbsolute_continued {p : Path} (h : p.isAbsolute = true) (tail : String) :
    (p.continued tail).isAbsolute = true := by
  obtain ⟨cs, htext⟩ := text_of_isAbsolute h
  rw [continued, htext]
  exact isAbsolute_ofText _

end Path

theorem Disk.absolute_eq {m : Type → Type} (disk : Disk m) (p : Path) :
    disk.absolute p = p.absoluteFrom disk.current := rfl

namespace Import

theorem canonical_of_mem_candidatePaths {extensions : List String} {specifier : List Char}
    {base p : Path} (h : p ∈ candidatePaths extensions specifier base) : p.canonical = p := by
  unfold candidatePaths at h
  split at h
  · rw [List.mem_singleton.mp h]
    exact Path.canonical_canonical base
  · rcases List.mem_append.mp h with h | h
    · obtain ⟨e, -, rfl⟩ := List.mem_map.mp h
      exact Path.canonical_canonical _
    · obtain ⟨e, -, rfl⟩ := List.mem_map.mp h
      exact Path.canonical_canonical _

theorem isAbsolute_of_mem_candidatePaths {extensions : List String} {specifier : List Char}
    {base p : Path} (hbase : base.isAbsolute = true)
    (h : p ∈ candidatePaths extensions specifier base) : p.isAbsolute = true := by
  unfold candidatePaths at h
  split at h
  · rw [List.mem_singleton.mp h, Path.isAbsolute_canonical]
    exact hbase
  · rcases List.mem_append.mp h with h | h
    · obtain ⟨e, -, rfl⟩ := List.mem_map.mp h
      rw [Path.isAbsolute_canonical]
      exact Path.isAbsolute_continued hbase e
    · obtain ⟨e, -, rfl⟩ := List.mem_map.mp h
      rw [Path.isAbsolute_canonical]
      exact Path.isAbsolute_join hbase _

/-- The candidates of a specifier are those of one base, which is absolute if
the workspace and the importing file are. -/
theorem exists_base_of_mem_candidates {aliases : List (String × String)}
    {extensions : List String} {workspace importer : Path} {kind : Kind} {specifier : List Char}
    {p : Path} (h : p ∈ candidates aliases extensions workspace importer kind specifier) :
    ∃ base, p ∈ candidatePaths extensions (Text.trim specifier) base ∧
      (workspace.isAbsolute = true → importer.isAbsolute = true → base.isAbsolute = true) := by
  unfold candidates at h
  dsimp only at h
  split at h
  · exact ⟨_, h, fun hw _ => Path.isAbsolute_join hw _⟩
  · split at h
    · exact ⟨_, h, fun hw _ => Path.isAbsolute_join (Path.isAbsolute_join hw _) _⟩
    · split at h
      · have hparent : importer.parent.isAbsolute = importer.isAbsolute := rfl
        exact ⟨_, h, fun _ hi => Path.isAbsolute_join (hparent.trans hi) _⟩
      · cases h

end Import

end ColorCensus
