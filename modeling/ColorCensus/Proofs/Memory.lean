import ColorCensus.Occurrence.Scan

/-!
# Memory changes no hint

A memory keeps the text without comments and the style blocks of a file under
the file's path. It serves a file when whatever it keeps under that path is
what a look at the file would give. The empty memory serves every file; a
memory that serves a file answers for it as no memory would; and what it takes
up while it answers for one file leaves it serving all files that carry the
same text under the same path.

So over files with one text for each path, the occurrences of a file do not
depend on the files scanned before it.
-/

namespace ColorCensus

/-- Two files are not the same path with different texts. -/
def Source.Agree (s t : Source) : Prop := s.path = t.path → s.text = t.text

theorem Source.Agree.refl (s : Source) : s.Agree s := fun _ => rfl

namespace Context

theorem maskedText_congr {s t : Source} (hp : s.path = t.path) (ht : s.text = t.text) :
    maskedText s = maskedText t := by
  unfold maskedText Source.suffix
  rw [hp, ht]

namespace Memory

/-- A memory serves a file if it keeps nothing wrong under the file's path. -/
structure Serves (m : Memory) (s : Source) : Prop where
  masked : ∀ k ∈ m.masked, k.1 = s.path → k.2 = Context.maskedText s
  blocks : ∀ k ∈ m.blocks, k.1 = s.path → k.2 = styleBlocks (s.text.getD [])

theorem Serves.empty (s : Source) : Serves {} s := ⟨by simp, by simp⟩

/-! ## What `remember` answers and keeps -/

theorem remember_fst {α : Type} {known : List (Path × α)} {path : Path} {new : α}
    (h : ∀ k ∈ known, k.1 = path → k.2 = new) : (remember known path new).1 = new := by
  unfold remember
  split
  · next k hk =>
      have hpath : k.1 = path := by simpa using List.find?_some hk
      exact h k (List.mem_of_find?_eq_some hk) hpath
  · rfl

theorem mem_remember_snd {α : Type} {known : List (Path × α)} {path : Path} {new : α}
    {k : Path × α} (h : k ∈ (remember known path new).2) : k ∈ known ∨ k = (path, new) := by
  unfold remember at h
  split at h
  · exact .inl h
  · rcases List.mem_cons.mp h with h | h
    · exact .inr h
    · exact .inl h

/-! ## One question -/

theorem maskedText_fst {m : Memory} {s : Source} (h : m.Serves s) :
    (m.maskedText s).1 = Context.maskedText s := remember_fst h.masked

theorem maskedText_serves {m : Memory} {s t : Source} (hst : s.Agree t) (h : m.Serves t) :
    (m.maskedText s).2.Serves t where
  masked := by
    intro k hk hpath
    rcases mem_remember_snd hk with hk | rfl
    · exact h.masked k hk hpath
    · exact maskedText_congr hpath (hst hpath)
  blocks := h.blocks

theorem strategyAt_fst {m : Memory} {s : Source} (h : m.Serves s) (offset : Nat) :
    (m.strategyAt s offset).1 = Context.strategyAt s offset := by
  unfold strategyAt Context.strategyAt
  split
  · rfl
  · exact congrArg (strategyAmong · offset) (remember_fst h.blocks)

theorem strategyAt_serves {m : Memory} {s t : Source} (hst : s.Agree t) (h : m.Serves t)
    (offset : Nat) : (m.strategyAt s offset).2.Serves t := by
  unfold strategyAt
  split
  · exact h
  · refine ⟨h.masked, ?_⟩
    intro k hk hpath
    rcases mem_remember_snd hk with hk | rfl
    · exact h.blocks k hk hpath
    · change styleBlocks (s.text.getD []) = _
      rw [hst hpath]

theorem hintBy_serves {m : Memory} {s t : Source} (hst : s.Agree t) (h : m.Serves t)
    (settings : Settings) (offset : Nat) (strategy : Strategy × Nat) :
    (m.hintBy settings s offset strategy).2.Serves t := by
  obtain ⟨_ | _, floor⟩ := strategy
  · exact maskedText_serves hst h
  · exact h

theorem hintBy_fst {m : Memory} {s : Source} (h : m.Serves s) (settings : Settings)
    (offset : Nat) :
    (m.hintBy settings s offset (Context.strategyAt s offset)).1 =
      Context.hintAt settings s offset := by
  unfold Context.hintAt
  obtain ⟨_ | _, floor⟩ := Context.strategyAt s offset
  · simp only [hintBy, maskedText_fst h]
  · rfl

theorem hintAt_eq_hintBy {m : Memory} {s : Source} (settings : Settings) (offset : Nat) :
    m.hintAt settings s offset =
      (m.strategyAt s offset).2.hintBy settings s offset (m.strategyAt s offset).1 := rfl

theorem hintAt_fst {m : Memory} {s : Source} (h : m.Serves s) (settings : Settings)
    (offset : Nat) : (m.hintAt settings s offset).1 = Context.hintAt settings s offset := by
  rw [hintAt_eq_hintBy, strategyAt_fst h]
  exact hintBy_fst (strategyAt_serves (Source.Agree.refl s) h offset) settings offset

theorem hintAt_serves {m : Memory} {s t : Source} (hst : s.Agree t) (h : m.Serves t)
    (settings : Settings) (offset : Nat) : (m.hintAt settings s offset).2.Serves t :=
  hintBy_serves hst (strategyAt_serves hst h offset) settings offset _

end Memory

end Context

namespace Occurrence

open Context (Memory)

/-! ## A file -/

/-- A spot with its surroundings, looked up without any memory. -/
def describeIn (settings : Context.Settings) (s : Source) (spot : Spot) : Occurrence :=
  describe settings.sampleLength s (Context.hintAt settings s spot.start) spot

/-- The occurrences of a file, described without any memory. -/
def found (table : Variable.Table) (attributes : List (List Char))
    (settings : Context.Settings) (s : Source) : List Occurrence :=
  (spots table attributes s).map (describeIn settings s)

/-- Whether every spot of a file has its window, told without any memory. -/
def windowed (table : Variable.Table) (attributes : List (List Char))
    (settings : Context.Settings) (s : Source) : Bool :=
  (spots table attributes s).all fun spot =>
    (Context.strategyAt s spot.start).1.hasWindow settings s spot.start

theorem describeAll_fst {settings : Context.Settings} {s : Source} :
    ∀ {ss : List Spot} {m : Memory}, m.Serves s →
      (describeAll settings s m ss).1 = ss.map (describeIn settings s) := by
  intro ss
  induction ss with
  | nil => intro m _; rfl
  | cons spot ss ih =>
      intro m h
      have hrest := ih (Memory.hintAt_serves (Source.Agree.refl s) h settings spot.start)
      rw [List.map_cons, describeIn, ← Memory.hintAt_fst h, ← hrest]
      rfl

theorem describeAll_serves {settings : Context.Settings} {s t : Source} (hst : s.Agree t) :
    ∀ {ss : List Spot} {m : Memory}, m.Serves t → (describeAll settings s m ss).2.Serves t := by
  intro ss
  induction ss with
  | nil => intro m h; exact h
  | cons spot ss ih => intro m h; exact ih (Memory.hintAt_serves hst h settings spot.start)

variable {table : Variable.Table} {attributes : List (List Char)}
  {settings : Context.Settings} {s t : Source} {m : Memory}

theorem scan_fst (h : m.Serves s) :
    (scan table attributes settings m s).1 = found table attributes settings s :=
  describeAll_fst h

theorem scan_serves (hst : s.Agree t) (h : m.Serves t) :
    (scan table attributes settings m s).2.Serves t :=
  describeAll_serves hst h

theorem hasWindows_eq (h : m.Serves s) :
    hasWindows table attributes settings m s = windowed table attributes settings s := by
  unfold hasWindows windowed
  congr 1
  funext spot
  rw [Memory.strategyAt_fst h]

end Occurrence

end ColorCensus
