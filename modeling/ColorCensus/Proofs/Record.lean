import ColorCensus.Proofs.Canonical
import ColorCensus.Proofs.Turns

/-!
# What a walk asks its host

`Host.recorded` is a host that writes down every question with its answer. A
walk over it does what it would do without the record (`Records`), so the
record tells what the host was asked: for the texts of the files visited, once
each and in their order, and for every file but the root whether it is one.

Nothing is assumed of the host. It may change its answers while the walk is on,
and it may come up with new files without end. That a file exists can therefore
only mean that the host said so when it was asked.
-/

namespace ColorCensus

/-- A question put to a host, with its answer. -/
inductive Asked where
  | isFile (p : Path) (answer : Bool)
  | read (p : Path) (answer : Except ReadFault (List Char))

namespace Asked

/-- The path whose text was asked for, and the text if there was one. -/
def reading? : Asked → Option (Path × Option (List Char))
  | isFile _ _ => none
  | read p answer => some (p, answer.toOption)

/-- The readings of a record, in their order. -/
def readings (record : List Asked) : List (Path × Option (List Char)) :=
  record.filterMap reading?

theorem readings_append (record more : List Asked) :
    readings (record ++ more) = readings record ++ readings more :=
  List.filterMap_append

end Asked

variable {σ : Type}

/-- A question that is written down with its answer. -/
def noted {α : Type} (question : StateM σ α) (note : α → Asked) : StateM (σ × List Asked) α :=
  fun (s, record) =>
    let (answer, s) := question.run s
    (answer, (s, record ++ [note answer]))

/-- A host that keeps a record of the questions put to it. -/
def Host.recorded (host : Host (StateM σ)) : Host (StateM (σ × List Asked)) where
  isFile p := noted (host.isFile p) (.isFile p)
  read p := noted (host.read p) (.read p)
  label := host.label

/-! ## Computations on record -/

/-- A computation does what another one does and writes down some questions,
which go with its answer as said. -/
def Records {α : Type} (recorded : StateM (σ × List Asked) α) (plain : StateM σ α)
    (Q : α → List Asked → Prop) : Prop :=
  ∀ s record, ∃ asked,
    recorded.run (s, record) = ((plain.run s).1, ((plain.run s).2, record ++ asked)) ∧
      Q (plain.run s).1 asked

namespace Records

variable {α β : Type} {Q : α → List Asked → Prop} {R : β → List Asked → Prop}

theorem pure {a : α} (h : Q a []) :
    Records (Pure.pure a : StateM (σ × List Asked) α) (Pure.pure a) Q := by
  intro s record
  refine ⟨[], ?_, h⟩
  rw [List.append_nil]
  rfl

theorem noted {question : StateM σ α} {note : α → Asked} (h : ∀ a, Q a [note a]) :
    Records (noted question note) question Q := by
  intro s record
  exact ⟨[note (question.run s).1], rfl, h _⟩

theorem mono {x : StateM (σ × List Asked) α} {y : StateM σ α} {Q' : α → List Asked → Prop}
    (h : Records x y Q) (hQ : ∀ a asked, Q a asked → Q' a asked) : Records x y Q' := by
  intro s record
  obtain ⟨asked, hrun, ha⟩ := h s record
  exact ⟨asked, hrun, hQ _ _ ha⟩

theorem bind {x : StateM (σ × List Asked) α} {y : StateM σ α}
    {f : α → StateM (σ × List Asked) β} {g : α → StateM σ β} (h : Records x y Q)
    (rest : ∀ a asked, Q a asked → Records (f a) (g a) fun b more => R b (asked ++ more)) :
    Records (x >>= f) (y >>= g) R := by
  intro s record
  obtain ⟨asked, hrun, ha⟩ := h s record
  obtain ⟨more, hrest, hb⟩ := rest _ _ ha (y.run s).2 (record ++ asked)
  refine ⟨asked ++ more, ?_, hb⟩
  rw [Import.run_bind hrun, hrest, List.append_assoc]
  rfl

end Records

namespace Import

/-- A path came into the walk through an import: it is canonical, no pattern
excludes it, and the host said that it is a file. -/
structure Found (settings : Settings) (workspace : Path) (record : List Asked) (p : Path) :
    Prop where
  isAbsolute : p.isAbsolute = true
  canonical : p.canonical = p
  included : isExcluded settings.excludePaths workspace p = false
  isFile : .isFile p true ∈ record

theorem Found.mono {settings : Settings} {workspace : Path} {record record' : List Asked}
    {p : Path} (h : Found settings workspace record p) (hsub : record ⊆ record') :
    Found settings workspace record' p :=
  ⟨h.isAbsolute, h.canonical, h.included, hsub h.isFile⟩

variable {host : Host (StateM σ)} {settings : Settings} {workspace : Path}

theorem firstFile?_records (ps : List Path) :
    Records (firstFile? host.recorded settings workspace ps)
      (firstFile? host settings workspace ps)
      fun found asked => Asked.readings asked = [] ∧ ∀ p, found = some p →
        p ∈ ps ∧ isExcluded settings.excludePaths workspace p = false ∧ .isFile p true ∈ asked := by
  induction ps with
  | nil => exact .pure ⟨rfl, nofun⟩
  | cons q ps ih =>
      rw [firstFile?, firstFile?]
      split
      · refine ih.mono ?_
        rintro found asked ⟨hreadings, hfound⟩
        refine ⟨hreadings, fun p hp => ?_⟩
        obtain ⟨hmem, hrest⟩ := hfound p hp
        exact ⟨List.mem_cons_of_mem _ hmem, hrest⟩
      · next hincluded =>
          refine Records.bind (Q := fun answer asked => asked = [.isFile q answer])
            (.noted fun _ => rfl) ?_
          rintro answer _ rfl
          cases answer with
          | true =>
              refine .pure ⟨rfl, fun p hp => ?_⟩
              cases hp
              exact ⟨List.mem_cons_self, Bool.eq_false_iff.mpr hincluded, List.mem_cons_self⟩
          | false =>
              refine ih.mono ?_
              rintro found asked ⟨hreadings, hfound⟩
              refine ⟨hreadings, fun p hp => ?_⟩
              obtain ⟨hmem, hfree, hasked⟩ := hfound p hp
              exact ⟨List.mem_cons_of_mem _ hmem, hfree, List.mem_cons_of_mem _ hasked⟩

theorem target?_records (hworkspace : workspace.isAbsolute = true) {importer : Path}
    (himporter : importer.isAbsolute = true) (edge : Edge) :
    Records (target? host.recorded settings workspace importer edge)
      (target? host settings workspace importer edge)
      fun answer asked => Asked.readings asked = [] ∧
        ∀ p, answer.1 = some p → Found settings workspace asked p := by
  unfold target?
  split
  · refine Records.bind (firstFile?_records _) ?_
    rintro (_ | q) asked ⟨hreadings, hfound⟩
    · refine .pure ⟨?_, nofun⟩
      rw [List.append_nil]
      exact hreadings
    · refine .pure ?_
      rw [List.append_nil]
      refine ⟨hreadings, fun p hp => ?_⟩
      obtain ⟨hmem, hfree, hasked⟩ := hfound p hp
      obtain ⟨base, hbase, habsolute⟩ := exists_base_of_mem_candidates hmem
      exact ⟨isAbsolute_of_mem_candidatePaths (habsolute hworkspace himporter) hbase,
        canonical_of_mem_candidatePaths hbase, hfree, hasked⟩
  · exact .pure ⟨rfl, nofun⟩

theorem leadsOf_records (hworkspace : workspace.isAbsolute = true) {importer : Path}
    (himporter : importer.isAbsolute = true) (es : List Edge) :
    Records (leadsOf host.recorded settings workspace importer es)
      (leadsOf host settings workspace importer es)
      fun leads asked => Asked.readings asked = [] ∧
        ∀ p, some p ∈ leads → Found settings workspace asked p := by
  induction es with
  | nil => exact .pure ⟨rfl, nofun⟩
  | cons e es ih =>
      rw [leadsOf, leadsOf]
      refine Records.bind (target?_records hworkspace himporter e) ?_
      rintro ⟨path, told⟩ asked ⟨hnone, hpath⟩
      refine Records.bind ih ?_
      rintro leads more ⟨hnone', hleads⟩
      refine .pure ?_
      rw [List.append_nil]
      constructor
      · rw [Asked.readings_append, hnone, hnone', List.nil_append]
      · intro p hp
        rcases List.mem_cons.mp hp with rfl | hp
        · exact (hpath p rfl).mono (List.subset_append_left _ _)
        · exact (hleads p hp).mono (List.subset_append_right _ _)

theorem take_records (hworkspace : workspace.isAbsolute = true) {p : Path}
    (hp : p.isAbsolute = true) :
    Records (Visit.take host.recorded settings workspace p) (Visit.take host settings workspace p)
      fun v asked => Asked.readings asked = [(v.path, v.source.text)] ∧
        ∀ q ∈ v.targets, Found settings workspace asked q := by
  unfold Visit.take
  refine Records.bind (Q := fun answer asked => asked = [.read p answer]) (.noted fun _ => rfl) ?_
  rintro (fault | text) _ rfl
  · exact .pure ⟨rfl, nofun⟩
  · refine Records.bind (leadsOf_records hworkspace hp (edges text)) ?_
    rintro leads asked ⟨hnone, hleads⟩
    refine .pure ?_
    rw [List.append_nil]
    constructor
    · rw [Asked.readings_append, hnone]
      rfl
    · intro q hq
      exact (hleads q (Visit.mem_targets.mp hq)).mono (List.subset_append_right _ _)

/-! ## The walk on record -/

/-- A stage of a walk on record, without the record. -/
def Stage.plain (m : Stage (σ × List Asked)) : Stage σ :=
  ⟨m.room, m.queue, m.visits, m.state.1⟩

/-- The account of a walk on record from a root with `cap` visits to spend. -/
structure OnRecord (settings : Settings) (workspace root : Path) (cap : Nat)
    (m : Stage (σ × List Asked)) : Prop where
  spent : m.room + m.visits.length = cap
  readings : Asked.readings m.state.2 = m.visits.map fun v => (v.path, v.source.text)
  nodup : m.paths.Nodup
  queued : ∀ p ∈ m.queue, p = root ∨ Found settings workspace m.state.2 p
  visited : ∀ p ∈ m.paths, p = root ∨ Found settings workspace m.state.2 p
  rooted : m.visits = [] ∧ m.queue = [root] ∨ m.paths.head? = some root

variable {root : Path} {cap : Nat}

theorem OnRecord.start (settings : Settings) (workspace root : Path) (cap : Nat) (s : σ) :
    OnRecord settings workspace root cap (.start cap root (s, [])) where
  spent := rfl
  readings := rfl
  nodup := List.nodup_nil
  queued := fun _ hp => .inl (List.mem_singleton.mp hp)
  visited := nofun
  rooted := .inl ⟨rfl, rfl⟩

theorem OnRecord.pass {room : Nat} {p : Path} {queue : List Path} {visits : List Visit}
    {s : σ × List Asked} (seen : p ∈ visits.map (·.path))
    (h : OnRecord settings workspace root cap ⟨room + 1, p :: queue, visits, s⟩) :
    OnRecord settings workspace root cap ⟨room + 1, queue, visits, s⟩ where
  spent := h.spent
  readings := h.readings
  nodup := h.nodup
  queued := fun q hq => h.queued q (List.mem_cons_of_mem _ hq)
  visited := h.visited
  rooted := by
    refine .inr (h.rooted.resolve_left ?_)
    rintro ⟨rfl, -⟩
    cases seen

theorem OnRecord.visit {room : Nat} {p : Path} {queue : List Path} {visits : List Visit}
    {v : Visit} {s s' : σ} {record asked : List Asked} (hpath : v.path = p)
    (fresh : p ∉ visits.map (·.path))
    (hreadings : Asked.readings asked = [(v.path, v.source.text)])
    (hfound : ∀ q ∈ v.targets, Found settings workspace asked q)
    (h : OnRecord settings workspace root cap ⟨room + 1, p :: queue, visits, (s, record)⟩) :
    OnRecord settings workspace root cap
      ⟨room, queue ++ v.targets.filter fun q => q ∉ (visits ++ [v]).map (·.path),
        visits ++ [v], (s', record ++ asked)⟩ := by
  have keep : ∀ q, q = root ∨ Found settings workspace record q →
      q = root ∨ Found settings workspace (record ++ asked) q :=
    fun q hq => hq.imp_right fun hq => hq.mono (List.subset_append_left _ _)
  have paths : (visits ++ [v]).map (·.path) = visits.map (·.path) ++ [p] := by
    rw [paths_concat, hpath]
  constructor
  case spent =>
    have := h.spent
    simp only [List.length_append, List.length_singleton] at this ⊢
    omega
  case readings =>
    have := h.readings
    rw [Asked.readings_append, this, hreadings, List.map_append]
    rfl
  case nodup =>
    rw [← hpath] at fresh
    exact nodup_paths_concat h.nodup fresh
  case queued =>
    intro q hq
    rcases List.mem_append.mp hq with hq | hq
    · exact keep q (h.queued q (List.mem_cons_of_mem _ hq))
    · exact .inr ((hfound q (List.mem_filter.mp hq).1).mono (List.subset_append_right _ _))
  case visited =>
    intro q hq
    rw [Stage.paths, paths] at hq
    rcases List.mem_append.mp hq with hq | hq
    · exact keep q (h.visited q hq)
    · rw [List.mem_singleton.mp hq]
      exact keep p (h.queued p List.mem_cons_self)
  case rooted =>
    refine .inr ?_
    rw [Stage.paths, paths]
    rcases h.rooted with ⟨hnone, hqueue⟩ | hhead
    · dsimp only at hnone hqueue
      cases hqueue
      rw [hnone]
      rfl
    · rw [List.head?_append]
      change (visits.map (·.path)).head? = some root at hhead
      rw [hhead]
      rfl

/-- A turn on record is a turn without it, and keeps the account. -/
theorem OnRecord.turn (hworkspace : workspace.isAbsolute = true) (hroot : root.isAbsolute = true)
    {m m' : Stage (σ × List Asked)} (turn : m.Turn host.recorded settings workspace m')
    (h : OnRecord settings workspace root cap m) :
    m.plain.Turn host settings workspace m'.plain ∧
      OnRecord settings workspace root cap m' := by
  cases turn with
  | pass seen => exact ⟨.pass seen, h.pass seen⟩
  | @visit room p queue visits s s' v fresh taken =>
      obtain ⟨s, record⟩ := s
      have hp : p.isAbsolute = true := by
        rcases h.queued p List.mem_cons_self with rfl | hp
        · exact hroot
        · exact hp.isAbsolute
      obtain ⟨asked, hrun, hreadings, hfound⟩ : ∃ asked, _ = _ ∧ _ :=
        take_records hworkspace hp s record
      cases taken.symm.trans hrun
      exact ⟨.visit fresh rfl, h.visit (take_path rfl) fresh hreadings hfound⟩

/-- What a walk with a cap asks of its host and what it puts down, whatever the
host answers. -/
structure Orderly (settings : Settings) (current workspace root : Path) (cap : Int)
    (files : List Source) (record : List Asked) : Prop where
  capped : (files.length : Int) ≤ max cap 0
  /-- The texts asked for are those of the files, one after the other. -/
  readings : Asked.readings record = files.map fun f => (f.path, f.text)
  nodup : (files.map (·.path)).Nodup
  /-- No other spelling of a path is visited. -/
  canonical : ∀ f ∈ files, f.path.absoluteFrom current = f.path
  first : ∀ f ∈ files.head?, f.path = root
  others : ∀ f ∈ files.tail, .isFile f.path true ∈ record ∧
    isExcluded settings.excludePaths workspace f.path = false

theorem OnRecord.ne_root {m : Stage (σ × List Asked)}
    (h : OnRecord settings workspace root cap m) {f : Source}
    (hf : f ∈ (m.visits.map (·.source)).tail) : f.path ≠ root := by
  have hnodup := h.nodup
  have hrooted := h.rooted
  rw [Stage.paths] at hnodup hrooted
  cases hvisits : m.visits with
  | nil =>
      rw [hvisits] at hf
      cases hf
  | cons v rest =>
      rw [hvisits] at hf hnodup hrooted
      have hroot : v.path = root := hrooted.elim (fun h => nomatch h.1) Option.some.inj
      have hmem : f.path ∈ rest.map (·.path) := by
        rw [← paths_of_sources]
        exact List.mem_map_of_mem hf
      intro heq
      rw [heq, ← hroot] at hmem
      exact (List.nodup_cons.mp hnodup).1 hmem

theorem OnRecord.orderly {current : Path} {cap : Int} (hroot : root.isAbsolute = true)
    (hcanonical : root.canonical = root) {m : Stage (σ × List Asked)}
    (h : OnRecord settings workspace root cap.toNat m) :
    Orderly settings current workspace root cap (m.visits.map (·.source)) m.state.2 := by
  have hpaths : (m.visits.map (·.source)).map (·.path) = m.paths := paths_of_sources _
  have hmem : ∀ f ∈ m.visits.map (·.source), f.path ∈ m.paths := by
    intro f hf
    rw [← hpaths]
    exact List.mem_map_of_mem hf
  constructor
  case capped =>
    have := h.spent
    rw [List.length_map]
    omega
  case readings =>
    rw [h.readings, List.map_map]
    rfl
  case nodup =>
    rw [hpaths]
    exact h.nodup
  case canonical =>
    intro f hf
    rcases h.visited _ (hmem f hf) with heq | hfound
    · rw [heq]
      exact Path.absoluteFrom_eq_self hroot hcanonical current
    · exact Path.absoluteFrom_eq_self hfound.isAbsolute hfound.canonical current
  case first =>
    intro f hf
    rcases h.rooted with ⟨hnone, -⟩ | hhead
    · rw [hnone] at hf
      cases hf
    · rw [← hpaths, List.head?_map, hf] at hhead
      exact Option.some.inj hhead
  case others =>
    intro f hf
    have hfound : Found settings workspace m.state.2 f.path :=
      (h.visited _ (hmem f (List.mem_of_mem_tail hf))).resolve_left (h.ne_root hf)
    exact ⟨hfound.isFile, hfound.included⟩

theorem OnRecord.turns (hworkspace : workspace.isAbsolute = true) (hroot : root.isAbsolute = true)
    {m m' : Stage (σ × List Asked)} (turns : Stage.Turns host.recorded settings workspace m m')
    (h : OnRecord settings workspace root cap m) :
    Stage.Turns host settings workspace m.plain m'.plain ∧
      OnRecord settings workspace root cap m' := by
  have keep : ∀ a b : Stage (σ × List Asked), a.Turn host.recorded settings workspace b →
      (Stage.Turns host settings workspace m.plain a.plain ∧
        OnRecord settings workspace root cap a) →
      (Stage.Turns host settings workspace m.plain b.plain ∧
        OnRecord settings workspace root cap b) := by
    rintro a b turn ⟨hturns, ha⟩
    obtain ⟨hturn, hb⟩ := ha.turn hworkspace hroot turn
    exact ⟨hturns.tail hturn, hb⟩
  exact turns.invariant keep ⟨.refl, h⟩

/-- Every walk comes to its end, on any host, and is orderly. To keep a record
of the questions changes nothing about it. -/
theorem closure_orderly (host : Host (StateM σ)) (settings : Settings) {current : Path}
    (hcurrent : current.isAbsolute = true) (workspace root : Path) (cap : Int) (s : σ) :
    let workspace := workspace.absoluteFrom current
    let root := root.absoluteFrom current
    let result := (closure host settings workspace root cap).run s
    let onRecord := (closure host.recorded settings workspace root cap).run (s, [])
    (WellFounded fun after before : Stage σ => before.Turn host settings workspace after) ∧
      (∃ last : Stage σ, Stage.Turns host settings workspace (.start cap.toNat root s) last ∧
        last.Ends result) ∧
      (onRecord.1.1 = result.1.1 ∧ onRecord.2.1 = result.2) ∧
      Orderly settings current workspace root cap result.1.1.files onRecord.2.2 := by
  intro workspace root result onRecord
  have hworkspace : workspace.isAbsolute = true := Path.isAbsolute_absoluteFrom hcurrent _
  have hroot : root.isAbsolute = true := Path.isAbsolute_absoluteFrom hcurrent _
  have hcanonical : root.canonical = root := Path.canonical_canonical _
  obtain ⟨last, turns, ends⟩ := closure_turns host settings workspace root cap s
  obtain ⟨lastOnRecord, turnsOnRecord, endsOnRecord⟩ :=
    closure_turns host.recorded settings workspace root cap (s, [])
  obtain ⟨hturns, account⟩ := (OnRecord.start settings workspace root cap.toNat s).turns
    hworkspace hroot turnsOnRecord
  have same : lastOnRecord.plain = last := hturns.unique turns endsOnRecord.isOver ends.isOver
  have files : onRecord.1.1.files = result.1.1.files := by
    rw [endsOnRecord.files, ends.files, ← same]
    rfl
  have truncated : onRecord.1.1.truncated = result.1.1.truncated := by
    rw [endsOnRecord.truncated, ends.truncated, ← same]
    rfl
  have state : onRecord.2.1 = result.2 := by
    rw [endsOnRecord.state, ends.state, ← same]
    rfl
  refine ⟨turn_wellFounded host settings workspace, ⟨last, turns, ends⟩, ⟨?_, state⟩, ?_⟩
  · exact congrArg₂ Closure.mk files truncated
  · rw [← files, endsOnRecord.files, endsOnRecord.state]
    exact account.orderly hroot hcanonical

/-! ## A host without end -/

/-- Every path is a file here, and every file imports one from a directory further down. -/
def endless : Host (StateM Unit) where
  isFile _ := pure true
  read _ := pure (.ok "import \"./a/x.ts\"".toList)

theorem paths_endless {folder p q : Path} (hne : q ≠ p)
    (hp : ((Visit.take endless {} folder p).run ()).1.targets = [q]) :
    ((closure endless {} folder p 2).run ()).1.1.files.map (·.path) = [p, q] := by
  rcases hfirst : (Visit.take endless {} folder p).run () with ⟨v, u⟩
  rcases hsecond : (Visit.take endless {} folder q).run u with ⟨w, t⟩
  rw [hfirst] at hp
  have hv : v.path = p := take_path hfirst
  have hw : w.path = q := take_path hsecond
  have hfresh : q ∉ [v].map (·.path) := by
    rw [List.map_singleton, hv, List.mem_singleton]
    exact hne
  have hqueue : v.targets.filter (fun a => a ∉ [v].map (·.path)) = [q] := by
    rw [hp]
    exact List.filter_eq_self.mpr fun a ha => by
      rw [List.mem_singleton.mp ha]
      exact decide_eq_true hfresh
  have first : Stage.Turn endless {} folder (.start 2 p ()) ⟨1, [q], [v], u⟩ := by
    have hnone : p ∉ ([] : List Visit).map (·.path) := List.not_mem_nil
    have turn : Stage.Turn endless {} folder ⟨1 + 1, [p], [], ()⟩ _ := .visit hnone hfirst
    rwa [List.nil_append, List.nil_append, hqueue] at turn
  have turns : Stage.Turns endless {} folder (.start 2 p ()) ⟨0, _, [v, w], t⟩ :=
    .tail (.single first) (.visit hfresh hsecond)
  obtain ⟨last, turnsToLast, ends⟩ := closure_turns endless {} folder p 2 ()
  have hlast : last = _ := turnsToLast.unique turns ends.isOver (.inl rfl)
  rw [ends.files, paths_of_sources, hlast, ← hv, ← hw]
  rfl

/-- The walk stops all the same, with the two files that the cap allows. -/
theorem closure_orderly_endless :
    let folder := Path.ofString "/w"
    let files := ((closure endless {} folder (.ofString "/w/x.ts") 2).run ()).1.1.files
    let record := ((closure endless.recorded {} folder (.ofString "/w/x.ts") 2).run ((), [])).2.2
    folder.isAbsolute = true ∧
      files.map (·.path) = [.ofString "/w/x.ts", .ofString "/w/a/x.ts"] ∧
      Orderly {} folder folder (.ofString "/w/x.ts") 2 files record := by
  intro folder files record
  have hfolder : folder.isAbsolute = true := by decide +kernel
  refine ⟨hfolder, paths_endless (by decide +kernel) (by decide +kernel), ?_⟩
  have h := (closure_orderly endless {} hfolder folder (.ofString "/w/x.ts") 2 ()).2.2.2
  have hroot : (Path.ofString "/w/x.ts").absoluteFrom folder = .ofString "/w/x.ts" := by
    decide +kernel
  have hworkspace : folder.absoluteFrom folder = folder := by decide +kernel
  rw [hroot, hworkspace] at h
  exact h

end Import

end ColorCensus
