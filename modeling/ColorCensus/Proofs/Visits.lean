import ColorCensus.Proofs.Labels
import ColorCensus.Proofs.Pass
import ColorCensus.Proofs.Record
import ColorCensus.Proofs.Steady

/-!
# A pass over a host that changes

A pass puts two kinds of questions to its host: whether the root is a file, and
then those of the walk. On a host that changes, the walk sets out from the state
that the first answer left behind (`graphFrom`), and the result of the pass is
that of the graph so found (`take_result`).

What such a walk puts down can be relied on as much as on a host that stays the
same. The files have distinct paths, all of them absolute, and each is labelled
as the host labels its path (`Placed`). So if the host labels paths by where
they are, no two files of a pass have the same label (`graphFrom_labels`).
-/

namespace ColorCensus

variable {σ : Type} {host : Host (StateM σ)} {workspace root : Path}

namespace Import

variable {settings : Settings}

/-- The paths that a walk holds are absolute, and its files are labelled by
theirs. -/
structure Placed (host : Host (StateM σ)) (workspace : Path) (m : Stage σ) : Prop where
  queued : ∀ p ∈ m.queue, p.isAbsolute = true
  visited : ∀ p ∈ m.paths, p.isAbsolute = true
  labelled : ∀ v ∈ m.visits, v.source.label = host.label workspace v.path

theorem Placed.start (hroot : root.isAbsolute = true) (room : Nat) (s : σ) :
    Placed host workspace (.start room root s) where
  queued := by
    intro p hp
    rw [List.mem_singleton.mp hp]
    exact hroot
  visited := nofun
  labelled := nofun

theorem isAbsolute_of_mem_targets (hworkspace : workspace.isAbsolute = true) {p : Path}
    (hp : p.isAbsolute = true) {s s' : σ} {v : Visit}
    (taken : (Visit.take host settings workspace p).run s = (v, s')) :
    ∀ q ∈ v.targets, q.isAbsolute = true := by
  have hrecords : Records (Visit.take host.recorded settings workspace p)
      (Visit.take host settings workspace p) _ := take_records hworkspace hp
  obtain ⟨asked, -, -, hfound⟩ := hrecords s []
  rw [taken] at hfound
  exact fun q hq => (hfound q hq).isAbsolute

theorem Placed.turn (hworkspace : workspace.isAbsolute = true) {m m' : Stage σ}
    (turn : m.Turn host settings workspace m') (h : Placed host workspace m) :
    Placed host workspace m' := by
  cases turn with
  | pass seen =>
      exact ⟨fun q hq => h.queued q (List.mem_cons_of_mem _ hq), h.visited, h.labelled⟩
  | @visit room p queue visits s s' v fresh taken =>
      obtain ⟨rfl, hlabel⟩ := take_source taken
      have hp : v.path.isAbsolute = true := h.queued _ List.mem_cons_self
      constructor
      case queued =>
        intro q hq
        rcases List.mem_append.mp hq with hq | hq
        · exact h.queued q (List.mem_cons_of_mem _ hq)
        · exact isAbsolute_of_mem_targets hworkspace hp taken q (List.mem_filter.mp hq).1
      case visited =>
        intro q hq
        rw [Stage.paths, paths_concat, List.mem_append, List.mem_singleton] at hq
        rcases hq with hq | rfl
        · exact h.visited q hq
        · exact hp
      case labelled =>
        intro w hw
        rw [List.mem_append, List.mem_singleton] at hw
        rcases hw with hw | rfl
        · exact h.labelled w hw
        · exact hlabel

theorem Placed.turns (hworkspace : workspace.isAbsolute = true) (hroot : root.isAbsolute = true)
    {room : Nat} {s : σ} {last : Stage σ}
    (turns : Stage.Turns host settings workspace (.start room root s) last) :
    Placed host workspace last :=
  turns.invariant (fun _ _ turn h => h.turn hworkspace turn) (.start hroot room s)

end Import

namespace Census

variable {settings : Settings} {cap : Option Int}

/-- The import graph of a pass over a host that changes. -/
def graphFrom (host : Host (StateM σ)) (settings : Settings) (workspace root : Path)
    (cap : Option Int) (s : σ) : Import.Closure :=
  ((Import.closure host settings.imports workspace root
    (cap.getD settings.imports.maxFiles)).run ((host.isFile root).run s).2).1.1

theorem take_result (s : σ) :
    ((take host settings workspace root cap).run s).1.1 =
      if ((host.isFile root).run s).1 then
        (ofClosure settings (host.label workspace root)
          (graphFrom host settings workspace root cap s)).map (·.1)
      else .error (.rootMissing root) := by
  rw [take, graphFrom]
  rcases hroot : (host.isFile root).run s with ⟨answer, t⟩
  rw [Import.run_bind hroot]
  cases answer with
  | false => rfl
  | true =>
      rcases hwalk : (Import.closure host settings.imports workspace root
        (cap.getD settings.imports.maxFiles)).run t with ⟨⟨graph, told⟩, t'⟩
      rw [if_pos rfl, if_pos rfl, Import.run_bind hwalk]
      dsimp only
      cases ofClosure settings (host.label workspace root) graph with
      | error fault => rfl
      | ok result => rfl

theorem take_result_eq_ok {s : σ} {inventory : Inventory}
    (h : ((take host settings workspace root cap).run s).1.1 = .ok inventory) :
    ∃ scanned, scannedOver settings (graphFrom host settings workspace root cap s).files =
        some scanned ∧
      inventory = inventoryOf settings (host.label workspace root)
        (graphFrom host settings workspace root cap s) scanned := by
  rw [take_result] at h
  split at h
  · refine ofClosure_eq_ok_iff.mp ?_
    cases hresult : ofClosure settings (host.label workspace root)
        (graphFrom host settings workspace root cap s) with
    | error fault =>
        rw [hresult] at h
        cases h
    | ok result =>
        rw [hresult] at h
        cases h
        exact ⟨result.2, rfl⟩
  · cases h

theorem graphFrom_steady {host : Host Id} (s : σ) :
    graphFrom host.steady settings workspace root cap s =
      graphIn host settings workspace root cap := by
  rw [graphFrom, Import.closure_steady]
  rfl

/-- On a host whose answers stay the same it is the pass that asks no state. -/
theorem take_steady {host : Host Id} {s : σ} :
    ((take host.steady settings workspace root cap).run s).1.1 =
      (take host settings workspace root cap).run.1 := by
  rw [take_result, take_run, graphFrom_steady]
  rfl

theorem graphFrom_visits (host : Host (StateM σ)) (settings : Settings) (workspace root : Path)
    (cap : Option Int) (s : σ) :
    ∃ (room : Nat) (t : σ) (last : Import.Stage σ),
      Import.Stage.Turns host settings.imports workspace (.start room root t) last ∧
        (graphFrom host settings workspace root cap s).files = last.visits.map (·.source) := by
  obtain ⟨last, turns, ends⟩ := Import.closure_turns host settings.imports workspace root
    (cap.getD settings.imports.maxFiles) ((host.isFile root).run s).2
  exact ⟨_, _, last, turns, ends.files⟩

theorem graphFrom_nodup (s : σ) :
    ((graphFrom host settings workspace root cap s).files.map (·.path)).Nodup := by
  obtain ⟨room, t, last, turns, hfiles⟩ := graphFrom_visits host settings workspace root cap s
  rw [hfiles, Import.paths_of_sources]
  exact (Import.Heard.turns turns).nodup

theorem graphFrom_agree {s : σ} : ∀ f ∈ (graphFrom host settings workspace root cap s).files,
    ∀ g ∈ (graphFrom host settings workspace root cap s).files, f.Agree g := by
  intro f hf g hg hpath
  rw [List.inj_on_of_nodup_map (graphFrom_nodup s) hf hg hpath]

theorem graphFrom_labels {base : Path}
    (hlabel : ∀ p, host.label workspace p = Path.label base p)
    (hworkspace : workspace.isAbsolute = true) (hroot : root.isAbsolute = true) (s : σ) :
    ((graphFrom host settings workspace root cap s).files.map (·.label)).Nodup := by
  obtain ⟨room, t, last, turns, hfiles⟩ := graphFrom_visits host settings workspace root cap s
  have nodup : last.paths.Nodup := (Import.Heard.turns turns).nodup
  have placed := Import.Placed.turns hworkspace hroot turns
  have hlabels : (last.visits.map (·.source)).map (·.label) =
      last.paths.map (Path.label base) := by
    rw [Import.Stage.paths, List.map_map, List.map_map]
    refine List.map_congr_left fun v hv => ?_
    exact (placed.labelled v hv).trans (hlabel v.path)
  rw [hfiles, hlabels]
  exact nodup.map_on fun p hp q hq h =>
    Path.label_injOn (placed.visited p hp) (placed.visited q hq) h

end Census

end ColorCensus
