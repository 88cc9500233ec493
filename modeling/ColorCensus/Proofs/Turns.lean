import ColorCensus.Import.Closure
import Mathlib.Data.List.ReduceOption
import Mathlib.Logic.Relation

/-!
# The walk over a host that changes

A host may give another answer each time it is asked: files come and go while
the walk is on. Such a host has a state, and every question takes the state on.
What an edge leads to is then no fact about the host but about the moment at
which the edge was followed, so a visit keeps it next to the file.

A `Stage` is the walk between two turns and `Stage.Turn` is one turn of the
loop, which passes over the head of the queue or visits it. A turn either uses
up room or leaves the room as it is and shortens the queue, so no walk goes on
forever (`turn_wellFounded`), however many files a host comes up with. The walk
of the library is the end of such turns (`closure_turns`), and whatever every
turn keeps holds there (`Stage.Turn.invariant`).
-/

namespace ColorCensus.Import

/-- A file visited, with what each of its edges led to when it was visited. -/
structure Visit where
  source : Source
  leads : List (Option Path)

namespace Visit

def path (v : Visit) : Path := v.source.path

/-- The paths that a visit led to, in the order of the edges. -/
def targets (v : Visit) : List Path := v.leads.reduceOption

theorem mem_targets {v : Visit} {p : Path} : p ∈ v.targets ↔ some p ∈ v.leads :=
  List.reduceOption_mem_iff

end Visit

section

variable {m : Type → Type} [Monad m]

/-- What edges lead to, asked for one after the other. -/
def leadsOf (host : Host m) (settings : Settings) (workspace importer : Path) :
    List Edge → m (List (Option Path))
  | [] => pure []
  | edge :: rest => do
      let (path, _) ← target? host settings workspace importer edge
      let paths ← leadsOf host settings workspace importer rest
      pure (path :: paths)

/-- A visit to a path: its text is read, and then its edges are followed. -/
def Visit.take (host : Host m) (settings : Settings) (workspace p : Path) : m Visit := do
  let answer ← host.read p
  let leads ← match answer with
    | .error _ => pure []
    | .ok text => leadsOf host settings workspace p (edges text)
  pure ⟨{ path := p, label := host.label workspace p, text := answer.toOption }, leads⟩

end

variable {σ : Type} {host : Host (StateM σ)} {settings : Settings} {workspace : Path}

theorem run_bind {α β : Type} {x : StateM σ α} {a : α} {s s' : σ} (h : x.run s = (a, s'))
    (f : α → StateM σ β) : (x >>= f).run s = (f a).run s' := by
  rw [StateT.run_bind, h]
  rfl

theorem targets_run (importer : Path) (es : List Edge) {s s' : σ} {leads : List (Option Path)}
    (h : (leadsOf host settings workspace importer es).run s = (leads, s')) :
    ∃ told, (targets host settings workspace importer es).run s =
      ((leads.reduceOption, told), s') := by
  induction es generalizing s s' leads with
  | nil =>
      cases h
      exact ⟨[], rfl⟩
  | cons e es ih =>
      rcases hedge : (target? host settings workspace importer e).run s with ⟨⟨path, told⟩, t⟩
      rcases hrest : (leadsOf host settings workspace importer es).run t with ⟨paths, t'⟩
      obtain ⟨toldOfRest, htargets⟩ := ih hrest
      rw [leadsOf, run_bind hedge, run_bind hrest] at h
      cases h
      refine ⟨told ++ toldOfRest, ?_⟩
      rw [targets, run_bind hedge, run_bind htargets]
      cases path with
      | none => rfl
      | some q => rfl

/-! ## Turns -/

/-- The walk between two turns: the visits left, the paths to visit, the visits
made, and the state of the host. -/
structure Stage (σ : Type) where
  room : Nat
  queue : List Path
  visits : List Visit
  state : σ

namespace Stage

def paths (m : Stage σ) : List Path := m.visits.map (·.path)

/-- Nothing is left to do, or no room is left to do it. -/
def IsOver (m : Stage σ) : Prop := m.room = 0 ∨ m.queue = []

/-- A turn takes the head of the queue while there is room. -/
inductive Turn (host : Host (StateM σ)) (settings : Settings) (workspace : Path) :
    Stage σ → Stage σ → Prop
  | pass {room : Nat} {p : Path} {queue : List Path} {visits : List Visit} {s : σ}
      (seen : p ∈ visits.map (·.path)) :
      Turn host settings workspace ⟨room + 1, p :: queue, visits, s⟩ ⟨room + 1, queue, visits, s⟩
  | visit {room : Nat} {p : Path} {queue : List Path} {visits : List Visit} {s s' : σ}
      {v : Visit} (fresh : p ∉ visits.map (·.path))
      (taken : (Visit.take host settings workspace p).run s = (v, s')) :
      Turn host settings workspace ⟨room + 1, p :: queue, visits, s⟩
        ⟨room, queue ++ v.targets.filter fun q => q ∉ (visits ++ [v]).map (·.path),
          visits ++ [v], s'⟩

/-- The stages that a walk comes to from another one. -/
def Turns (host : Host (StateM σ)) (settings : Settings) (workspace : Path) :
    Stage σ → Stage σ → Prop :=
  Relation.ReflTransGen (Turn host settings workspace)

/-- The stage at which a walk with some visits to spend starts. -/
def start (room : Nat) (root : Path) (s : σ) : Stage σ := ⟨room, [root], [], s⟩

theorem Turns.invariant {Inv : Stage σ → Prop}
    (keep : ∀ m m', Turn host settings workspace m m' → Inv m → Inv m') {m m' : Stage σ}
    (turns : Turns host settings workspace m m') (h : Inv m) : Inv m' := by
  induction turns with
  | refl => exact h
  | tail _ turn ih => exact keep _ _ turn ih

theorem IsOver.no_turn {m m' : Stage σ} (h : m.IsOver) :
    ¬ Turn host settings workspace m m' := by
  rintro (_ | _)
  · exact h.elim (Nat.succ_ne_zero _) (List.cons_ne_nil _ _)
  · exact h.elim (Nat.succ_ne_zero _) (List.cons_ne_nil _ _)

theorem turn_rightUnique : Relator.RightUnique (Turn host settings workspace) := by
  intro m a b ha hb
  cases ha with
  | pass seen =>
      cases hb with
      | pass _ => rfl
      | visit fresh _ => exact absurd seen fresh
  | visit fresh taken =>
      cases hb with
      | pass seen => exact absurd seen fresh
      | visit _ taken' =>
          cases taken.symm.trans taken'
          rfl

/-- A walk comes to one end. -/
theorem Turns.unique {m a b : Stage σ} (ha : Turns host settings workspace m a)
    (hb : Turns host settings workspace m b) (overA : a.IsOver) (overB : b.IsOver) : a = b := by
  rcases Relation.ReflTransGen.total_of_right_unique turn_rightUnique ha hb with h | h
  · rcases h.cases_head with rfl | ⟨_, turn, -⟩
    · rfl
    · exact absurd turn overA.no_turn
  · rcases h.cases_head with rfl | ⟨_, turn, -⟩
    · rfl
    · exact absurd turn overB.no_turn

end Stage

/-- No walk goes on forever. Room and queue go down lexicographically: a visit
may queue any number of paths, but it costs a unit of the room. -/
theorem turn_wellFounded (host : Host (StateM σ)) (settings : Settings) (workspace : Path) :
    WellFounded fun after before : Stage σ => before.Turn host settings workspace after := by
  have lex : WellFounded (Prod.Lex (· < ·) (· < ·) : Nat × Nat → Nat × Nat → Prop) :=
    (Prod.lex Nat.lt_wfRel Nat.lt_wfRel).wf
  refine Subrelation.wf ?_ (InvImage.wf (fun m : Stage σ => (m.room, m.queue.length)) lex)
  intro after before turn
  cases turn with
  | pass _ => exact .right _ (Nat.lt_succ_self _)
  | visit _ _ => exact .left _ _ (Nat.lt_succ_self _)

theorem take_source {p : Path} {s s' : σ} {v : Visit}
    (taken : (Visit.take host settings workspace p).run s = (v, s')) :
    v.path = p ∧ v.source.label = host.label workspace p := by
  rw [Visit.take] at taken
  rcases hread : (host.read p).run s with ⟨fault | text, t⟩
  · rw [run_bind hread] at taken
    cases taken
    exact ⟨rfl, rfl⟩
  · rcases hleads : (leadsOf host settings workspace p (edges text)).run t with ⟨leads, t'⟩
    rw [run_bind hread] at taken
    dsimp only at taken
    rw [run_bind hleads] at taken
    cases taken
    exact ⟨rfl, rfl⟩

theorem take_path {p : Path} {s s' : σ} {v : Visit}
    (taken : (Visit.take host settings workspace p).run s = (v, s')) : v.path = p :=
  (take_source taken).1

theorem paths_concat (visits : List Visit) (v : Visit) :
    (visits ++ [v]).map (·.path) = visits.map (·.path) ++ [v.path] := List.map_append

theorem nodup_paths_concat {visits : List Visit} {v : Visit}
    (h : (visits.map (·.path)).Nodup) (fresh : v.path ∉ visits.map (·.path)) :
    ((visits ++ [v]).map (·.path)).Nodup := by
  rw [paths_concat]
  refine List.nodup_append.mpr ⟨h, List.pairwise_singleton _ _, fun a ha b hb hab => ?_⟩
  rw [hab, List.mem_singleton.mp hb] at ha
  exact fresh ha

/-! ## The walk takes turns -/

theorem paths_of_sources (visits : List Visit) :
    (visits.map (·.source)).map (·.path) = visits.map (·.path) := by
  rw [List.map_map]
  rfl

theorem walk_visit {p : Path} (room : Nat) (queue : List Path) {visits : List Visit}
    (told : List Log.Event) {s s' : σ} {v : Visit} (fresh : p ∉ visits.map (·.path))
    (taken : (Visit.take host settings workspace p).run s = (v, s')) :
    ∃ told',
      (walk host settings workspace (room + 1) (p :: queue) (visits.map (·.source)) told).run s =
        (walk host settings workspace room
          (queue ++ v.targets.filter fun q => q ∉ (visits ++ [v]).map (·.path))
          ((visits ++ [v]).map (·.source)) told').run s' := by
  rw [Visit.take] at taken
  rw [walk, paths_of_sources, if_neg fresh]
  rcases hread : (host.read p).run s with ⟨fault | text, t⟩
  · rw [run_bind hread] at taken ⊢
    cases taken
    refine ⟨told ++ [.unreadable (host.label workspace p) fault], ?_⟩
    rw [Visit.targets, List.reduceOption_nil, List.filter_nil, List.append_nil, List.map_append]
    rfl
  · rcases hleads : (leadsOf host settings workspace p (edges text)).run t with ⟨leads, t'⟩
    rw [run_bind hread] at taken ⊢
    dsimp only at taken ⊢
    obtain ⟨toldOfEdges, htargets⟩ := targets_run p (edges text) hleads
    rw [run_bind hleads] at taken
    cases taken
    refine ⟨told ++ toldOfEdges, ?_⟩
    rw [run_bind htargets]
    simp only [List.map_append, paths_of_sources]
    rfl

/-- A stage is what a computation of a closure leaves behind: its files, its
mark, and the state of the host. -/
structure Stage.Ends (m : Stage σ) (result : (Closure × List Log.Event) × σ) : Prop where
  isOver : m.IsOver
  files : result.1.1.files = m.visits.map (·.source)
  truncated : result.1.1.truncated = m.queue.any fun p => p ∉ m.paths
  state : result.2 = m.state

/-- A walk is the end of turns. The induction is on the room and, for the paths
passed over, on the queue. -/
theorem walk_turns {room : Nat} {queue : List Path} {visits : List Visit}
    {told : List Log.Event} {s : σ} :
    ∃ last : Stage σ, Stage.Turns host settings workspace ⟨room, queue, visits, s⟩ last ∧
      last.Ends
        ((walk host settings workspace room queue (visits.map (·.source)) told).run s) := by
  induction room generalizing queue visits told s with
  | zero =>
      cases queue with
      | nil =>
          rw [walk]
          exact ⟨_, .refl, .inl rfl, rfl, rfl, rfl⟩
      | cons p queue =>
          rw [walk.eq_def]
          dsimp only
          rw [paths_of_sources]
          exact ⟨_, .refl, .inl rfl, rfl, rfl, rfl⟩
  | succ room ihRoom =>
      induction queue generalizing visits told s with
      | nil =>
          rw [walk]
          exact ⟨_, .refl, .inr rfl, rfl, rfl, rfl⟩
      | cons p queue ihQueue =>
          by_cases hp : p ∈ visits.map (·.path)
          · rw [walk, paths_of_sources, if_pos hp]
            obtain ⟨last, turns, ends⟩ : ∃ last, _ ∧ _ := ihQueue
            exact ⟨last, .head (.pass hp) turns, ends⟩
          · rcases htaken : (Visit.take host settings workspace p).run s with ⟨v, s'⟩
            obtain ⟨told', hwalk⟩ := walk_visit room queue told hp htaken
            rw [hwalk]
            obtain ⟨last, turns, ends⟩ : ∃ last, _ ∧ _ := ihRoom
            exact ⟨last, .head (.visit hp htaken) turns, ends⟩

/-- A closure is the end of the turns from its root. -/
theorem closure_turns (host : Host (StateM σ)) (settings : Settings) (workspace root : Path)
    (cap : Int) (s : σ) :
    ∃ last : Stage σ, Stage.Turns host settings workspace (.start cap.toNat root s) last ∧
      last.Ends ((closure host settings workspace root cap).run s) := by
  obtain ⟨last, turns, ends⟩ : ∃ last : Stage σ,
      Stage.Turns host settings workspace ⟨cap.toNat, [root], [], s⟩ last ∧
        last.Ends ((walk host settings workspace cap.toNat [root] [] []).run s) := walk_turns
  exact ⟨last, turns, ends.isOver, ends.files, ends.truncated, ends.state⟩

end ColorCensus.Import
