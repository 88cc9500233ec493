import ColorCensus.Proofs.Walk
import Mathlib.Logic.Relation

/-!
# The closure is the set of reachable files

The walk keeps one account of everything it has heard of. Each path in the
queue and each file visited is reachable from the root; the root itself is in
one of the two; and whatever a visited file imports is in one of the two as
well. When the queue runs empty the visited files are therefore closed under
imports, so they are all there is to reach.

The cap is the other way to stop, and the account covers it without change. If
every path left in the queue was visited before, the visited files are closed
all the same, so the answer is complete and is not marked as truncated. A path
left in the queue that was not visited is reachable and missing, and by then
the room is used up, so the visits number what the cap allowed.
-/

namespace ColorCensus.Import

/-- A path is reachable from a root along imports, the root itself included. -/
def Reachable (host : Host Id) (settings : Settings) (workspace root p : Path) : Prop :=
  Relation.ReflTransGen (Imports host settings workspace) root p

variable {host : Host Id} {settings : Settings} {workspace root : Path}

/-- The account of the walk from a root with `cap` visits to spend. -/
structure Accounted (host : Host Id) (settings : Settings) (workspace root : Path)
    (cap : Nat) (m : Moment) : Prop where
  queued : ∀ p ∈ m.queue, Reachable host settings workspace root p
  visited : ∀ p ∈ m.paths, Reachable host settings workspace root p
  rooted : root ∈ m.queue ∨ root ∈ m.paths
  closed : ∀ p ∈ m.paths, ∀ q, Imports host settings workspace p q →
    q ∈ m.queue ∨ q ∈ m.paths
  spent : m.room + m.files.length = cap

theorem Accounted.start (host : Host Id) (settings : Settings) (workspace root : Path)
    (cap : Nat) : Accounted host settings workspace root cap ⟨cap, [root], []⟩ where
  queued := by
    intro p hp
    rw [List.mem_singleton] at hp
    subst hp
    exact .refl
  visited := by simp [Moment.paths]
  rooted := .inl List.mem_cons_self
  closed := by simp [Moment.paths]
  spent := rfl

/-- A path that is passed over is among the visited ones, so dropping it from
the queue loses nothing. -/
theorem Accounted.pass {cap room : Nat} {p : Path} {queue : List Path}
    {files : List Source} (hp : p ∈ files.map (·.path))
    (h : Accounted host settings workspace root cap ⟨room + 1, p :: queue, files⟩) :
    Accounted host settings workspace root cap ⟨room + 1, queue, files⟩ := by
  have stay : ∀ q, q ∈ p :: queue ∨ q ∈ files.map (·.path) →
      q ∈ queue ∨ q ∈ files.map (·.path) := by
    rintro q (hq | hq)
    · rcases List.mem_cons.mp hq with rfl | hq
      · exact .inr hp
      · exact .inl hq
    · exact .inr hq
  exact {
    queued := fun q hq => h.queued q (List.mem_cons_of_mem _ hq)
    visited := h.visited
    rooted := stay root h.rooted
    closed := fun a ha q hq => stay q (h.closed a ha q hq)
    spent := h.spent }

/-- A visit moves its path from the queue to the visited ones and queues what
the path imports, apart from what is visited already. -/
theorem Accounted.visit {cap room : Nat} {p : Path} {queue : List Path}
    {files : List Source}
    (h : Accounted host settings workspace root cap ⟨room + 1, p :: queue, files⟩) :
    Accounted host settings workspace root cap
      ⟨room,
        queue ++ (imported host settings workspace p).filter
          fun q => q ∉ (files ++ [Import.visit host workspace p]).map (·.path),
        files ++ [Import.visit host workspace p]⟩ := by
  have paths : (files ++ [Import.visit host workspace p]).map (·.path) =
      files.map (·.path) ++ [p] := by simp [Import.visit]
  have hp : Reachable host settings workspace root p := h.queued p List.mem_cons_self
  have stay : ∀ q, q ∈ p :: queue ∨ q ∈ files.map (·.path) →
      q ∈ queue ∨ q ∈ files.map (·.path) ++ [p] := by
    rintro q (hq | hq)
    · rcases List.mem_cons.mp hq with rfl | hq
      · exact .inr (List.mem_append_right _ List.mem_cons_self)
      · exact .inl hq
    · exact .inr (List.mem_append_left _ hq)
  rw [paths]
  constructor
  case queued =>
    intro q hq
    rcases List.mem_append.mp hq with hq | hq
    · exact h.queued q (List.mem_cons_of_mem _ hq)
    · exact hp.tail (mem_imported.mp (List.mem_filter.mp hq).1)
  case visited =>
    intro q hq
    rw [Moment.paths, paths] at hq
    rcases List.mem_append.mp hq with hq | hq
    · exact h.visited q hq
    · rw [List.mem_singleton.mp hq]
      exact hp
  case rooted =>
    rw [Moment.paths, paths]
    rcases stay root h.rooted with hr | hr
    · exact .inl (List.mem_append_left _ hr)
    · exact .inr hr
  case closed =>
    intro a ha q hq
    rw [Moment.paths, paths] at ha ⊢
    by_cases hv : q ∈ files.map (·.path) ++ [p]
    · exact .inr hv
    · refine .inl ?_
      rcases List.mem_append.mp ha with ha | ha
      · have hs := (stay q (h.closed a ha q hq)).resolve_right hv
        exact List.mem_append_left _ hs
      · rw [List.mem_singleton.mp ha] at hq
        refine List.mem_append_right _ (List.mem_filter.mpr ⟨mem_imported.mpr hq, ?_⟩)
        exact decide_eq_true hv
  case spent =>
    have := h.spent
    simp only [List.length_append, List.length_cons, List.length_nil] at this ⊢
    omega

theorem Accounted.turn {cap : Nat} {m m' : Moment}
    (turn : m.Turn host settings workspace m')
    (h : Accounted host settings workspace root cap m) :
    Accounted host settings workspace root cap m' := by
  cases turn with
  | pass hp => exact h.pass hp
  | visit _ => exact h.visit

/-- Once every path in the queue was visited, nothing reachable is missing. -/
theorem Accounted.complete {cap : Nat} {m : Moment}
    (h : Accounted host settings workspace root cap m)
    (done : ∀ p ∈ m.queue, p ∈ m.paths) {p : Path}
    (hp : Reachable host settings workspace root p) : p ∈ m.paths := by
  have settle : ∀ q, q ∈ m.queue ∨ q ∈ m.paths → q ∈ m.paths :=
    fun q hq => hq.elim (done q) id
  induction hp with
  | refl => exact settle root h.rooted
  | tail _ hq ih => exact settle _ (h.closed _ ih _ hq)

/-- The files of a closure are reachable from the root; they are all that is
reachable unless the closure is marked as truncated; it is marked exactly when
something reachable is missing; and then the cap was used up. -/
theorem closure_exact (host : Host Id) (settings : Settings) (workspace root : Path)
    (cap : Int) :
    let graph := closureOf host settings workspace root cap
    let paths := graph.files.map (·.path)
    (∀ p ∈ paths, Reachable host settings workspace root p) ∧
      (graph.truncated = false →
        ∀ p, p ∈ paths ↔ Reachable host settings workspace root p) ∧
      (graph.truncated = true ↔
        ∃ p, Reachable host settings workspace root p ∧ p ∉ paths) ∧
      (graph.truncated = true → (graph.files.length : Int) = max cap 0) := by
  intro graph paths
  obtain ⟨m, h, stopped, hf, ht⟩ := closureOf_invariant
    (fun _ _ turn h => Accounted.turn turn h)
    (Accounted.start host settings workspace root cap.toNat)
  have hpaths : paths = m.paths := by rw [Moment.paths, hf]
  have complete : graph.truncated = false →
      ∀ p, Reachable host settings workspace root p → p ∈ m.paths := by
    intro hfalse p hp
    refine h.complete (fun q hq => Classical.byContradiction fun hmissing => ?_) hp
    have htrue : graph.truncated = true := ht.mpr ⟨q, hq, hmissing⟩
    rw [hfalse] at htrue
    exact Bool.noConfusion htrue
  rw [hpaths]
  refine ⟨h.visited, fun hfalse p => ⟨h.visited p, complete hfalse p⟩, ⟨?_, ?_⟩, ?_⟩
  · intro htrue
    obtain ⟨p, hq, hp⟩ := ht.mp htrue
    exact ⟨p, h.queued p hq, hp⟩
  · rintro ⟨p, hr, hp⟩
    refine Classical.byContradiction fun hfalse => ?_
    exact hp (complete (Bool.eq_false_iff.mpr hfalse) p hr)
  · intro htrue
    obtain ⟨p, hq, -⟩ := ht.mp htrue
    have hroom : m.room = 0 :=
      stopped.resolve_right fun hnil => List.not_mem_nil (hnil ▸ hq)
    have hspent := h.spent
    rw [hroom, hf] at hspent
    change 0 + graph.files.length = cap.toNat at hspent
    omega

end ColorCensus.Import
