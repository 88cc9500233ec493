import ColorCensus.Import.Closure

/-!
# One turn of the walk

The walk asks a host in some monad. Over a host whose answers stay the same
the monad is the identity, and the walk becomes a sequence of turns: the path
at the head of the queue is either passed over, because it was visited before,
or visited, and then what it imports joins the end of the queue.

`Moment.Turn` is that step and says everything a turn can do. `walk_invariant`
is the induction over a whole walk: what every turn keeps holds of the moment
at which the walk stops. Facts about the files of a closure follow from it with
one case for each kind of turn, so none of them opens `walk` again.
-/

namespace ColorCensus

/-- The text of a path, on a host whose answers stay the same. -/
def Host.text? (host : Host Id) (p : Path) : Option (List Char) :=
  (host.read p).run.toOption

namespace Import

/-- The file that an edge leads to. -/
def leadsTo? (host : Host Id) (settings : Settings) (workspace importer : Path)
    (edge : Edge) : Option Path :=
  (target? host settings workspace importer edge).run.1

/-- A path imports another if its text can be read and some edge of the text
leads there. -/
def Imports (host : Host Id) (settings : Settings) (workspace p q : Path) : Prop :=
  ∃ text, host.text? p = some text ∧
    ∃ edge ∈ edges text, leadsTo? host settings workspace p edge = some q

/-- The paths that a path imports, in the order of the edges. -/
def imported (host : Host Id) (settings : Settings) (workspace p : Path) : List Path :=
  match host.text? p with
  | none => []
  | some text => (edges text).filterMap (leadsTo? host settings workspace p)

/-- The file that a visit to a path puts down. -/
def visit (host : Host Id) (workspace p : Path) : Source :=
  { path := p, label := host.label workspace p, text := host.text? p }

/-- The import closure over a host whose answers stay the same. -/
def closureOf (host : Host Id) (settings : Settings) (workspace root : Path)
    (cap : Int) : Closure :=
  (closure host settings workspace root cap).run.1

variable {host : Host Id} {settings : Settings} {workspace : Path}

theorem mem_imported {p q : Path} :
    q ∈ imported host settings workspace p ↔ Imports host settings workspace p q := by
  unfold imported Imports
  cases host.text? p with
  | none => simp
  | some text => simp

theorem targets_fst (importer : Path) (es : List Edge) :
    (targets host settings workspace importer es).run.1 =
      es.filterMap (leadsTo? host settings workspace importer) := by
  induction es with
  | nil => rfl
  | cons e es ih =>
      have h : (targets host settings workspace importer (e :: es)).run.1 =
          (leadsTo? host settings workspace importer e).toList ++
            (targets host settings workspace importer es).run.1 := rfl
      rw [h, ih, List.filterMap_cons]
      cases leadsTo? host settings workspace importer e with
      | none => rfl
      | some q => rfl

/-! ## The equations of the walk

What the walk tells on its way decides nothing, so the second equation leaves
it open. -/

theorem walk_visited {p : Path} {room : Nat} {queue : List Path}
    {files : List Source} {told : List Log.Event} (h : p ∈ files.map (·.path)) :
    walk host settings workspace (room + 1) (p :: queue) files told =
      walk host settings workspace (room + 1) queue files told := by
  rw [walk, if_pos h]

theorem walk_fresh {p : Path} (room : Nat) (queue : List Path) {files : List Source}
    (told : List Log.Event) (h : p ∉ files.map (·.path)) :
    ∃ told', walk host settings workspace (room + 1) (p :: queue) files told =
      walk host settings workspace room
        (queue ++ (imported host settings workspace p).filter
          fun q => q ∉ (files ++ [visit host workspace p]).map (·.path))
        (files ++ [visit host workspace p]) told' := by
  rw [walk, if_neg h]
  cases hr : (host.read p).run with
  | error fault =>
      have ht : host.text? p = none := by rw [Host.text?, hr]; rfl
      have hv : visit host workspace p =
          { path := p, label := host.label workspace p, text := none } := by
        simp [visit, ht]
      have hi : imported host settings workspace p = [] := by simp [imported, ht]
      rw [hi, hv]
      refine ⟨told ++ [.unreadable (host.label workspace p) fault], ?_⟩
      change host.read p = _ at hr
      simp only [bind, hr, List.filter_nil, List.append_nil]
  | ok text =>
      have ht : host.text? p = some text := by rw [Host.text?, hr]; rfl
      have hv : visit host workspace p =
          { path := p, label := host.label workspace p, text := some text } := by
        simp [visit, ht]
      have hi : imported host settings workspace p =
          (targets host settings workspace p (edges text)).run.1 := by
        rw [targets_fst, imported, ht]
      rw [hi, hv]
      refine ⟨told ++ (targets host settings workspace p (edges text)).run.2, ?_⟩
      change host.read p = _ at hr
      simp only [bind, hr]
      rfl

/-! ## Turns -/

/-- A moment of the walk: the visits left, the paths to visit, and the files
visited so far. -/
structure Moment where
  room : Nat
  queue : List Path
  files : List Source

def Moment.paths (m : Moment) : List Path := m.files.map (·.path)

/-- A turn of the walk takes the head of the queue while there is room. -/
inductive Moment.Turn (host : Host Id) (settings : Settings) (workspace : Path) :
    Moment → Moment → Prop
  | pass {room : Nat} {p : Path} {queue : List Path} {files : List Source}
      (h : p ∈ files.map (·.path)) :
      Turn host settings workspace ⟨room + 1, p :: queue, files⟩ ⟨room + 1, queue, files⟩
  | visit {room : Nat} {p : Path} {queue : List Path} {files : List Source}
      (h : p ∉ files.map (·.path)) :
      Turn host settings workspace ⟨room + 1, p :: queue, files⟩
        ⟨room,
          queue ++ (imported host settings workspace p).filter
            fun q => q ∉ (files ++ [Import.visit host workspace p]).map (·.path),
          files ++ [Import.visit host workspace p]⟩

/-- What every turn keeps holds when the walk stops: without room or without a
queue, and truncated exactly if a path in the queue was never visited. The
induction is on the room and, for the paths passed over, on the queue. -/
theorem walk_invariant {Inv : Moment → Prop}
    (keep : ∀ m m', m.Turn host settings workspace m' → Inv m → Inv m') :
    ∀ {room : Nat} {queue : List Path} {files : List Source} {told : List Log.Event},
      Inv ⟨room, queue, files⟩ →
      ∃ m : Moment, Inv m ∧ (m.room = 0 ∨ m.queue = []) ∧
        m.files = (walk host settings workspace room queue files told).run.1.files ∧
        ((walk host settings workspace room queue files told).run.1.truncated = true ↔
          ∃ p ∈ m.queue, p ∉ m.paths) := by
  intro room
  induction room with
  | zero =>
      intro queue files told h
      refine ⟨_, h, .inl rfl, ?_⟩
      cases queue with
      | nil => rw [walk]; simp
      | cons p queue =>
          rw [walk.eq_def]
          simp [Moment.paths]
  | succ room ihRoom =>
      intro queue
      induction queue with
      | nil =>
          intro files told h
          refine ⟨_, h, .inr rfl, ?_⟩
          rw [walk]
          simp
      | cons p queue ihQueue =>
          intro files told h
          by_cases hp : p ∈ files.map (·.path)
          · rw [walk_visited hp]
            exact ihQueue (keep _ _ (.pass hp) h)
          · obtain ⟨told', hw⟩ : ∃ told', walk host settings workspace _ _ _ told = _ :=
              walk_fresh room queue told hp
            rw [hw]
            exact ihRoom (keep _ _ (.visit hp) h)

/-- A closure is the end of a walk from its root. -/
theorem closureOf_invariant {Inv : Moment → Prop} {root : Path} {cap : Int}
    (keep : ∀ m m', m.Turn host settings workspace m' → Inv m → Inv m')
    (start : Inv ⟨cap.toNat, [root], []⟩) :
    ∃ m : Moment, Inv m ∧ (m.room = 0 ∨ m.queue = []) ∧
      m.files = (closureOf host settings workspace root cap).files ∧
      ((closureOf host settings workspace root cap).truncated = true ↔
        ∃ p ∈ m.queue, p ∉ m.paths) :=
  walk_invariant keep start

/-! ## What is always true of the files visited -/

/-- Files are in order if they are what visits to their paths put down, and no
path is visited twice. -/
structure InOrder (host : Host Id) (workspace : Path) (files : List Source) : Prop where
  visits : files = (files.map (·.path)).map (visit host workspace)
  nodup : (files.map (·.path)).Nodup

theorem InOrder.nil : InOrder host workspace [] := ⟨rfl, List.nodup_nil⟩

theorem InOrder.snoc {files : List Source} {p : Path} (h : InOrder host workspace files)
    (hp : p ∉ files.map (·.path)) :
    InOrder host workspace (files ++ [visit host workspace p]) := by
  constructor
  · simp only [List.map_append, List.map_cons, List.map_nil]
    rw [← h.visits]
    rfl
  · simp only [List.map_append, List.map_cons, List.map_nil]
    refine List.nodup_append.mpr ⟨h.nodup, by simp, ?_⟩
    intro a ha b hb hab
    rw [List.mem_singleton] at hb
    rw [hab, hb] at ha
    exact hp ha

theorem InOrder.eq_visit {files : List Source} (h : InOrder host workspace files)
    {s : Source} (hs : s ∈ files) : s = visit host workspace s.path := by
  rw [h.visits, List.mem_map] at hs
  obtain ⟨p, -, rfl⟩ := hs
  rfl

theorem closureOf_inOrder (host : Host Id) (settings : Settings) (workspace root : Path)
    (cap : Int) : InOrder host workspace (closureOf host settings workspace root cap).files := by
  have keep : ∀ m m' : Moment, m.Turn host settings workspace m' →
      InOrder host workspace m.files → InOrder host workspace m'.files := by
    intro m m' turn h
    cases turn with
    | pass _ => exact h
    | visit hp => exact h.snoc hp
  obtain ⟨m, h, -, hf, -⟩ := closureOf_invariant keep .nil
  rw [← hf]
  exact h

end Import

end ColorCensus
