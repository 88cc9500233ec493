import ColorCensus.Census

/-!
# A pass goes by the answers of its host

A pass does nothing with its host but ask it. So whatever relation there is
between computations of two monads, a pass over one host stands in it to the
pass over another one as soon as the answers of the hosts do (`take_related`).
All that is asked of the relation is that it is kept when computations are put
together (`Relates`); the proof follows the pass from bind to bind, and no
function of the pass says anything of its own about the monads.

Two such relations matter here. A host in a state monad may give other answers
whenever the state is another one; as long as they leave the state as it is, a
pass is that over the answers of the state it starts in (`Now`). And where an
answer may be refused, a pass comes to what it comes to if no answer is, or it
breaks off at a refusal (`Settles`).
-/

namespace ColorCensus

/-- A relation between the computations of two monads that is kept by all the
ways of putting computations together. -/
structure Relates (m n : Type → Type) [Monad m] [Monad n] where
  holds : {α : Type} → m α → n α → Prop
  pure : ∀ {α : Type} (a : α), holds (Pure.pure a) (Pure.pure a)
  bind : ∀ {α β : Type} {x : m α} {y : n α}, holds x y →
    ∀ {f : α → m β} {g : α → n β}, (∀ a, holds (f a) (g a)) → holds (x >>= f) (y >>= g)
  map : ∀ {α β : Type} {x : m α} {y : n α}, holds x y →
    ∀ f : α → β, holds (f <$> x) (f <$> y)

section

variable {m n : Type → Type} [Monad m] [Monad n]

/-- The answers of two hosts are related, and both have the same labels. -/
structure Relates.Hosts (R : Relates m n) (host : Host m) (now : Host n) : Prop where
  isFile : ∀ p, R.holds (host.isFile p) (now.isFile p)
  read : ∀ p, R.holds (host.read p) (now.read p)
  label : host.label = now.label

variable {R : Relates m n} {host : Host m} {now : Host n} {settings : Import.Settings}
  {workspace : Path}

namespace Import

theorem firstFile?_related (h : R.Hosts host now) (ps : List Path) :
    R.holds (firstFile? host settings workspace ps) (firstFile? now settings workspace ps) := by
  induction ps with
  | nil => exact R.pure none
  | cons p ps ih =>
      rw [firstFile?, firstFile?]
      split
      · exact ih
      · refine R.bind (h.isFile p) fun answer => ?_
        cases answer with
        | true => exact R.pure _
        | false => exact ih

theorem target?_related (h : R.Hosts host now) (importer : Path) (edge : Edge) :
    R.holds (target? host settings workspace importer edge)
      (target? now settings workspace importer edge) := by
  unfold target?
  split
  · refine R.bind (firstFile?_related h _) fun found => ?_
    cases found with
    | none => exact R.pure _
    | some q => exact R.pure _
  · exact R.pure _

theorem targets_related (h : R.Hosts host now) (importer : Path) (es : List Edge) :
    R.holds (targets host settings workspace importer es)
      (targets now settings workspace importer es) := by
  induction es with
  | nil => exact R.pure _
  | cons e es ih =>
      rw [targets, targets]
      exact R.bind (target?_related h importer e) fun _ => R.bind ih fun _ => R.pure _

theorem walk_related (h : R.Hosts host now) {room : Nat} {queue : List Path}
    {files : List Source} {told : List Log.Event} :
    R.holds (walk host settings workspace room queue files told)
      (walk now settings workspace room queue files told) := by
  induction room generalizing queue files told with
  | zero =>
      cases queue with
      | nil => rw [walk, walk]; exact R.pure _
      | cons p queue => rw [walk.eq_def, walk.eq_def]; exact R.pure _
  | succ room ihRoom =>
      induction queue generalizing files told with
      | nil => rw [walk, walk]; exact R.pure _
      | cons p queue ihQueue =>
          rw [walk, walk, h.label]
          split
          · exact ihQueue
          · refine R.bind (h.read p) fun answer => ?_
            cases answer with
            | error fault => exact ihRoom
            | ok text => exact R.bind (targets_related h p (edges text)) fun _ => ihRoom

theorem closure_related (h : R.Hosts host now) (root : Path) (cap : Int) :
    R.holds (closure host settings workspace root cap)
      (closure now settings workspace root cap) :=
  R.bind (walk_related h) fun _ => R.pure _

end Import

theorem Census.take_related (h : R.Hosts host now) (settings : Settings) (workspace root : Path)
    (cap : Option Int) :
    R.holds (take host settings workspace root cap) (take now settings workspace root cap) := by
  rw [take, take, h.label]
  refine R.bind (h.isFile root) fun answer => ?_
  cases answer with
  | false => exact R.pure _
  | true =>
      refine R.bind (Import.closure_related h root _) fun walked => ?_
      dsimp only
      split
      · exact R.pure _
      · exact R.pure _

end

/-! ## A state that stays as it is -/

section

variable {σ α β : Type}

theorem run_bind_of_run {x : StateM σ α} {f : α → StateM σ β} {s t : σ} {a : α}
    (h : x.run s = (a, t)) : (x >>= f).run s = (f a).run t := by
  rw [StateT.run_bind, h]
  rfl

/-- In a state a computation comes to what a plain one comes to, and leaves the
state as it is. -/
def Now (s : σ) : Relates (StateM σ) Id where
  holds x y := x.run s = (y.run, s)
  pure _ := rfl
  bind h _ _ rest := (run_bind_of_run h).trans (rest _)
  map h f := by
    rw [StateT.run_map, h]
    rfl

theorem Now.eq_pure {x : StateM σ α} {y : Id α} (h : ∀ s, (Now s).holds x y) :
    x = Pure.pure y.run := funext h

end

/-! ## Computations that may break off -/

section

variable {ε α β : Type}

theorem run_bind_of_ok {x : ExceptT ε Id α} {f : α → ExceptT ε Id β} {a : α}
    (h : x.run = .ok a) : (x >>= f).run = (f a).run := by
  rw [ExceptT.run_bind, h]
  rfl

theorem run_bind_of_error {x : ExceptT ε Id α} {f : α → ExceptT ε Id β} {fault : ε}
    (h : x.run = .error fault) : (x >>= f).run = .error fault := by
  rw [ExceptT.run_bind, h]
  rfl

theorem run_bind_eq_ok {x : ExceptT ε Id α} {f : α → ExceptT ε Id β} {b : β} :
    (x >>= f).run = .ok b ↔ ∃ a, x.run = .ok a ∧ (f a).run = .ok b := by
  cases hx : x.run with
  | ok a =>
      rw [run_bind_of_ok hx]
      exact ⟨fun h => ⟨a, rfl, h⟩, fun ⟨_, ha, h⟩ => Except.ok.inj ha ▸ h⟩
  | error fault =>
      rw [run_bind_of_error hx]
      exact ⟨nofun, nofun⟩

theorem run_adapt_eq_ok {ε' : Type} {x : ExceptT ε Id α} {f : ε → ε'} {a : α} :
    (x.adapt f).run = .ok a ↔ x.run = .ok a := by
  rw [ExceptT.run_adapt]
  cases x.run with
  | ok b => exact ⟨fun h => congrArg Except.ok (Except.ok.inj h), fun h => h ▸ rfl⟩
  | error fault => exact ⟨nofun, nofun⟩

/-- A computation comes to what a plain one comes to, or it breaks off at one of
the faults that are looked out for. -/
def Settles (refused : ε → Prop) : Relates (ExceptT ε Id) Id where
  holds x y := x.run = .ok y.run ∨ ∃ fault, refused fault ∧ x.run = .error fault
  pure _ := .inl rfl
  bind h _ _ rest := by
    obtain hx | ⟨fault, hfault, hx⟩ := h
    · rw [run_bind_of_ok hx]
      exact rest _
    · exact .inr ⟨fault, hfault, run_bind_of_error hx⟩
  map h f := by
    rw [ExceptT.run_map]
    obtain hx | ⟨fault, hfault, hx⟩ := h
    · exact .inl (by rw [hx]; rfl)
    · exact .inr ⟨fault, hfault, by rw [hx]; rfl⟩

variable {m n : Type → Type} [Monad m] [Monad n]

/-- What breaks off in the same way on both sides is related like its result. -/
def Relates.except (R : Relates m n) (ε : Type) : Relates (ExceptT ε m) (ExceptT ε n) where
  holds x y := R.holds x.run y.run
  pure a := R.pure (Except.ok a)
  bind h _ _ rest := R.bind h fun result => by
    cases result with
    | ok a => exact rest a
    | error fault => exact R.pure _
  map h f := R.bind h fun result => by
    cases result with
    | ok a => exact R.pure _
    | error fault => exact R.pure _

namespace Relates

variable {R : Relates m n} {ε' : Type}

theorem throw (fault : ε) :
    (R.except ε).holds (throw fault : ExceptT ε m α) (throw fault : ExceptT ε n α) :=
  R.pure (Except.error fault : Except ε α)

theorem adapt {x : ExceptT ε m α} {y : ExceptT ε n α} (h : (R.except ε).holds x y)
    (f : ε → ε') : (R.except ε').holds (x.adapt f) (y.adapt f) := by
  change R.holds x.run y.run at h
  exact R.map h (Except.mapError f)

theorem lift {x : m α} {y : n α} (h : R.holds x y) :
    (R.except ε).holds (ExceptT.lift x) (ExceptT.lift y) := R.map h (Except.ok : α → Except ε α)

end Relates

end

end ColorCensus
