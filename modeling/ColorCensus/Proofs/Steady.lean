import ColorCensus.Proofs.BreadthFirst
import ColorCensus.Proofs.Related
import ColorCensus.Proofs.Walk

/-!
# Hosts whose answers stay the same

A host whose answers stay the same is a host with a state that it neither reads
nor changes. A walk over it is the same in either form (`closure_steady`), so
what is known of walks over hosts that change holds for it. Only here the graph
of imports is a fact about the host, and the visits of a walk have its edges
(`Stage.Turns.agrees`): on such a host the files stand in the order of their
distance from the root in the graph of all imports (`closureOf_nearer`).
-/

namespace ColorCensus

variable {σ : Type} {host : Host Id}

/-- A host whose answers stay the same, next to a state. -/
def Host.steady (host : Host Id) : Host (StateM σ) where
  isFile p := pure (host.isFile p).run
  read p := pure (host.read p).run
  label := host.label

theorem Host.steady_now (host : Host Id) (s : σ) : (Now s).Hosts host.steady host :=
  ⟨fun _ => rfl, fun _ => rfl, rfl⟩

namespace Import

variable {settings : Settings} {workspace : Path}

/-! ## The same computation in either form -/

theorem target?_steady (importer : Path) (edge : Edge) :
    target? host.steady settings workspace importer edge =
      (pure (target? host settings workspace importer edge).run : StateM σ _) :=
  Now.eq_pure fun s => target?_related (host.steady_now s) importer edge

theorem closure_steady (root : Path) (cap : Int) :
    closure host.steady settings workspace root cap =
      (pure (closure host settings workspace root cap).run : StateM σ _) :=
  Now.eq_pure fun s => closure_related (host.steady_now s) root cap

/-! ## The graph of imports -/

theorem leadsOf_steady (importer : Path) (es : List Edge) :
    leadsOf host.steady settings workspace importer es =
      (pure (es.map (leadsTo? host settings workspace importer)) : StateM σ _) := by
  induction es with
  | nil => rfl
  | cons e es ih =>
      rw [leadsOf, target?_steady, pure_bind, ih]
      rfl

theorem mem_leads_of_taken {p : Path} {s s' : σ} {v : Visit}
    (taken : (Visit.take host.steady settings workspace p).run s = (v, s')) (q : Path) :
    Imports host settings workspace p q ↔ some q ∈ v.leads := by
  have hread : (host.steady : Host (StateM σ)).read p = pure (host.read p).run := rfl
  rw [Visit.take, hread, pure_bind] at taken
  rw [Imports, Host.text?]
  cases hanswer : (host.read p).run with
  | error fault =>
      rw [hanswer] at taken
      cases taken
      constructor
      · rintro ⟨_, hnone, -⟩
        cases hnone
      · exact fun h => absurd h List.not_mem_nil
  | ok text =>
      rw [hanswer] at taken
      dsimp only at taken
      rw [leadsOf_steady, pure_bind] at taken
      cases taken
      rw [List.mem_map]
      constructor
      · rintro ⟨_, htext, hedge⟩
        cases htext
        exact hedge
      · exact fun hedge => ⟨text, rfl, hedge⟩

theorem Stage.Turns.agrees {m m' : Stage σ}
    (turns : Stage.Turns host.steady settings workspace m m')
    (h : Agrees (Imports host settings workspace) m.visits) :
    Agrees (Imports host settings workspace) m'.visits := by
  induction turns with
  | refl => exact h
  | tail _ turn ih =>
      cases turn with
      | pass _ => exact ih
      | visit _ taken =>
          intro w hw q
          rcases List.mem_append.mp hw with hw | hw
          · exact ih w hw q
          · rw [List.mem_singleton.mp hw, take_path taken]
            exact mem_leads_of_taken taken q

/-- The files of a closure come in the order of their distance from the root. -/
theorem closureOf_nearer (host : Host Id) (settings : Settings) (workspace root : Path)
    (cap : Int) :
    ∃ distance : Path → Nat,
      (∀ f ∈ (closureOf host settings workspace root cap).files,
        IsLeast {n | StepsTo (Imports host settings workspace) root n f.path}
          (distance f.path)) ∧
      ((closureOf host settings workspace root cap).files.map (·.path)).Pairwise
        fun p q => distance p ≤ distance q := by
  obtain ⟨last, turns, ends⟩ := closure_turns host.steady settings workspace root cap ()
  have files : (closureOf host settings workspace root cap).files =
      last.visits.map (·.source) := by
    rw [← ends.files, closure_steady]
    rfl
  have agrees : Agrees (Imports host settings workspace) last.visits :=
    turns.agrees (fun _ hv => absurd hv List.not_mem_nil)
  obtain ⟨distance, least, ordered⟩ := (Heard.turns turns).breadthFirst.nearer _ agrees
  refine ⟨distance, ?_, ?_⟩
  · rw [files]
    exact List.forall_mem_map.mpr least
  · rw [files, paths_of_sources]
    exact ordered

end Import

end ColorCensus
