import ColorCensus.Proofs.Turns
import Mathlib.Order.Lattice.Nat

/-!
# Files are visited breadth first

The queue may hold a path many times, and a path is queued again although it
waits there already. None of this shows in the order of the files. Every path
that a visit leads to is heard of (`arrivals`), and apart from repetitions the
paths visited and the queue behind them are all that was heard of, in the order
in which it was (`Heard.order`). So the files stand in the order in which they
were heard of first, by the first of their importers and there by the first
edge (`HeardBefore`).

From this order alone it follows that files nearer to the root come first. A
file was heard of in its first importer, and whatever another file at hand
imports was heard of no earlier, so the first importer stands no later than
that file. The distances can be taken in any graph of imports that has the
edges of the files visited (`Agrees`): what a file imports that was never
visited does not matter.
-/

namespace ColorCensus.Import

/-- Where a path was heard of first: the position of the first visit with an
edge that led to it, and the index of the first such edge. -/
def heardAt? (visits : List Visit) (p : Path) : Option (Nat × Nat) := do
  let i ← visits.findIdx? fun v => some p ∈ v.leads
  let v ← visits[i]?
  pure (i, v.leads.idxOf (some p))

/-- Both paths were heard of, the first one earlier. -/
def HeardBefore (visits : List Visit) (p q : Path) : Prop :=
  ∃ a b, heardAt? visits p = some a ∧ heardAt? visits q = some b ∧
    Prod.Lex (· < ·) (· < ·) a b

/-- A graph of imports has the edges of the files visited. -/
def Agrees (R : Path → Path → Prop) (visits : List Visit) : Prop :=
  ∀ v ∈ visits, ∀ q, R v.path q ↔ some q ∈ v.leads

/-- A number of import steps that lead from a root to a path. -/
inductive StepsTo (R : Path → Path → Prop) (root : Path) : Nat → Path → Prop
  | root : StepsTo R root 0 root
  | step {n : Nat} {p q : Path} (steps : StepsTo R root n p) (imports : R p q) :
      StepsTo R root (n + 1) q

/-- The order of a walk from a root. -/
structure BreadthFirst (root : Path) (visits : List Visit) : Prop where
  /-- Every file but the root has a first importer that stands before it. -/
  heard : ∀ (k : Nat) (v : Visit), visits[k]? = some v → v.path ≠ root →
    ∃ a, heardAt? visits v.path = some a ∧ a.1 < k
  ordered : (visits.map (·.path)).Pairwise fun p q =>
    p ≠ root → q ≠ root → HeardBefore visits p q
  /-- The shortest number of import steps never decreases along the files. -/
  nearer : ∀ R : Path → Path → Prop, Agrees R visits → ∃ distance : Path → Nat,
    (∀ v ∈ visits, IsLeast {n | StepsTo R root n v.path} (distance v.path)) ∧
      (visits.map (·.path)).Pairwise fun p q => distance p ≤ distance q

/-! ## What was heard of, in order -/

/-- The paths that visits led to. -/
def arrivals (visits : List Visit) : List Path := visits.flatMap Visit.targets

theorem arrivals_append (visits more : List Visit) :
    arrivals (visits ++ more) = arrivals visits ++ arrivals more :=
  List.flatMap_append

theorem arrivals_cons (v : Visit) (visits : List Visit) :
    arrivals (v :: visits) = v.targets ++ arrivals visits :=
  List.flatMap_cons

theorem arrivals_singleton (v : Visit) : arrivals [v] = v.targets :=
  List.append_nil _

theorem mem_arrivals {visits : List Visit} {p : Path} :
    p ∈ arrivals visits ↔ ∃ v ∈ visits, some p ∈ v.leads := by
  rw [arrivals, List.mem_flatMap]
  exact exists_congr fun v => and_congr_right fun _ => Visit.mem_targets

theorem heardAt?_cons_of_mem {v : Visit} {p : Path} (h : some p ∈ v.leads)
    (visits : List Visit) : heardAt? (v :: visits) p = some (0, v.leads.idxOf (some p)) := by
  rw [heardAt?, List.findIdx?_cons, if_pos (decide_eq_true h)]
  rfl

theorem heardAt?_cons_of_not_mem {v : Visit} {p : Path} (h : some p ∉ v.leads)
    (visits : List Visit) :
    heardAt? (v :: visits) p = (heardAt? visits p).map fun a => (a.1 + 1, a.2) := by
  rw [heardAt?, heardAt?, List.findIdx?_cons, if_neg (by simp [h])]
  cases visits.findIdx? fun v => some p ∈ v.leads with
  | none => rfl
  | some i => cases hi : visits[i]? <;> simp [hi]

theorem exists_heardAt? {visits : List Visit} {k : Nat} {p : Path}
    (h : p ∈ arrivals (visits.take k)) : ∃ a, heardAt? visits p = some a ∧ a.1 < k := by
  induction visits generalizing k with
  | nil =>
      rw [List.take_nil] at h
      cases h
  | cons v visits ih =>
      cases k with
      | zero => cases h
      | succ k =>
          by_cases hv : some p ∈ v.leads
          · exact ⟨_, heardAt?_cons_of_mem hv visits, Nat.succ_pos k⟩
          · rw [List.take_succ_cons, arrivals_cons, List.mem_append] at h
            obtain ⟨a, ha, hk⟩ := ih (h.resolve_left fun ht => hv (Visit.mem_targets.mp ht))
            refine ⟨(a.1 + 1, a.2), ?_, Nat.succ_lt_succ hk⟩
            rw [heardAt?_cons_of_not_mem hv, ha]
            rfl

theorem exists_importer {visits : List Visit} {p : Path} {a : Nat × Nat}
    (h : heardAt? visits p = some a) : ∃ v, visits[a.1]? = some v ∧ some p ∈ v.leads := by
  rw [heardAt?, Option.bind_eq_bind, Option.bind_eq_some_iff] at h
  obtain ⟨i, hi, h⟩ := h
  rw [Option.bind_eq_bind, Option.bind_eq_some_iff] at h
  obtain ⟨v, hv, h⟩ := h
  cases h
  obtain ⟨hlt, hlead, -⟩ := List.findIdx?_eq_some_iff_getElem.mp hi
  refine ⟨v, hv, ?_⟩
  rw [List.getElem?_eq_getElem hlt, Option.some.injEq] at hv
  rw [← hv]
  exact of_decide_eq_true hlead

theorem idxOf_some_cons {lead : Option Path} {p : Path} (h : lead ≠ some p)
    (leads : List (Option Path)) :
    (lead :: leads).idxOf (some p) = leads.idxOf (some p) + 1 :=
  List.idxOf_cons_ne leads h

/-- The paths that edges led to stand in the order of the edges that led to
them first. -/
theorem reduceOption_pairwise (leads : List (Option Path)) :
    (distinct leads.reduceOption).Pairwise fun p q =>
      leads.idxOf (some p) < leads.idxOf (some q) := by
  induction leads with
  | nil => exact .nil
  | cons lead leads ih =>
      cases lead with
      | none =>
          rw [List.reduceOption_cons_of_none]
          refine ih.imp fun h => ?_
          rw [idxOf_some_cons (Option.some_ne_none _).symm,
            idxOf_some_cons (Option.some_ne_none _).symm]
          exact Nat.succ_lt_succ h
      | some a =>
          have shift : ∀ q ∈ (distinct leads.reduceOption).filter (· ≠ a),
              (some a :: leads).idxOf (some q) = leads.idxOf (some q) + 1 := by
            intro q hq
            have hne : q ≠ a := of_decide_eq_true (List.mem_filter.mp hq).2
            exact idxOf_some_cons (fun heq => hne (Option.some.inj heq).symm) leads
          rw [List.reduceOption_cons_of_some, distinct_cons, List.pairwise_cons]
          constructor
          · intro q hq
            rw [shift q hq, List.idxOf_cons_self]
            exact Nat.succ_pos _
          · refine (ih.filter _).imp_of_mem fun hp hq h => ?_
            rw [shift _ hp, shift _ hq]
            exact Nat.succ_lt_succ h

/-- What visits led to stands in the order in which it was heard of. -/
theorem arrivals_pairwise (visits : List Visit) :
    (distinct (arrivals visits)).Pairwise (HeardBefore visits) := by
  induction visits with
  | nil => exact .nil
  | cons v visits ih =>
      have later : ∀ q ∈ (distinct (arrivals visits)).filter (· ∉ v.targets),
          some q ∉ v.leads := by
        intro q hq ht
        exact of_decide_eq_true (List.mem_filter.mp hq).2 (Visit.mem_targets.mpr ht)
      rw [arrivals_cons, distinct_append, List.pairwise_append]
      refine ⟨?_, ?_, ?_⟩
      · refine (reduceOption_pairwise v.leads).imp_of_mem fun hp hq h => ?_
        rw [mem_distinct] at hp hq
        exact ⟨_, _, heardAt?_cons_of_mem (Visit.mem_targets.mp hp) visits,
          heardAt?_cons_of_mem (Visit.mem_targets.mp hq) visits, .right _ h⟩
      · refine (ih.filter _).imp_of_mem fun hp hq ⟨a, b, ha, hb, h⟩ => ?_
        refine ⟨(a.1 + 1, a.2), (b.1 + 1, b.2), ?_, ?_, ?_⟩
        · rw [heardAt?_cons_of_not_mem (later _ hp), ha]
          rfl
        · rw [heardAt?_cons_of_not_mem (later _ hq), hb]
          rfl
        · rw [Prod.lex_def] at h ⊢
          exact h.imp Nat.succ_lt_succ fun h => ⟨congrArg Nat.succ h.1, h.2⟩
      · intro p hp q hq
        rw [mem_distinct] at hp
        have hmem : q ∈ arrivals visits := mem_distinct.mp (List.mem_filter.mp hq).1
        rw [← List.take_length (l := visits)] at hmem
        obtain ⟨b, hb, -⟩ := exists_heardAt? hmem
        refine ⟨_, (b.1 + 1, b.2), heardAt?_cons_of_mem (Visit.mem_targets.mp hp) visits, ?_,
          .left _ _ (Nat.succ_pos _)⟩
        rw [heardAt?_cons_of_not_mem (later q hq), hb]
        rfl

/-! ## The walk hears of its files in order -/

variable {σ : Type} {host : Host (StateM σ)} {settings : Settings} {workspace root : Path}

/-- Apart from repetitions, a walk from a root holds what it heard of in the
order in which it did, and each file was heard of before its visit. -/
structure Heard (root : Path) (m : Stage σ) : Prop where
  order : distinct (root :: arrivals m.visits) = distinct (m.paths ++ m.queue)
  nodup : m.paths.Nodup
  before : ∀ (k : Nat) (v : Visit), m.visits[k]? = some v →
    v.path ∈ root :: arrivals (m.visits.take k)

theorem Heard.start (root : Path) (room : Nat) (s : σ) : Heard root (.start room root s) where
  order := rfl
  nodup := List.nodup_nil
  before := nofun

theorem Heard.mem_arrivals {m : Stage σ} (h : Heard root m) {p : Path} (hp : p ∈ m.queue) :
    p ∈ root :: arrivals m.visits := by
  rw [← mem_distinct, h.order, mem_distinct]
  exact List.mem_append_right _ hp

theorem Heard.pass {room : Nat} {p : Path} {queue : List Path} {visits : List Visit} {s : σ}
    (seen : p ∈ visits.map (·.path)) (h : Heard root ⟨room + 1, p :: queue, visits, s⟩) :
    Heard root ⟨room + 1, queue, visits, s⟩ where
  order := by
    have horder := distinct_append_congr (distinct_concat_of_mem seen) queue
    rw [List.append_assoc] at horder
    exact h.order.trans horder
  nodup := h.nodup
  before := h.before

theorem Heard.visit {room : Nat} {p : Path} {queue : List Path} {visits : List Visit}
    {v : Visit} {s s' : σ} (hpath : v.path = p) (fresh : p ∉ visits.map (·.path))
    (h : Heard root ⟨room + 1, p :: queue, visits, s⟩) :
    Heard root ⟨room, queue ++ v.targets.filter fun q => q ∉ (visits ++ [v]).map (·.path),
      visits ++ [v], s'⟩ := by
  subst hpath
  constructor
  case order =>
    calc distinct (root :: arrivals (visits ++ [v]))
        = distinct (root :: arrivals visits ++ v.targets) := by
          rw [arrivals_append, arrivals_singleton, List.cons_append]
      _ = distinct (visits.map (·.path) ++ v.path :: queue ++ v.targets) :=
          distinct_append_congr h.order v.targets
      _ = distinct ((visits ++ [v]).map (·.path) ++ queue ++ v.targets) := by
          rw [paths_concat, List.append_cons]
      _ = distinct ((visits ++ [v]).map (·.path) ++ queue ++
            v.targets.filter fun q => q ∉ (visits ++ [v]).map (·.path)) := by
          refine (distinct_append_filter fun q _ hdrop => List.mem_append_left _ ?_).symm
          exact of_not_not (of_decide_eq_false hdrop)
      _ = _ := by rw [List.append_assoc, Stage.paths]
  case nodup => exact nodup_paths_concat h.nodup fresh
  case before =>
    intro k w hw
    rcases Nat.lt_or_ge k visits.length with hk | hk
    · rw [List.getElem?_append_left hk] at hw
      rw [List.take_append_of_le_length (Nat.le_of_lt hk)]
      exact h.before k w hw
    · obtain rfl : k = visits.length := by
        have := (List.getElem?_eq_some_iff.mp hw).1
        rw [List.length_append, List.length_singleton] at this
        omega
      rw [List.getElem?_concat_length] at hw
      cases hw
      rw [List.take_left]
      exact h.mem_arrivals List.mem_cons_self

theorem Heard.turn {m m' : Stage σ} (turn : m.Turn host settings workspace m')
    (h : Heard root m) : Heard root m' := by
  cases turn with
  | pass seen => exact h.pass seen
  | visit fresh taken => exact h.visit (take_path taken) fresh

theorem Heard.turns {room : Nat} {s : σ} {last : Stage σ}
    (turns : Stage.Turns host settings workspace (.start room root s) last) : Heard root last :=
  turns.invariant (fun _ _ turn h => Heard.turn turn h) (.start root room s)

/-! ## Files in the order in which they were heard of -/

theorem rooted_pairwise (root : Path) (visits : List Visit) :
    (distinct (root :: arrivals visits)).Pairwise fun p q =>
      p ≠ root → HeardBefore visits p q := by
  rw [distinct_cons, List.pairwise_cons]
  refine ⟨fun q _ hroot => absurd rfl hroot, ?_⟩
  refine ((arrivals_pairwise visits).filter _).imp ?_
  exact fun h _ => h

theorem Heard.paths_prefix {m : Stage σ} (h : Heard root m) :
    m.paths <+: distinct (root :: arrivals m.visits) := by
  rw [h.order, distinct_append, distinct_eq_self h.nodup]
  exact List.prefix_append _ _

theorem Heard.exists_heardAt? {m : Stage σ} (h : Heard root m) {k : Nat} {v : Visit}
    (hv : m.visits[k]? = some v) (hroot : v.path ≠ root) :
    ∃ a, Import.heardAt? m.visits v.path = some a ∧ a.1 < k :=
  Import.exists_heardAt? ((List.mem_cons.mp (h.before k v hv)).resolve_left hroot)

/-- The first importer of a file stands no later than that of another path,
unless the path is a file before it. -/
theorem Heard.importer_le {m : Stage σ} (h : Heard root m) {k : Nat} {v : Visit} {p : Path}
    {a b : Nat × Nat} (hv : m.visits[k]? = some v) (hroot : v.path ≠ root)
    (ha : heardAt? m.visits v.path = some a) (hb : heardAt? m.visits p = some b)
    (late : p ∉ m.paths.take k) : a.1 ≤ b.1 := by
  have hpath : m.paths[k]? = some v.path := by
    rw [Stage.paths, List.getElem?_map, hv]
    rfl
  obtain ⟨rest, hrest⟩ := h.paths_prefix
  have split : distinct (root :: arrivals m.visits) =
      m.paths.take k ++ (v.path :: m.paths.drop (k + 1) ++ rest) := by
    obtain ⟨hk, hget⟩ := List.getElem?_eq_some_iff.mp hpath
    rw [← hrest, ← hget, List.getElem_cons_drop, ← List.append_assoc, List.take_append_drop]
  have hp : p ∈ distinct (root :: arrivals m.visits) := by
    obtain ⟨w, hw, hlead⟩ := exists_importer hb
    rw [mem_distinct]
    exact List.mem_cons_of_mem _ (Import.mem_arrivals.mpr ⟨w, List.mem_of_getElem? hw, hlead⟩)
  have order := rooted_pairwise root m.visits
  rw [split] at hp order
  have hp := (List.mem_append.mp hp).resolve_left late
  rw [List.cons_append] at hp order
  rcases List.mem_cons.mp hp with rfl | hp
  · rw [ha] at hb
    cases hb
    exact Nat.le_refl _
  · obtain ⟨a', b', ha', hb', hlex⟩ :=
      (List.pairwise_cons.mp (List.pairwise_append.mp order).2.1).1 p hp hroot
    cases ha.symm.trans ha'
    cases hb.symm.trans hb'
    rw [Prod.lex_def] at hlex
    exact hlex.elim Nat.le_of_lt fun heq => Nat.le_of_eq heq.1

theorem getElem?_paths {m : Stage σ} {k : Nat} {v : Visit} (h : m.visits[k]? = some v) :
    m.paths[k]? = some v.path := by
  rw [Stage.paths, List.getElem?_map, h]
  rfl

theorem mem_take_paths {m : Stage σ} {k : Nat} {p : Path} :
    p ∈ m.paths.take k ↔ ∃ (i : Nat) (v : Visit), i < k ∧ m.visits[i]? = some v ∧ v.path = p := by
  rw [Stage.paths, ← List.map_take, List.mem_map]
  constructor
  · rintro ⟨v, hv, hp⟩
    obtain ⟨i, hi⟩ := List.mem_iff_getElem?.mp hv
    rw [List.getElem?_take] at hi
    split at hi
    · next hik => exact ⟨i, v, hik, hi, hp⟩
    · cases hi
  · rintro ⟨i, v, hik, hi, hp⟩
    refine ⟨v, List.mem_iff_getElem?.mpr ⟨i, ?_⟩, hp⟩
    rw [List.getElem?_take_of_lt hik, hi]

theorem Heard.not_mem_take {m : Stage σ} (h : Heard root m) {k : Nat} {v : Visit}
    (hv : m.visits[k]? = some v) {l : Nat} (hl : l ≤ k) : v.path ∉ m.paths.take l := by
  intro hmem
  obtain ⟨i, w, hi, hw, heq⟩ := mem_take_paths.mp hmem
  have hwpath := getElem?_paths hw
  have hlt := (List.getElem?_eq_some_iff.mp hwpath).1
  have hik : i = k := by
    refine (List.getElem?_inj hlt h.nodup).mp ?_
    rw [hwpath, getElem?_paths hv, heq]
  omega

/-- A file is no further from the root than any path that is no file before it.
The induction is on the steps that lead to the path. If the last step starts at
a file before `v`, the first importer of `v` stands no later than that file, so
it is no further from the root, and `v` is one step away from it. -/
theorem Heard.steps_le {m : Stage σ} (h : Heard root m) {R : Path → Path → Prop}
    (agrees : Agrees R m.visits) {n : Nat} {p : Path} (steps : StepsTo R root n p) {k : Nat}
    {v : Visit} (hv : m.visits[k]? = some v) (late : p ∉ m.paths.take k) :
    ∃ l, l ≤ n ∧ StepsTo R root l v.path := by
  induction steps generalizing k v with
  | root =>
      cases k with
      | zero =>
          rw [List.mem_singleton.mp (h.before 0 v hv)]
          exact ⟨0, Nat.le_refl _, .root⟩
      | succ k =>
          have hlt := (List.getElem?_eq_some_iff.mp hv).1
          have hfirst : m.visits[0]? = some m.visits[0] := List.getElem?_eq_getElem _
          have hroot : m.visits[0].path = root :=
            List.mem_singleton.mp (h.before 0 _ hfirst)
          exact absurd (mem_take_paths.mpr ⟨0, _, Nat.succ_pos k, hfirst, hroot⟩) late
  | @step n q p _ imports ih =>
      by_cases hroot : v.path = root
      · exact ⟨0, Nat.zero_le _, hroot ▸ .root⟩
      by_cases hq : q ∈ m.paths.take k
      · obtain ⟨i, w, hi, hw, rfl⟩ := mem_take_paths.mp hq
        have hlead : some p ∈ w.leads := (agrees w (List.mem_of_getElem? hw) p).mp imports
        have hheard : p ∈ arrivals (m.visits.take (i + 1)) := by
          refine Import.mem_arrivals.mpr ⟨w, List.mem_iff_getElem?.mpr ⟨i, ?_⟩, hlead⟩
          rw [List.getElem?_take_of_lt (Nat.lt_succ_self i), hw]
        obtain ⟨a, ha, -⟩ := h.exists_heardAt? hv hroot
        obtain ⟨b, hb, hbi⟩ := Import.exists_heardAt? hheard
        have hab : a.1 ≤ b.1 := h.importer_le hv hroot ha hb late
        obtain ⟨u, hu, huv⟩ := exists_importer ha
        obtain ⟨l, hl, hsteps⟩ := ih hu (h.not_mem_take hw (by omega))
        have himport : R u.path v.path := (agrees u (List.mem_of_getElem? hu) _).mpr huv
        exact ⟨l + 1, Nat.succ_le_succ hl, .step hsteps himport⟩
      · obtain ⟨l, hl, hsteps⟩ := ih hv hq
        exact ⟨l, Nat.le_succ_of_le hl, hsteps⟩

/-- Every file is some steps away from the root, one more than its first importer. -/
theorem Heard.exists_steps {m : Stage σ} (h : Heard root m) {R : Path → Path → Prop}
    (agrees : Agrees R m.visits) {k : Nat} {v : Visit} (hv : m.visits[k]? = some v) :
    ∃ n, StepsTo R root n v.path := by
  induction k using Nat.strongRecOn generalizing v with
  | ind k ih =>
      by_cases hroot : v.path = root
      · exact ⟨0, hroot ▸ .root⟩
      · obtain ⟨a, ha, hk⟩ := h.exists_heardAt? hv hroot
        obtain ⟨u, hu, huv⟩ := exists_importer ha
        obtain ⟨n, hn⟩ := ih a.1 hk hu
        exact ⟨n + 1, .step hn ((agrees u (List.mem_of_getElem? hu) _).mpr huv)⟩

theorem Heard.breadthFirst {m : Stage σ} (h : Heard root m) : BreadthFirst root m.visits where
  heard k v hv hroot := h.exists_heardAt? hv hroot
  ordered := by
    obtain ⟨rest, hrest⟩ := h.paths_prefix
    have order := rooted_pairwise root m.visits
    rw [← hrest] at order
    refine (List.pairwise_append.mp order).1.imp ?_
    exact fun h hroot _ => h hroot
  nearer R agrees := by
    let distance (p : Path) : Nat := sInf {n | StepsTo R root n p}
    have least : ∀ v ∈ m.visits, IsLeast {n | StepsTo R root n v.path} (distance v.path) := by
      intro v hv
      obtain ⟨k, hk⟩ := List.mem_iff_getElem?.mp hv
      exact ⟨Nat.sInf_mem (h.exists_steps agrees hk), fun n hn => Nat.sInf_le hn⟩
    refine ⟨distance, least, List.pairwise_iff_getElem.mpr fun i j hi hj hij => ?_⟩
    rw [List.length_map] at hi hj
    rw [List.getElem_map, List.getElem_map]
    have hv : m.visits[i]? = some m.visits[i] := List.getElem?_eq_getElem hi
    have hw : m.visits[j]? = some m.visits[j] := List.getElem?_eq_getElem hj
    obtain ⟨l, hl, hsteps⟩ := h.steps_le agrees (least _ (List.getElem_mem hj)).1 hv
      (h.not_mem_take hw (Nat.le_of_lt hij))
    exact ((least _ (List.getElem_mem hi)).2 hsteps).trans hl

/-- Files are visited breadth first, whatever a host answers. A file is put behind the
queue where it is first heard of, in the first of its importers, and the queue never
changes its order: so the files come in the order of their first importers, and of the
edges within one. That no file is nearer to the root than one before it follows, for any
relation that has the edges of the files visited. -/
theorem closure_breadthFirst (host : Host (StateM σ)) (settings : Settings)
    (workspace root : Path) (cap : Int) (s : σ) :
    ∃ last : Stage σ, Stage.Turns host settings workspace (.start cap.toNat root s) last ∧
      last.Ends ((closure host settings workspace root cap).run s) ∧
      BreadthFirst root last.visits := by
  obtain ⟨last, turns, ends⟩ := closure_turns host settings workspace root cap s
  exact ⟨last, turns, ends, (Heard.turns turns).breadthFirst⟩

end ColorCensus.Import
