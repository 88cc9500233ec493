import ColorCensus.Proofs.Labels
import ColorCensus.Proofs.Outcomes
import ColorCensus.Proofs.Snapshots

/-!
# A watch is one scan after the other

The rounds of a watch share their settings, which are read before the first one
and changed once, for the pause (`Watch.of`). No scan reads what is changed
(`Watch.result_of`), and no scan changes what another one reads, so a round is a
scan of its own: it comes to what a scan of the disk comes to as it stands
behind so many pauses (`round_now`), with the settings of the plan.

What a round does to the watch is said once (`Watch.keep_succ`). A round that
leads on to another one puts its report in front of what is printed from there
on (`Watch.leaves_of_leadsOn`), and so do any number of them. Behind them the
watch ends in one of four ways: the round is the last one that is asked for, the
pause after it is broken off, its root is not there, or the disk refuses it an
answer. As the settings are sound there is no fifth way (`Plan.result_cases`).
-/

namespace ColorCensus.Command

open Yaml (Reader)

/-! ## The report of a scan -/

/-- What comes of the scan that a plan asks for. -/
def Plan.result (reader : Reader) (disk : Disk Id) (p : Plan) : Except Scan.Fault Inventory :=
  (Scan.run reader disk (some p.settings) p.root (some p.workspace) p.maxFiles).run.1

/-- The report of a scan with the settings of a plan, told how long it is to the next one. -/
def Plan.report? (reader : Reader) (disk : Disk Id) (p : Plan) (minutes : Int) :
    Except Scan.Fault String :=
  (p.result reader disk).map (Report.render ⟨p.settings.report.maxUsages, minutes⟩ p.format)

/-- The root of a plan is not there, or nobody can tell where it or its workspace would be. -/
def Plan.Lacks (disk : Disk Id) (p : Plan) : Prop :=
  ∀ root workspace, (Scan.locate disk p.root).run = .ok root →
    (Scan.locate disk p.workspace).run = .ok workspace → (disk.isFile root).run = .ok false

variable {reader : Reader}

section

variable {disk : Disk Id} {p : Plan} {root workspace : Path}

theorem Plan.result_of_located (hroot : (Scan.locate disk p.root).run = .ok root)
    (hworkspace : (Scan.locate disk p.workspace).run = .ok workspace) :
    p.result reader disk = Scan.censusOf disk p.settings workspace root p.maxFiles := by
  rw [Plan.result, Scan.run_given, hroot, hworkspace]

theorem Plan.error_of_lacks (h : p.Lacks disk) :
    p.result reader disk = .error .noHome ∨
      ∃ root, p.result reader disk = .error (.census (.rootMissing root)) := by
  obtain hroot | ⟨root, hroot⟩ := Scan.locate_eq disk p.root
  · rw [Plan.result, Scan.run_given, hroot]
    exact .inl rfl
  · obtain hworkspace | ⟨workspace, hworkspace⟩ := Scan.locate_eq disk p.workspace
    · rw [Plan.result, Scan.run_given, hroot, hworkspace]
      exact .inl rfl
    · rw [Plan.result_of_located hroot hworkspace,
        Scan.censusOf_of_missing (h root workspace hroot hworkspace)]
      exact .inr ⟨root, rfl⟩

/-- With sound settings all that a scan needs is its root, and a disk that answers. -/
theorem Plan.result_cases (hsettings : p.settings.Sound) :
    (∃ inventory, p.result reader disk = .ok inventory) ∨ p.Lacks disk ∨
      ∃ fault, disk.Refuses fault ∧ p.result reader disk = .error (.disk fault) := by
  by_cases hlacks : p.Lacks disk
  · exact .inr (.inl hlacks)
  · unfold Plan.Lacks at hlacks
    push Not at hlacks
    obtain ⟨root, workspace, hroot, hworkspace, hpresent⟩ := hlacks
    rw [Plan.result_of_located hroot hworkspace]
    cases hfile : (disk.isFile root).run with
    | error fault =>
        exact .inr (.inr ⟨fault, Disk.refuses_of_isFile hfile, Scan.censusOf_of_refused hfile⟩)
    | ok isFile =>
        cases isFile with
        | false => exact absurd hfile hpresent
        | true => exact (Scan.censusOf_of_file hsettings hfile).imp_right .inr

end

namespace Outcome

theorem ofFault_stdout (fault : Scan.Fault) : (ofFault fault).stdout = "" := by
  unfold ofFault
  split
  · rfl
  · split <;> rfl

theorem isFine_ofFault (fault : Scan.Fault) : (ofFault fault).isFine = false := by
  unfold ofFault
  split
  · rfl
  · split <;> rfl

end Outcome

namespace Watch

variable {disk : Disk Id} {p : Plan} {interval iterations : Option Int}

theorem minutes_of (p : Plan) (interval iterations : Option Int) :
    let asked := Settings.clampMinutes (interval.getD p.settings.report.autoScanMinutes)
    ((of p interval iterations).minutes : Int) = if asked = 0 then 1 else asked := by
  intro asked
  have hbounds : 0 ≤ asked ∧ asked ≤ 10 := Settings.clampMinutes_bounds _
  have hminutes : (of p interval iterations).minutes = (max 1 asked).toNat := rfl
  rw [hminutes]
  split <;> omega

theorem autoScanMinutes_of :
    (of p interval iterations).plan.settings.report.autoScanMinutes =
      (of p interval iterations).minutes :=
  (Int.toNat_of_nonneg (Int.le_trans (by decide) (Int.le_max_left 1 _))).symm

/-- What a scan finds does not hang on the settings of its report, and nothing else of its plan is
changed for a watch. -/
theorem result_of : (of p interval iterations).plan.result reader disk = p.result reader disk :=
  rfl

theorem scanOnce_of : ∃ told,
    (scanOnce reader disk (of p interval iterations).plan).run =
      Outcome.andThen { stderr := told }
        ((of p interval iterations).plan.outcome (p.result reader disk)) := by
  rw [← @result_of reader disk p interval iterations]
  exact scanOnce_run reader disk (of p interval iterations).plan

theorem scanOnce_of_ok {inventory : Inventory} (h : p.result reader disk = .ok inventory) :
    ∃ text, p.report? reader disk (of p interval iterations).minutes = .ok text ∧
      (scanOnce reader disk (of p interval iterations).plan).run.stdout = text ∧
      (scanOnce reader disk (of p interval iterations).plan).run.isFine = true := by
  obtain ⟨told, hrun⟩ := @scanOnce_of reader disk p interval iterations
  rw [hrun, Plan.report?, ← autoScanMinutes_of, h]
  exact ⟨_, rfl, String.empty_append, rfl⟩

theorem scanOnce_of_error {fault : Scan.Fault} (h : p.result reader disk = .error fault) :
    let o := (scanOnce reader disk (of p interval iterations).plan).run
    o.stdout = "" ∧ o.ending = (Outcome.ofFault fault).ending ∧ o.isFine = false := by
  obtain ⟨told, hrun⟩ := @scanOnce_of reader disk p interval iterations
  rw [hrun, h]
  exact ⟨String.empty_append.trans (Outcome.ofFault_stdout fault), rfl,
    Outcome.isFine_ofFault fault⟩

end Watch

/-! ## Rounds -/

/-- A watch takes its course between two things that it cannot foresee: what the disk answers after
so many pauses, and which pause is broken off. -/
structure World where
  kind? : Nat → Path → Except Disk.Fault (Option Disk.Kind)
  bytes : Nat → Path → Except Disk.Fault (List UInt8)
  isBroken : Nat → Bool
  current : Path
  home? : List Char → Option Path

namespace World

/-- The disk as it stands after a number of pauses. -/
def diskAt (world : World) (pauses : Nat) : Disk Id where
  kind? p := .mk (world.kind? pauses p)
  bytes p := .mk (world.bytes pauses p)
  current := world.current
  home? := world.home?

/-- The disk in the course of a watch, told the lengths of the pauses so far. -/
def disk (world : World) : Disk (StateM (List Nat)) where
  kind? p := .mk do return world.kind? (← get).length p
  bytes p := .mk do return world.bytes (← get).length p
  current := world.current
  home? := world.home?

/-- A pause of so many seconds; whether the watch is left to go on after it. -/
def pause (world : World) (seconds : Nat) : StateM (List Nat) Bool := do
  modify (· ++ [seconds])
  return !world.isBroken (← get).length

theorem disk_now (world : World) (s : List Nat) :
    (Now s).Disks world.disk (world.diskAt s.length) where
  kind? _ := rfl
  bytes _ := rfl
  current := rfl
  home? := rfl

theorem isFile_of_refused {world : World} {k : Nat} {p : Path} {fault : Disk.Fault}
    (h : world.kind? k p = .error fault) : ((world.diskAt k).isFile p).run = .error fault :=
  Disk.isFile_of_refused h

theorem pause_run (world : World) (seconds : Nat) (s : List Nat) :
    (world.pause seconds).run s = (!world.isBroken (s ++ [seconds]).length, s ++ [seconds]) := rfl

/-- A watch after so many rounds, each with its pause: what it leaves behind in at most so many more
rounds, and the pauses in all. -/
def keep (reader : Reader) (world : World) (w : Watch) (rounds completed : Nat) :
    Outcome × List Nat :=
  (w.run reader world.disk world.pause rounds completed).run
    (List.replicate completed (60 * w.minutes))

end World

namespace Watch

variable {σ : Type} {s : σ}

theorem round_now {disk : Disk (StateM σ)} {now : Disk Id} (h : (Now s).Disks disk now) (w : Watch)
    (completed : Nat) :
    (Now s).holds (w.round reader disk completed) (w.round reader now completed) := by
  refine (Now s).bind (scanOnce_related reader h w.plan) fun outcome => ?_
  split
  · exact (Now s).pure _
  · exact (Now s).pure _

section

variable {world : World} {w : Watch} {rounds k : Nat}

theorem round_run (disk : Disk Id) (w : Watch) (completed : Nat) :
    (w.round reader disk completed).run =
      if (scanOnce reader disk w.plan).run.isFine && !w.isOver (completed + 1) then
        ((scanOnce reader disk w.plan).run.andThen (w.tell (.nextScan w.minutes)), true)
      else ((scanOnce reader disk w.plan).run, false) := by
  have hround : ∀ o : Outcome,
      (if o.isFine && !w.isOver (completed + 1) then
        pure (o.andThen (w.tell (.nextScan w.minutes)), true) else pure (o, false) : Id _).run =
      if o.isFine && !w.isOver (completed + 1) then
        (o.andThen (w.tell (.nextScan w.minutes)), true) else (o, false) := by
    intro o
    split <;> rfl
  exact hround (scanOnce reader disk w.plan).run

/-- A round of a watch, told what the scan on the disk as it stands leaves behind. -/
theorem keep_succ {o : Outcome} (ho : (scanOnce reader (world.diskAt k) w.plan).run = o) :
    world.keep reader w (rounds + 1) k =
      if o.isFine && !w.isOver (k + 1) then
        let told := o.andThen (w.tell (.nextScan w.minutes))
        if world.isBroken (k + 1) then
          (told.andThen (w.stopped (k + 1)), List.replicate (k + 1) (60 * w.minutes))
        else
          (told.andThen (world.keep reader w rounds (k + 1)).1,
            (world.keep reader w rounds (k + 1)).2)
      else (o, List.replicate k (60 * w.minutes)) := by
  have hround : (w.round reader world.disk k).run (List.replicate k (60 * w.minutes)) =
      ((w.round reader (world.diskAt k) k).run, List.replicate k (60 * w.minutes)) := by
    have hnow := world.disk_now (List.replicate k (60 * w.minutes))
    rw [List.length_replicate] at hnow
    exact round_now hnow w k
  rw [round_run, ho] at hround
  have hpause : (world.pause (60 * w.minutes)).run (List.replicate k (60 * w.minutes)) =
      (!world.isBroken (k + 1), List.replicate (k + 1) (60 * w.minutes)) := by
    rw [World.pause_run, ← List.replicate_succ', List.length_replicate]
  rw [World.keep, run, run_bind_of_run hround]
  cases o.isFine && !w.isOver (k + 1) with
  | false => rfl
  | true =>
      dsimp only
      rw [if_pos rfl, if_pos rfl, if_pos rfl, run_bind_of_run hpause]
      cases world.isBroken (k + 1) <;> rfl

end

end Watch

/-! ## The course of a watch -/

/-- In the round behind so many pauses the scan comes to an inventory, the round is not the last one
that is asked for, and the pause after it is not broken off. -/
structure World.LeadsOn (reader : Reader) (world : World) (p : Plan) (iterations : Option Int)
    (k : Nat) : Prop where
  yields : ∃ inventory, p.result reader (world.diskAt k) = .ok inventory
  wanted : ∀ i ∈ iterations, (k + 1 : Int) < max 1 i
  unbroken : world.isBroken (k + 1) = false

/-- What a watch leaves behind from a round on: a report on the disk as it stood in each of so many
rounds, pauses of the same length, and how it ends. -/
structure World.Leaves (reader : Reader) (world : World) (p : Plan)
    (minutes first reports pauses : Nat) (ending : Ending) (left : Outcome × List Nat) :
    Prop where
  printed : ∃ texts : List String,
    (List.range' first reports).map (fun k => p.report? reader (world.diskAt k) minutes) =
      texts.map .ok ∧ left.1.stdout = String.join texts
  paused : left.2 = List.replicate pauses (60 * minutes)
  ends : left.1.ending = ending

namespace Watch

variable {world : World} {disk : Disk Id} {p : Plan} {interval iterations : Option Int}
  {rounds k : Nat}

theorem isOver_eq_false (h : ∀ i ∈ iterations, (k + 1 : Int) < max 1 i) :
    (of p interval iterations).isOver (k + 1) = false := by
  have hlimit : (of p interval iterations).limit = iterations := rfl
  rw [isOver, hlimit, Option.any_eq_false]
  intro i hi
  have hwanted := h i hi
  rw [decide_eq_false_iff_not]
  omega

theorem isOver_eq_true (h : ∃ i ∈ iterations, max 1 i = (k + 1 : Int)) :
    (of p interval iterations).isOver (k + 1) = true := by
  obtain ⟨i, rfl, hlast⟩ := h
  exact decide_eq_true (Int.le_trans (Int.le_max_right 1 i) (Int.le_of_eq hlast))

theorem stdout_andThen_tell (o : Outcome) (w : Watch) (event : Log.Event) (rest : Outcome) :
    ((o.andThen (w.tell event)).andThen rest).stdout = o.stdout ++ rest.stdout :=
  congrArg (· ++ rest.stdout) String.append_empty

/-- A round that leads on prints its report in front of whatever comes behind it. -/
theorem leaves_of_leadsOn (h : world.LeadsOn reader p iterations k) {reports pauses : Nat}
    {ending : Ending}
    (hrest : world.Leaves reader p (of p interval iterations).minutes (k + 1) reports pauses ending
      (world.keep reader (of p interval iterations) rounds (k + 1))) :
    world.Leaves reader p (of p interval iterations).minutes k (reports + 1) pauses ending
      (world.keep reader (of p interval iterations) (rounds + 1) k) := by
  obtain ⟨inventory, hinventory⟩ := h.yields
  obtain ⟨text, htext, hstdout, hfine⟩ := @scanOnce_of_ok _ _ _ interval iterations _ hinventory
  obtain ⟨⟨texts, htexts, hprinted⟩, hpaused, hends⟩ := hrest
  rw [keep_succ rfl, hfine, isOver_eq_false h.wanted, h.unbroken]
  refine ⟨⟨text :: texts, ?_, ?_⟩, hpaused, hends⟩
  · rw [List.range'_succ, List.map_cons, List.map_cons, htexts, htext]
  · rw [String.join_cons, ← hprinted, ← hstdout]
    exact stdout_andThen_tell _ _ _ _

theorem leaves_of_forall_leadsOn (h : ∀ j < k, world.LeadsOn reader p iterations j)
    {reports pauses : Nat} {ending : Ending}
    (hrest : world.Leaves reader p (of p interval iterations).minutes k reports pauses ending
      (world.keep reader (of p interval iterations) rounds k)) :
    world.Leaves reader p (of p interval iterations).minutes 0 (k + reports) pauses ending
      (world.keep reader (of p interval iterations) (k + rounds) 0) := by
  induction k generalizing reports rounds with
  | zero => rwa [Nat.zero_add, Nat.zero_add]
  | succ k ih =>
      -- The last round that leads on is put in front first, and the others in front of it.
      have hk := leaves_of_leadsOn (h k (Nat.lt_succ_self k)) hrest
      rw [Nat.add_right_comm, Nat.add_assoc, Nat.add_right_comm, Nat.add_assoc]
      exact ih (fun j hj => h j (Nat.lt_succ_of_lt hj)) hk

/-- The same for a watch that may take any number of rounds behind them. -/
theorem leaves_of_next (h : ∀ j < k, world.LeadsOn reader p iterations j) {reports pauses : Nat}
    {ending : Ending}
    (hnext : ∀ more, world.Leaves reader p (of p interval iterations).minutes k reports pauses
      ending (world.keep reader (of p interval iterations) (more + 1) k))
    (hrounds : rounds > k) :
    world.Leaves reader p (of p interval iterations).minutes 0 (k + reports) pauses ending
      (world.keep reader (of p interval iterations) rounds 0) := by
  obtain ⟨more, rfl⟩ := Nat.exists_eq_add_of_lt hrounds
  rw [Nat.add_assoc]
  exact leaves_of_forall_leadsOn h (hnext more)

/-! ### How a watch ends -/

theorem leaves_nothing : world.Leaves reader p (of p interval iterations).minutes k 0 k (.exit 0)
    (world.keep reader (of p interval iterations) 0 k) :=
  ⟨⟨[], rfl, rfl⟩, rfl, rfl⟩

theorem printed_one {text : String} {minutes : Int}
    (h : p.report? reader (world.diskAt k) minutes = .ok text) :
    (List.range' k 1).map (fun j => p.report? reader (world.diskAt j) minutes) = [text].map .ok ∧
      text = String.join [text] :=
  ⟨congrArg (fun report => [report]) h, String.empty_append.symm⟩

theorem leaves_of_error {fault : Scan.Fault} (h : p.result reader (world.diskAt k) = .error fault) :
    world.Leaves reader p (of p interval iterations).minutes k 0 k (Outcome.ofFault fault).ending
      (world.keep reader (of p interval iterations) (rounds + 1) k) := by
  obtain ⟨hstdout, hending, hfine⟩ := @scanOnce_of_error _ _ _ interval iterations _ h
  rw [keep_succ rfl, hfine]
  exact ⟨⟨[], rfl, hstdout⟩, rfl, hending⟩

theorem leaves_of_last {inventory : Inventory}
    (h : p.result reader (world.diskAt k) = .ok inventory)
    (hlast : ∃ i ∈ iterations, max 1 i = (k + 1 : Int)) :
    world.Leaves reader p (of p interval iterations).minutes k 1 k (.exit 0)
      (world.keep reader (of p interval iterations) (rounds + 1) k) := by
  obtain ⟨text, htext, hstdout, hfine⟩ := @scanOnce_of_ok _ _ _ interval iterations _ h
  rw [keep_succ rfl, hfine, isOver_eq_true hlast]
  obtain ⟨htexts, hjoin⟩ := printed_one htext
  exact ⟨⟨[text], htexts, hstdout.trans hjoin⟩, rfl, of_decide_eq_true hfine⟩

theorem leaves_of_broken {inventory : Inventory}
    (h : p.result reader (world.diskAt k) = .ok inventory)
    (hwanted : ∀ i ∈ iterations, (k + 1 : Int) < max 1 i)
    (hbroken : world.isBroken (k + 1) = true) :
    world.Leaves reader p (of p interval iterations).minutes k 1 (k + 1) (.exit 0)
      (world.keep reader (of p interval iterations) (rounds + 1) k) := by
  obtain ⟨text, htext, hstdout, hfine⟩ := @scanOnce_of_ok _ _ _ interval iterations _ h
  rw [keep_succ rfl, hfine, isOver_eq_false hwanted, hbroken]
  obtain ⟨htexts, hjoin⟩ := printed_one htext
  refine ⟨⟨[text], htexts, ?_⟩, rfl, rfl⟩
  calc
    _ = (scanOnce reader (world.diskAt k) (of p interval iterations).plan).run.stdout ++ "" :=
      stdout_andThen_tell _ _ _ _
    _ = text := String.append_empty.trans hstdout
    _ = String.join [text] := hjoin

end Watch

/-- What is known of a watch whose first `k` rounds led on, however many rounds it may take. -/
structure World.Course (reader : Reader) (world : World) (p : Plan) (iterations : Option Int)
    (w : Watch) (k : Nat) : Prop where
  /-- Up to here there is a report and a pause for each round. -/
  soFar : world.Leaves reader p w.minutes 0 k k (.exit 0)
    ((w.run reader world.disk world.pause k 0).run [])
  /-- There are three things that the next scan can come to. -/
  next : (∃ inventory, p.result reader (world.diskAt k) = .ok inventory) ∨
    p.Lacks (world.diskAt k) ∨
    ∃ fault, (world.diskAt k).Refuses fault ∧
      p.result reader (world.diskAt k) = .error (.disk fault)
  /-- Without its root the watch breaks off, with no further report. -/
  missing : p.Lacks (world.diskAt k) → ∀ rounds > k,
    world.Leaves reader p w.minutes 0 k k (.exit 1)
      ((w.run reader world.disk world.pause rounds 0).run [])
  /-- And so it does without an answer, as a scan would that is not watched. -/
  refused : ∀ fault, p.result reader (world.diskAt k) = .error (.disk fault) → ∀ rounds > k,
    world.Leaves reader p w.minutes 0 k k (Outcome.ofFault (.disk fault)).ending
      ((w.run reader world.disk world.pause rounds 0).run [])
  /-- Behind the last round that is asked for there is no pause. -/
  last : (∃ inventory, p.result reader (world.diskAt k) = .ok inventory) →
    (∃ i ∈ iterations, max 1 i = (k + 1 : Int)) → ∀ rounds > k,
      world.Leaves reader p w.minutes 0 (k + 1) k (.exit 0)
        ((w.run reader world.disk world.pause rounds 0).run [])
  /-- A pause that is broken off ends the watch. -/
  broken : (∃ inventory, p.result reader (world.diskAt k) = .ok inventory) →
    (∀ i ∈ iterations, (k + 1 : Int) < max 1 i) → world.isBroken (k + 1) = true → ∀ rounds > k,
      world.Leaves reader p w.minutes 0 (k + 1) (k + 1) (.exit 0)
        ((w.run reader world.disk world.pause rounds 0).run [])

theorem Watch.course_of {world : World} {p : Plan} {interval iterations : Option Int} {k : Nat}
    (hsettings : p.settings.Sound) (h : ∀ j < k, world.LeadsOn reader p iterations j) :
    world.Course reader p iterations (.of p interval iterations) k where
  soFar := leaves_of_forall_leadsOn h leaves_nothing
  next := Plan.result_cases hsettings
  missing := by
    intro hlacks rounds hk
    obtain hresult | ⟨root, hresult⟩ := @Plan.error_of_lacks reader _ _ hlacks
    · exact leaves_of_next h (fun _ => leaves_of_error hresult) hk
    · exact leaves_of_next h (fun _ => leaves_of_error hresult) hk
  refused := by
    intro fault hresult rounds hk
    exact leaves_of_next h (fun _ => leaves_of_error hresult) hk
  last := by
    rintro ⟨inventory, hinventory⟩ hlast rounds hk
    exact leaves_of_next h (fun _ => leaves_of_last hinventory hlast) hk
  broken := by
    rintro ⟨inventory, hinventory⟩ hwanted hbroken rounds hk
    exact leaves_of_next h (fun _ => leaves_of_broken hinventory hwanted hbroken) hk

/-! ## From arguments on -/

section

variable {disk : Disk Id} {lowest : Log.Level} {t : Target}

theorem start_watch {args : List String} {verbose quiet : Bool} {interval iterations : Option Int}
    (hargs : parse args = .ok ⟨verbose, quiet, .watch t interval iterations⟩) :
    (start reader disk args).run =
      match (plan reader disk (Log.threshold verbose quiet) t).run with
      | .error outcome => .over outcome
      | .ok p => .watch (.of p interval iterations) := by
  rw [start, hargs]
  dsimp only
  rw [Id.run_bind]
  cases (plan reader disk (Log.threshold verbose quiet) t).run with
  | ok p => rfl
  | error outcome => rfl

theorem exists_failure_of_missing {root : Path}
    (hroot : disk.expandHome? (.ofString t.path) = some root)
    (hfile : (disk.isFile root).run = .ok false) :
    ∃ message, (plan reader disk lowest t).run = .error (.failure message) := by
  cases hcap : t.maxFiles.any (· < 1) with
  | true => exact ⟨_, plan_of_cap hcap⟩
  | false => exact ⟨_, plan_of_missing hcap hroot hfile⟩

theorem exists_of_plan {p : Plan} (h : (plan reader disk lowest t).run = .ok p) :
    ∃ root workspace directory settings,
      disk.expandHome? (.ofString t.path) = some root ∧
      (workspaceOf disk root t.workspace).run = .ok workspace ∧
      (Settings.load reader disk workspace).run = .ok (directory, settings) ∧
      p = .of lowest root workspace t settings := by
  rw [plan] at h
  split at h
  · cases h
  · split at h
    · cases h
    · next root hroot =>
        obtain ⟨isFile, -, h⟩ := run_bind_eq_ok.mp h
        cases isFile with
        | false => cases h
        | true =>
            obtain ⟨workspace, hworkspace, h⟩ := run_bind_eq_ok.mp h
            obtain ⟨settings, hsettings, h⟩ := run_bind_eq_ok.mp h
            cases h
            rw [settingsOf_run] at hsettings
            cases hload : (Settings.load reader disk workspace).run with
            | error fault =>
                rw [hload] at hsettings
                cases hsettings
            | ok found =>
                rw [hload] at hsettings
                cases hsettings
                exact ⟨root, workspace, found.1, found.2, hroot, run_adapt_eq_ok.mp hworkspace,
                  hload, rfl⟩

end

/-- A watch is one scan after the other. It starts with the disk as it stands then, and not at all
without its root. Its settings are those of the start. Whatever becomes of the disk in the pauses,
what it prints are the reports of scans with these settings, each of the disk as it stands in a
round, with a pause between any two of them; and this goes on until the rounds that are asked for
are done, the root is missing, or a pause is broken off. Only the disk can cut it short otherwise,
by refusing a scan an answer. -/
theorem watch_reports (reader : Reader) (world : World) {args : List String} {verbose quiet : Bool}
    {t : Target} {interval iterations : Option Int}
    (hargs : parse args = .ok ⟨verbose, quiet, .watch t interval iterations⟩) :
    (start reader world.disk args).run [] = ((start reader (world.diskAt 0) args).run, []) ∧
    (∀ root, (world.diskAt 0).expandHome? (.ofString t.path) = some root →
      ((world.diskAt 0).isFile root).run = .ok false →
      ∃ o, (start reader (world.diskAt 0) args).run = .over o ∧ o.stdout = "" ∧
        o.ending = .exit 1) ∧
    ∀ p, (plan reader (world.diskAt 0) (Log.threshold verbose quiet) t).run = .ok p →
      (∃ root workspace directory settings,
        (world.diskAt 0).expandHome? (.ofString t.path) = some root ∧
        (workspaceOf (world.diskAt 0) root t.workspace).run = .ok workspace ∧
        (Settings.load reader (world.diskAt 0) workspace).run = .ok (directory, settings) ∧
        p = .of (Log.threshold verbose quiet) root workspace t settings) ∧
      ∃ w, (start reader (world.diskAt 0) args).run = .watch w ∧
        (let asked := Settings.clampMinutes (interval.getD p.settings.report.autoScanMinutes)
         (w.minutes : Int) = if asked = 0 then 1 else asked) ∧
        60 ≤ 60 * w.minutes ∧ 60 * w.minutes ≤ 600 ∧
        ∀ k, (∀ j < k, world.LeadsOn reader p iterations j) →
          world.Course reader p iterations w k := by
  refine ⟨start_related reader (world.disk_now []) args, ?_, ?_⟩
  · intro root hroot hfile
    obtain ⟨message, hfailure⟩ := @exists_failure_of_missing reader (world.diskAt 0)
      (Log.threshold verbose quiet) t root hroot hfile
    rw [start_watch hargs, hfailure]
    exact ⟨_, rfl, rfl, rfl⟩
  · intro p hplan
    obtain ⟨root, workspace, directory, settings, -, -, hload, hp⟩ := exists_of_plan hplan
    have hsettings : p.settings.Sound := hp ▸ Settings.sound_of_load hload
    have hminutes := Watch.minutes_of p interval iterations
    have hbounds := Settings.clampMinutes_bounds
      (interval.getD p.settings.report.autoScanMinutes)
    refine ⟨exists_of_plan hplan, .of p interval iterations, ?_, hminutes, ?_, ?_,
      fun k h => Watch.course_of hsettings h⟩
    · rw [start_watch hargs, hplan]
    · dsimp only at hminutes
      split at hminutes <;> omega
    · dsimp only at hminutes
      split at hminutes <;> omega

/-- A style sheet that is changed in the first pause and removed in the second one. -/
def vanishingTrees : Nat → Tree
  | 0 => { files := [(.ofString "/w/a.css", [])] }
  | 1 => { files := [(.ofString "/w/a.css", [0x23, 0x66, 0x30, 0x30])] }
  | _ => { directories := [.ofString "/w"] }

/-- No question is refused about it. -/
def vanishing : World where
  kind? k p := .ok (((vanishingTrees k).placeAt? p).map Tree.Place.kind)
  bytes k p := (vanishingTrees k).bytes (.ofString "/w") p
  isBroken _ := false
  current := .ofString "/w"
  home? _ := none

/-- The plan of a scan of the style sheet, with the settings that hold without any. -/
def sheetPlan : Plan :=
  ⟨Log.threshold false false, {}, .ofString "/w/a.css", .ofString "/w", none, .markdown⟩

theorem leadsOn_vanishing {k : Nat} (hk : k < 2) :
    vanishing.LeadsOn .blank sheetPlan (some 5) k := by
  have hfile : ((vanishing.diskAt k).isFile (.ofString "/w/a.css")).run = .ok true := by
    obtain rfl | rfl : k = 0 ∨ k = 1 := by omega
    · rfl
    · rfl
  refine ⟨?_, ?_, rfl⟩
  · obtain hyields | hlacks | ⟨fault, ⟨p, hfault⟩, -⟩ :=
      @Plan.result_cases .blank (vanishing.diskAt k) sheetPlan Settings.sound_default
    · exact hyields
    · cases hfile.symm.trans (hlacks _ _ rfl rfl)
    · cases hfault
  · rintro i ⟨⟩
    omega

theorem lacks_vanishing : sheetPlan.Lacks (vanishing.diskAt 2) := by
  rintro root workspace hroot -
  cases hroot
  rfl

/-- Of five rounds that are asked for there are two. -/
theorem watch_reports_vanishing :
    parse ["watch", "/w/a.css", "--iterations", "5"] =
      .ok ⟨false, false, .watch ⟨"/w/a.css", none, none, none⟩ none (some 5)⟩ ∧
    ∃ p w, (start .blank vanishing.disk ["watch", "/w/a.css", "--iterations", "5"]).run [] =
        (.watch w, []) ∧
      vanishing.Leaves .blank p w.minutes 0 2 2 (.exit 1)
        ((w.run .blank vanishing.disk vanishing.pause 5 0).run []) := by
  have hargs : parse ["watch", "/w/a.css", "--iterations", "5"] =
      .ok ⟨false, false, .watch ⟨"/w/a.css", none, none, none⟩ none (some 5)⟩ := by
    cbv
  have hplan : (plan .blank (vanishing.diskAt 0) (Log.threshold false false)
      ⟨"/w/a.css", none, none, none⟩).run = .ok sheetPlan := rfl
  obtain ⟨hstart, -, hwatch⟩ := watch_reports .blank vanishing hargs
  obtain ⟨-, w, hw, -, -, -, hrounds⟩ := hwatch sheetPlan hplan
  have hcourse := hrounds 2 fun _ => leadsOn_vanishing
  exact ⟨hargs, sheetPlan, w, by rw [hstart, hw], hcourse.missing lacks_vanishing 5 (by decide)⟩

/-! ### A refusal on the way -/

/-- A name with more letters than any directory takes. -/
def sprawl : Path.Name where
  text := List.replicate 300 'a' ++ ".css".toList
  ne_nil := by decide
  ne_dot := by decide
  no_slash := by decide

def sprawlPath : Path := ⟨.slash, (Path.ofString "/w").names ++ [sprawl]⟩

def sprawlingSheet : List Char := "@import '".toList ++ sprawl.text ++ "';".toList

/-- A style sheet that imports a file of that name, and stays as it is. -/
def sprawling : World :=
  let tree : Tree := { files := [(.ofString "/w/a.css", sprawlingSheet.map (·.toUInt8))] }
  { kind? := fun _ p => (tree.place (.ofString "/w") p).map (·.map Tree.Place.kind)
    bytes := fun _ p => tree.bytes (.ofString "/w") p
    isBroken := fun _ => false
    current := .ofString "/w"
    home? := fun _ => none }

theorem edges_sprawlingSheet : Import.edges sprawlingSheet = [⟨sprawl.text, .stylesheet, 0⟩] := by
  have hstatements : Import.statements sprawlingSheet = [⟨sprawl.text, .stylesheet, 0⟩] := by
    decide +kernel
  rw [Import.edges, hstatements, List.mergeSort_singleton]
  decide +kernel

theorem isExcluded_sprawlPath :
    Import.isExcluded ({} : Import.Settings).excludePaths (.ofString "/w") sprawlPath = false := by
  have hlabel : Path.label (.ofString "/w") sprawlPath = Path.toString ⟨.relative, [sprawl]⟩ :=
    Path.label_below (.ofString "/w") [sprawl]
  rw [Import.isExcluded, hlabel, Path.toString, String.toList_ofList]
  decide +kernel

theorem kind?_sprawlPath : sprawling.kind? 0 sprawlPath = .error (.tooLong sprawlPath) := by
  decide +kernel

theorem targets_sprawlingSheet : (Import.targets (sprawling.diskAt 0).host {} (.ofString "/w")
    (.ofString "/w/a.css") (Import.edges sprawlingSheet)).run = .error (.tooLong sprawlPath) := by
  have hcandidates : Import.candidates [] ({} : Import.Settings).extensions (.ofString "/w")
      (.ofString "/w/a.css") .stylesheet sprawl.text = [sprawlPath] := by
    decide +kernel
  rw [edges_sprawlingSheet]
  exact Import.targets_of_refused (by decide +kernel) hcandidates isExcluded_sprawlPath
    (World.isFile_of_refused kind?_sprawlPath)

theorem result_sprawling :
    sheetPlan.result .blank (sprawling.diskAt 0) = .error (.disk (.tooLong sprawlPath)) := by
  have hroot : (Scan.locate (sprawling.diskAt 0) sheetPlan.root).run = .ok (.ofString "/w/a.css") :=
    rfl
  have hworkspace : (Scan.locate (sprawling.diskAt 0) sheetPlan.workspace).run =
      .ok (.ofString "/w") := rfl
  have hread : ((sprawling.diskAt 0).read (.ofString "/w/a.css")).run = .ok sprawlingSheet := by
    decide +kernel
  rw [Plan.result_of_located hroot hworkspace]
  exact Scan.censusOf_of_unfollowed rfl hread (by decide) targets_sprawlingSheet

/-- Of two rounds that are asked for there is none, though the root is there all the time. -/
theorem watch_breaks_off :
    (∀ k, ¬ sheetPlan.Lacks (sprawling.diskAt k)) ∧
    ∃ w, (start .blank sprawling.disk ["watch", "/w/a.css", "--iterations", "2"]).run [] =
        (.watch w, []) ∧
      ((w.run .blank sprawling.disk sprawling.pause 2 0).run []).1.stdout = "" ∧
      ((w.run .blank sprawling.disk sprawling.pause 2 0).run []).1.ending =
        .crash (.disk (.tooLong sprawlPath)) := by
  have hplan : (plan .blank (sprawling.diskAt 0) (Log.threshold false false)
      ⟨"/w/a.css", none, none, none⟩).run = .ok sheetPlan := rfl
  have hargs : parse ["watch", "/w/a.css", "--iterations", "2"] =
      .ok ⟨false, false, .watch ⟨"/w/a.css", none, none, none⟩ none (some 2)⟩ := by
    cbv
  have hstart : (start .blank sprawling.disk ["watch", "/w/a.css", "--iterations", "2"]).run [] =
      (.watch (.of sheetPlan none (some 2)), []) := by
    have hnow := start_related .blank (sprawling.disk_now [])
      ["watch", "/w/a.css", "--iterations", "2"]
    have hwatch := @start_watch .blank (sprawling.diskAt 0) _ _ _ _ _ _ hargs
    rw [hplan] at hwatch
    exact hnow.trans (congrArg (·, []) hwatch)
  have hbreaks := @Watch.leaves_of_error .blank sprawling sheetPlan none (some 2) 1 0 _
    result_sprawling
  refine ⟨?_, _, hstart, ?_, hbreaks.ends⟩
  · intro k hlacks
    cases hlacks _ _ rfl rfl
  · obtain ⟨texts, htexts, hstdout⟩ := hbreaks.printed
    cases texts with
    | nil => exact hstdout
    | cons => cases htexts

end ColorCensus.Command
