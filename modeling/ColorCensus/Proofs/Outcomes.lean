import ColorCensus.Proofs.CommandLine
import ColorCensus.Proofs.Loading
import ColorCensus.Proofs.Pass
import ColorCensus.Service

/-!
# What a scan comes to

With sound settings a census fails for one reason only: there is no root file. That is so over a
host, which always answers. A disk may refuse an answer, and then the pass breaks off where it
stands; up to there it is the pass over a host that answers in the place of the disk
(`Disk.host_settles`). So four things can come of a scan (`Scan.Ends`), and whatever a readable
settings file holds, a scan on the command line ends with a report or with a message, and a scan on
request with an inventory or with one of two refusals, as long as the disk does not refuse to tell
what stands at some path.
-/

namespace ColorCensus

open Yaml (Reader)

/-! ## Disks -/

namespace Disk

/-- A disk refuses to tell what stands at some path. -/
def Refuses (disk : Disk Id) (fault : Fault) : Prop := ∃ p, (disk.kind? p).run = .error fault

/-- The host of a pass that takes it for a no if the disk refuses to answer. -/
def calm (disk : Disk Id) : Host Id where
  isFile p :=
    match (disk.isFile p).run with
    | .ok answer => answer
    | .error _ => false
  read := disk.read

variable {disk : Disk Id} {p : Path}

theorem refuses_of_isFile {fault : Fault} (h : (disk.isFile p).run = .error fault) :
    disk.Refuses fault := by
  refine ⟨p, ?_⟩
  rw [isFile, ExceptT.run_map] at h
  cases hkind : (disk.kind? p).run with
  | ok kind =>
      rw [hkind] at h
      cases h
  | error fault =>
      rw [hkind] at h
      cases h
      rfl

theorem isFile_of_refused {fault : Fault} (h : (disk.kind? p).run = .error fault) :
    (disk.isFile p).run = .error fault := by
  rw [isFile, ExceptT.run_map, h]
  rfl

theorem calm_isFile {answer : Bool} (h : (disk.isFile p).run = .ok answer) :
    (disk.calm.isFile p).run = answer := by
  change (match (disk.isFile p).run with
    | .ok answer => answer
    | .error _ => false) = answer
  rw [h]

theorem host_settles (disk : Disk Id) : (Settles disk.Refuses).Hosts disk.host disk.calm where
  isFile p := by
    cases h : (disk.isFile p).run with
    | ok answer => exact .inl (h.trans (congrArg Except.ok (calm_isFile h).symm))
    | error fault => exact .inr ⟨fault, refuses_of_isFile h, h⟩
  read _ := .inl rfl
  label := rfl

end Disk

theorem Import.targets_of_refused {disk : Disk Id} {settings : Import.Settings}
    {workspace importer p : Path} {ps : List Path} {e : Edge} {es : List Edge} {fault : Disk.Fault}
    (hfollowable : isFollowable settings.aliases e.kind e.specifier = true)
    (hcandidates : candidates settings.aliases settings.extensions workspace importer e.kind
      e.specifier = p :: ps)
    (hincluded : isExcluded settings.excludePaths workspace p = false)
    (hfile : (disk.isFile p).run = .error fault) :
    (targets disk.host settings workspace importer (e :: es)).run = .error fault := by
  have hfirst : (firstFile? disk.host settings workspace (p :: ps)).run = .error fault := by
    rw [firstFile?, hincluded, if_neg Bool.false_ne_true]
    exact run_bind_of_error hfile
  rw [targets]
  refine run_bind_of_error ?_
  rw [target?, if_pos hfollowable, hcandidates]
  exact run_bind_of_error hfirst

namespace Scan

variable {reader : Reader} {disk : Disk Id} {settings : Settings} {root workspace : Path}
  {cap : Option Int}

/-! ## The census of a disk -/

/-- What comes of a census on a disk. -/
def censusOf (disk : Disk Id) (settings : Settings) (workspace root : Path) (cap : Option Int) :
    Except Fault Inventory :=
  match (Census.take disk.host settings workspace root cap).run with
  | .ok (result, _) => result.mapError .census
  | .error fault => .error (.disk fault)

theorem censusOf_of_missing (h : (disk.isFile root).run = .ok false) :
    censusOf disk settings workspace root cap = .error (.census (.rootMissing root)) := by
  have htake : (Census.take disk.host settings workspace root cap).run =
      .ok (.error (.rootMissing root), []) := run_bind_of_ok h
  rw [censusOf, htake]
  rfl

theorem censusOf_of_refused {fault : Disk.Fault} (h : (disk.isFile root).run = .error fault) :
    censusOf disk settings workspace root cap = .error (.disk fault) := by
  have htake : (Census.take disk.host settings workspace root cap).run = .error fault :=
    run_bind_of_error h
  rw [censusOf, htake]

/-- A root that imports something about which the disk refuses an answer has no census. -/
theorem censusOf_of_unfollowed {text : List Char} {fault : Disk.Fault}
    (hfile : (disk.isFile root).run = .ok true) (hread : (disk.read root).run = .ok text)
    (hcap : 0 < cap.getD settings.imports.maxFiles)
    (htargets : (Import.targets disk.host settings.imports workspace root
      (Import.edges text)).run = .error fault) :
    censusOf disk settings workspace root cap = .error (.disk fault) := by
  have hhost : (disk.host.read root).run = .ok (.ok text) := by
    change (ExceptT.lift (disk.read root)).run = _
    rw [ExceptT.run_lift]
    exact congrArg Except.ok hread
  obtain ⟨room, hroom⟩ : ∃ room, (cap.getD settings.imports.maxFiles).toNat = room + 1 :=
    ⟨_, (Nat.succ_pred_eq_of_pos (Int.pos_iff_toNat_pos.mp hcap)).symm⟩
  have hclosure : (Import.closure disk.host settings.imports workspace root
      (cap.getD settings.imports.maxFiles)).run = .error fault := by
    have hfresh : root ∉ ([] : List Source).map (·.path) := List.not_mem_nil
    refine run_bind_of_error ?_
    rw [hroom, Import.walk, if_neg hfresh]
    exact (run_bind_of_ok hhost).trans (run_bind_of_error htargets)
  have htake : (Census.take disk.host settings workspace root cap).run = .error fault :=
    (run_bind_of_ok hfile).trans (run_bind_of_error hclosure)
  rw [censusOf, htake]

/-- From a root that is there, nothing keeps a census with sound settings from its inventory but a
disk that refuses an answer on the way. -/
theorem censusOf_of_file (hsettings : settings.Sound) (h : (disk.isFile root).run = .ok true) :
    (∃ inventory, censusOf disk settings workspace root cap = .ok inventory) ∨
      ∃ fault, disk.Refuses fault ∧
        censusOf disk settings workspace root cap = .error (.disk fault) := by
  obtain hsame | ⟨fault, hfault, hrefused⟩ :=
    Census.take_related disk.host_settles settings workspace root cap
  · obtain ⟨precedence, hprecedence⟩ := Option.isSome_iff_exists.mp hsettings.precedence
    obtain ⟨inventory, hinventory⟩ := @Census.exists_take_eq_ok disk.calm settings workspace root
      cap precedence (Disk.calm_isFile h) hprecedence hsettings.windows.2.2
    refine .inl ⟨inventory, ?_⟩
    rw [censusOf, hsame]
    dsimp only
    rw [hinventory]
    rfl
  · refine .inr ⟨fault, hfault, ?_⟩
    rw [censusOf, hrefused]

/-! ## Scans -/

/-- What a scan with sound settings can come to. -/
inductive Ends (disk : Disk Id) : Except Fault Inventory → Prop
  | inventory (inventory : Inventory) : Ends disk (.ok inventory)
  | noHome : Ends disk (.error .noHome)
  | missing (root : Path) : Ends disk (.error (.census (.rootMissing root)))
  | refused {fault : Disk.Fault} (hfault : disk.Refuses fault) : Ends disk (.error (.disk fault))

theorem censusOf_ends (hsettings : settings.Sound) :
    Ends disk (censusOf disk settings workspace root cap) := by
  cases h : (disk.isFile root).run with
  | error fault =>
      rw [censusOf_of_refused h]
      exact .refused (Disk.refuses_of_isFile h)
  | ok isFile =>
      cases isFile with
      | false =>
          rw [censusOf_of_missing h]
          exact .missing root
      | true =>
          obtain ⟨inventory, htaken⟩ | ⟨fault, hfault, htaken⟩ :=
            @censusOf_of_file disk settings root workspace cap hsettings h
          · rw [htaken]
            exact .inventory inventory
          · rw [htaken]
            exact .refused hfault

section

variable {given : Option Settings} {p q : Path} {directory : Option Path}

theorem run_of_attempt :
    (run reader disk given p directory cap).run.1 =
      match (attempt reader disk given p directory cap).run with
      | .ok (result, _) => result.mapError .census
      | .error fault => .error fault := by
  rw [run, Id.run_bind]
  cases h : (attempt reader disk given p directory cap).run with
  | ok found => rfl
  | error fault => rfl

/-- Once it is known where the root is, where the workspace is, and what the settings are, a scan
is the census. -/
theorem run_of_located (hroot : (locate disk p).run = .ok root)
    (hworkspace : (workspaceFor disk root directory).run = .ok workspace) :
    (run reader disk given p directory cap).run.1 =
      match (settingsFor reader disk workspace given).run with
      | .ok settings => censusOf disk settings workspace root cap
      | .error fault => .error fault := by
  rw [run_of_attempt, attempt, run_bind_of_ok hroot, run_bind_of_ok hworkspace]
  cases hsettings : (settingsFor reader disk workspace given).run with
  | error fault => rw [run_bind_of_error hsettings]
  | ok settings =>
      rw [run_bind_of_ok hsettings, ExceptT.run_adapt]
      dsimp only
      unfold censusOf
      cases (Census.take disk.host settings workspace root cap).run <;> rfl

theorem run_of_unlocated {fault : Fault} (hroot : (locate disk p).run = .error fault) :
    (run reader disk given p directory cap).run.1 = .error fault := by
  rw [run_of_attempt, attempt, run_bind_of_error hroot]

theorem locate_eq (disk : Disk Id) (p : Path) :
    (locate disk p).run = .error .noHome ∨ ∃ q, (locate disk p).run = .ok q := by
  unfold locate
  split
  · exact .inr ⟨_, rfl⟩
  · exact .inl rfl

theorem run_given :
    (run reader disk (some settings) p (some q) cap).run.1 =
      match (locate disk p).run, (locate disk q).run with
      | .ok root, .ok workspace => censusOf disk settings workspace root cap
      | _, _ => .error .noHome := by
  obtain hroot | ⟨root, hroot⟩ := locate_eq disk p
  · rw [run_of_unlocated hroot, hroot]
  · rw [hroot]
    obtain hworkspace | ⟨workspace, hworkspace⟩ := locate_eq disk q
    · have hfault : (workspaceFor disk root (some q)).run = .error .noHome := hworkspace
      rw [run_of_attempt, attempt, run_bind_of_ok hroot, run_bind_of_error hfault, hworkspace]
    · have hfound : (workspaceFor disk root (some q)).run = .ok workspace := hworkspace
      rw [hworkspace, run_of_located hroot hfound]
      rfl

theorem run_given_ends (hsettings : settings.Sound) :
    Ends disk (run reader disk (some settings) p (some q) cap).run.1 := by
  rw [run_given]
  split
  · exact censusOf_ends hsettings
  · exact .noHome

end

end Scan

/-! ## On the command line -/

namespace Command

namespace Outcome

/-- A run ends with a report on the output, or with a message and no output. -/
def IsTold (o : Outcome) : Prop :=
  (o.ending = .exit 0 ∧
    ∃ options format inventory, o.stdout = Report.render options format inventory) ∨
  (o.ending = .exit 1 ∧ o.stdout = "" ∧ o.stderr ≠ "")

/-- A run breaks off because the disk refuses to tell what stands at some path. -/
def IsRefused (o : Outcome) (disk : Disk Id) : Prop :=
  ∃ fault, disk.Refuses fault ∧ o.ending = .crash (.disk fault)

theorem append_ne_empty {s t : String} (h : t ≠ "") : s ++ t ≠ "" := by
  intro hempty
  exact h (String.append_eq_empty_iff.mp hempty).2

theorem isTold_failure {text : String} (h : text ≠ "") : (failure text).IsTold :=
  .inr ⟨rfl, rfl, h⟩

theorem isTold_told {told text : String} (h : text ≠ "") :
    (andThen { stderr := told } (failure text)).IsTold :=
  .inr ⟨rfl, rfl, append_ne_empty h⟩

end Outcome

variable {reader : Reader} {disk : Disk Id} {p : Plan} {root workspace : Path} {t : Target}

theorem scanOnce_run (reader : Reader) (disk : Disk Id) (p : Plan) :
    ∃ told, (scanOnce reader disk p).run = Outcome.andThen { stderr := told }
      (p.outcome
        (Scan.run reader disk (some p.settings) p.root (some p.workspace) p.maxFiles).run.1) :=
  ⟨_, rfl⟩

theorem ofFault_disk (fault : Disk.Fault) :
    Outcome.ofFault (.disk fault) =
      if fault.isMissing then .failure (fault.message ++ "\n") else .crash (.disk fault) := by
  unfold Outcome.ofFault
  rfl

/-- With sound settings no scan breaks off but at a refusal of the disk. -/
theorem scanOnce_isTold (hsettings : p.settings.Sound) :
    (scanOnce reader disk p).run.IsTold ∨ (scanOnce reader disk p).run.IsRefused disk := by
  obtain ⟨told, hrun⟩ := scanOnce_run reader disk p
  have hends := @Scan.run_given_ends reader disk p.settings p.maxFiles p.root p.workspace hsettings
  rw [hrun]
  generalize (Scan.run reader disk (some p.settings) p.root (some p.workspace) p.maxFiles).run.1 =
    result at hends
  cases hends with
  | inventory inventory => exact .inl (.inl ⟨rfl, _, _, inventory, String.empty_append⟩)
  | noHome => exact .inl (Outcome.isTold_told (by decide))
  | missing root => exact .inl (Outcome.isTold_told (Outcome.append_ne_empty (by decide)))
  | @refused fault hfault =>
      rw [Plan.outcome, ofFault_disk]
      split
      · exact .inl (Outcome.isTold_told (Outcome.append_ne_empty (by decide)))
      · exact .inr ⟨fault, hfault, rfl⟩

/-! ### From arguments on -/

theorem settingsOf_run (reader : Reader) (disk : Disk Id) (workspace : Path) :
    (settingsOf reader disk workspace).run =
      match (Settings.load reader disk workspace).run with
      | .ok found => .ok found.2
      | .error fault =>
          .error (if fault.isRefusal then .failure (fault.message ++ "\n")
            else .crash (.settings fault)) := by
  rw [settingsOf, ExceptT.run_map, ExceptT.run_adapt]
  cases (Settings.load reader disk workspace).run <;> rfl

section

variable {lowest : Log.Level}

theorem plan_of_cap (hcap : t.maxFiles.any (· < 1) = true) :
    (plan reader disk lowest t).run = .error (.failure "--max-files must be at least 1\n") := by
  rw [plan, if_pos hcap]
  rfl

variable (hcap : t.maxFiles.any (· < 1) = false)
  (hroot : disk.expandHome? (.ofString t.path) = some root)

include hcap hroot

theorem plan_of_refused {fault : Disk.Fault} (hfile : (disk.isFile root).run = .error fault) :
    (plan reader disk lowest t).run = .error (.crash (.disk fault)) := by
  have hfile' : ((disk.isFile root).adapt (Outcome.crash ∘ .disk)).run =
      .error (.crash (.disk fault)) := by
    rw [ExceptT.run_adapt, hfile]
    rfl
  rw [plan, hcap, if_neg Bool.false_ne_true, hroot]
  exact run_bind_of_error hfile'

theorem plan_of_missing (hfile : (disk.isFile root).run = .ok false) :
    (plan reader disk lowest t).run =
      .error (.failure ("Root file not found: " ++ root.toString ++ "\n")) := by
  rw [plan, hcap, if_neg Bool.false_ne_true, hroot]
  exact run_bind_of_ok (run_adapt_eq_ok.mpr hfile)

theorem plan_of_root (hfile : (disk.isFile root).run = .ok true)
    (hworkspace : (workspaceOf disk root t.workspace).run = .ok workspace) :
    (plan reader disk lowest t).run =
      match (Settings.load reader disk workspace).run with
      | .ok found => .ok (.of lowest root workspace t found.2)
      | .error fault =>
          .error (if fault.isRefusal then .failure (fault.message ++ "\n")
            else .crash (.settings fault)) := by
  have hsettings := settingsOf_run reader disk workspace
  rw [plan, hcap, if_neg Bool.false_ne_true, hroot]
  dsimp only
  rw [run_bind_of_ok (run_adapt_eq_ok.mpr hfile), if_pos rfl,
    run_bind_of_ok (run_adapt_eq_ok.mpr hworkspace)]
  cases hload : (Settings.load reader disk workspace).run with
  | ok found =>
      rw [hload] at hsettings
      rw [run_bind_of_ok hsettings]
      rfl
  | error fault =>
      rw [hload] at hsettings
      rw [run_bind_of_error hsettings]

end

section

variable {args : List String} {verbose quiet : Bool}

theorem start_scan (hargs : parse args = .ok ⟨verbose, quiet, .scan t⟩) :
    (start reader disk args).run =
      match (plan reader disk (Log.threshold verbose quiet) t).run with
      | .error outcome => .over outcome
      | .ok p => .over (scanOnce reader disk p).run := by
  rw [start, hargs]
  dsimp only
  rw [Id.run_bind]
  cases (plan reader disk (Log.threshold verbose quiet) t).run with
  | ok p => rfl
  | error outcome => rfl

/-- A scan on the command line never breaks off over settings that load or are refused. -/
theorem start_isTold (hargs : parse args = .ok ⟨verbose, quiet, .scan t⟩)
    (hroot : disk.expandHome? (.ofString t.path) = some root)
    (hfile : (disk.isFile root).run = .ok true)
    (hworkspace : (workspaceOf disk root t.workspace).run = .ok workspace)
    (hload : ∀ fault, (Settings.load reader disk workspace).run = .error fault →
      fault.isRefusal = true) :
    ∃ o, (start reader disk args).run = .over o ∧ (o.IsTold ∨ o.IsRefused disk) := by
  rw [start_scan hargs]
  cases hcap : t.maxFiles.any (· < 1) with
  | true =>
      rw [plan_of_cap hcap]
      exact ⟨_, rfl, .inl (Outcome.isTold_failure (by decide))⟩
  | false =>
      rw [plan_of_root hcap hroot hfile hworkspace]
      cases hsettings : (Settings.load reader disk workspace).run with
      | error fault =>
          dsimp only
          rw [if_pos (hload fault hsettings)]
          exact ⟨_, rfl, .inl (Outcome.isTold_failure (Outcome.append_ne_empty (by decide)))⟩
      | ok found => exact ⟨_, rfl, scanOnce_isTold (Settings.sound_of_load hsettings)⟩

end

end Command

/-! ## On request -/

namespace Service

variable {reader : Reader} {disk : Disk Id} {r : ScanRequest} {root workspace : Path}

/-- How a scan is answered. -/
def ofResult : Except Scan.Fault Inventory → Response
  | .ok inventory => .answer inventory.toJson
  | .error fault => ofFault fault

theorem scan_run (reader : Reader) (disk : Disk Id) (r : ScanRequest) :
    (scan reader disk r).run = ofResult (Scan.run reader disk none (.ofText r.root)
      (r.workspace.map Path.ofText) r.maxFiles).run.1 := by
  rw [scan, Id.run_bind]
  generalize (Scan.run reader disk none (.ofText r.root) (r.workspace.map Path.ofText)
    r.maxFiles).run = found
  obtain ⟨result, events⟩ := found
  cases result with
  | ok inventory => rfl
  | error fault => rfl

theorem settingsFor_none (reader : Reader) (disk : Disk Id) (workspace : Path) :
    (Scan.settingsFor reader disk workspace none).run =
      match (Settings.load reader disk workspace).run with
      | .ok found => .ok found.2
      | .error fault => .error (.settings fault) := by
  rw [Scan.settingsFor, ExceptT.run_map, ExceptT.run_adapt]
  cases (Settings.load reader disk workspace).run <;> rfl

theorem scan_settled (hroot : (Scan.locate disk (.ofText r.root)).run = .ok root)
    (hworkspace : (Scan.workspaceFor disk root (r.workspace.map Path.ofText)).run =
      .ok workspace) :
    (scan reader disk r).run =
      match (Settings.load reader disk workspace).run with
      | .ok found => ofResult (Scan.censusOf disk found.2 workspace root r.maxFiles)
      | .error fault => ofFault (.settings fault) := by
  rw [scan_run, Scan.run_of_located hroot hworkspace, settingsFor_none]
  cases (Settings.load reader disk workspace).run <;> rfl

theorem ofFault_of_isRefusal {fault : Settings.Fault} (h : fault.isRefusal = true) :
    ofFault (.settings fault) = .refusal 400 fault.message := by
  have hmissing : (Scan.Fault.settings fault).isMissing = false := by
    cases fault with
    | disk => cases h
    | _ => rfl
  have hknown : (Scan.Fault.settings fault).isKnown = true := by
    unfold Scan.Fault.isKnown
    split
    · rfl
    · rfl
    · rfl
    · next heq =>
        cases heq
        exact h
    · next hother => exact absurd rfl (hother fault)
  rw [ofFault, hmissing, hknown]
  rfl

/-- A scan on request comes to an inventory or to a refusal, of the root or of the settings, if
these load or are refused, unless the disk refuses an answer. -/
theorem scan_answers (hroot : (Scan.locate disk (.ofText r.root)).run = .ok root)
    (hworkspace : (Scan.workspaceFor disk root (r.workspace.map Path.ofText)).run = .ok workspace)
    (hload : ∀ fault, (Settings.load reader disk workspace).run = .error fault →
      fault.isRefusal = true) :
    (∃ body, (scan reader disk r).run = .answer body) ∨
      (scan reader disk r).run = .refusal 404 (Census.Fault.rootMissing root).message ∨
      (∃ fault, (Settings.load reader disk workspace).run = .error fault ∧
        (scan reader disk r).run = .refusal 400 fault.message) ∨
      ∃ fault, disk.Refuses fault ∧ (scan reader disk r).run = ofFault (.disk fault) := by
  rw [scan_settled hroot hworkspace]
  cases hsettings : (Settings.load reader disk workspace).run with
  | error fault =>
      exact .inr (.inr (.inl ⟨fault, rfl, ofFault_of_isRefusal (hload fault hsettings)⟩))
  | ok found =>
      dsimp only
      cases hfile : (disk.isFile root).run with
      | error fault =>
          rw [Scan.censusOf_of_refused hfile]
          exact .inr (.inr (.inr ⟨fault, Disk.refuses_of_isFile hfile, rfl⟩))
      | ok isFile =>
          cases isFile with
          | false =>
              rw [Scan.censusOf_of_missing hfile]
              exact .inr (.inl rfl)
          | true =>
              obtain ⟨inventory, htaken⟩ | ⟨fault, hfault, htaken⟩ :=
                @Scan.censusOf_of_file disk found.2 root workspace r.maxFiles
                  (Settings.sound_of_load hsettings) hfile
              · rw [htaken]
                exact .inl ⟨_, rfl⟩
              · rw [htaken]
                exact .inr (.inr (.inr ⟨fault, hfault, rfl⟩))

end Service

namespace Settings

variable {reader : Reader} {disk : Disk Id} {workspace file : Path}

/-- A reader to which no text is a document. -/
def strict : Reader := fun _ => .error (.malformed "expected the node content")

theorem isDecided_strict : strict.IsDecided := fun _ => .inr ⟨_, rfl⟩

theorem readable_bracket : Readable strict [0x5B] := by
  refine ⟨['['], rfl, fun v hv => ?_⟩
  have hmalformed : valueOf strict (Text.unifyNewlines ['[']) =
      .error (.malformed "expected the node content") := rfl
  rw [hmalformed] at hv
  cases hv

end Settings

end ColorCensus
