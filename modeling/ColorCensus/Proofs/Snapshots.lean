import ColorCensus.Command.Run
import ColorCensus.Proofs.Related

/-!
# The program goes by the answers of its disk

What holds of a pass and its host holds of the whole program and its disk: two
disks whose answers are related lead to the same workspace, the same settings
and the same report, up to the relation (`scanOnce_related`), and so the program
starts in the same way on both (`start_related`). A refusal counts as an answer.

For a disk that changes this means: in a state in which the answers leave the
state as it is, whatever the program does with the disk it does with a picture
of the disk that was taken then.
-/

namespace ColorCensus

open Yaml (Reader)

variable {m n : Type → Type} [Monad m] [Monad n] {R : Relates m n}

/-! ## Searching a list -/

namespace Relates

variable {α : Type}

theorem findM? {p : α → m Bool} {q : α → n Bool} (h : ∀ a, R.holds (p a) (q a)) (xs : List α) :
    R.holds (xs.findM? p) (xs.findM? q) := by
  induction xs with
  | nil => exact R.pure none
  | cons a xs ih =>
      refine R.bind (h a) fun found => ?_
      cases found with
      | true => exact R.pure _
      | false => exact ih

theorem anyM {p : α → m Bool} {q : α → n Bool} (h : ∀ a, R.holds (p a) (q a)) (xs : List α) :
    R.holds (xs.anyM p) (xs.anyM q) := by
  induction xs with
  | nil => exact R.pure false
  | cons a xs ih =>
      refine R.bind (h a) fun found => ?_
      cases found with
      | true => exact R.pure _
      | false => exact ih

end Relates

/-! ## Disks -/

/-- The answers of two disks are related, refusals included, and both are seen
from the same place. -/
structure Relates.Disks (R : Relates m n) (disk : Disk m) (now : Disk n) : Prop where
  kind? : ∀ p, (R.except _).holds (disk.kind? p) (now.kind? p)
  bytes : ∀ p, (R.except _).holds (disk.bytes p) (now.bytes p)
  current : disk.current = now.current
  home? : disk.home? = now.home?

variable {disk : Disk m} {now : Disk n}

namespace Relates.Disks

theorem expandHome? (h : R.Disks disk now) (p : Path) :
    disk.expandHome? p = now.expandHome? p := by
  rw [Disk.expandHome?, Disk.expandHome?, h.home?]

theorem absolute (h : R.Disks disk now) (p : Path) : disk.absolute p = now.absolute p := by
  rw [Disk.absolute, Disk.absolute, h.current]

theorem isFile (h : R.Disks disk now) (p : Path) :
    (R.except _).holds (disk.isFile p) (now.isFile p) := (R.except _).map (h.kind? p) _

theorem isDirectory (h : R.Disks disk now) (p : Path) :
    (R.except _).holds (disk.isDirectory p) (now.isDirectory p) := (R.except _).map (h.kind? p) _

theorem hasAny (h : R.Disks disk now) (p : Path) :
    (R.except _).holds (disk.hasAny p) (now.hasAny p) := (R.except _).map (h.kind? p) _

theorem read (h : R.Disks disk now) (p : Path) : R.holds (disk.read p) (now.read p) := by
  refine R.bind (h.bytes p) fun answer => ?_
  cases answer with
  | error fault => exact R.pure _
  | ok bytes =>
      dsimp only
      split
      · exact R.pure _
      · exact R.pure _

theorem host (h : R.Disks disk now) : (R.except _).Hosts disk.host now.host :=
  ⟨h.isFile, fun p => Relates.lift (h.read p), rfl⟩

end Relates.Disks

/-! ## Settings -/

namespace Settings

theorem fileFor_related (h : R.Disks disk now) (p : Path) :
    (R.except _).holds (fileFor disk p) (fileFor now p) := by
  unfold fileFor
  rw [h.expandHome?, funext h.absolute]
  split
  · refine (R.except _).bind (Relates.adapt (h.isDirectory _) _) fun answer => ?_
    cases answer with
    | true => exact (R.except _).pure _
    | false => exact (R.except _).pure _
  · exact Relates.throw _

theorem load_related (reader : Reader) (h : R.Disks disk now) (p : Path) :
    (R.except _).holds (load reader disk p) (load reader now p) := by
  refine (R.except _).bind (fileFor_related h p) fun file =>
    (R.except _).bind (Relates.adapt (h.hasAny file) _) fun answer => ?_
  cases answer with
  | false => exact (R.except _).pure _
  | true =>
      exact (R.except _).bind (Relates.adapt (h.bytes file) _) fun bytes =>
        (R.except _).bind (R.pure _) fun _ => (R.except _).pure _

end Settings

/-! ## Scans -/

namespace Scan

theorem workspaceOf_related (h : R.Disks disk now) (root : Path) :
    (R.except _).holds (workspaceOf disk root) (workspaceOf now root) := by
  rw [workspaceOf, workspaceOf, h.absolute]
  exact (R.except _).bind (Relates.findM? (fun _ => Relates.anyM (fun _ => h.hasAny _) _) _)
    fun _ => (R.except _).pure _

theorem locate_related (h : R.Disks disk now) (p : Path) :
    (R.except _).holds (locate disk p) (locate now p) := by
  rw [locate, locate, h.expandHome?, funext h.absolute]
  split
  · exact (R.except _).pure _
  · exact Relates.throw _

theorem workspaceFor_related (h : R.Disks disk now) (root : Path) (given : Option Path) :
    (R.except _).holds (workspaceFor disk root given) (workspaceFor now root given) := by
  cases given with
  | none => exact Relates.adapt (workspaceOf_related h root) _
  | some given => exact locate_related h given

theorem settingsFor_related (reader : Reader) (h : R.Disks disk now) (workspace : Path)
    (given : Option Settings) :
    (R.except _).holds (settingsFor reader disk workspace given)
      (settingsFor reader now workspace given) := by
  cases given with
  | none =>
      exact (R.except _).map (Relates.adapt (Settings.load_related reader h workspace) _) _
  | some given => exact (R.except _).pure _

theorem run_related (reader : Reader) (h : R.Disks disk now) (settings : Option Settings)
    (root : Path) (workspace : Option Path) (cap : Option Int) :
    R.holds (run reader disk settings root workspace cap)
      (run reader now settings root workspace cap) := by
  have hattempt : (R.except _).holds (attempt reader disk settings root workspace cap)
      (attempt reader now settings root workspace cap) :=
    (R.except _).bind (locate_related h root) fun root =>
      (R.except _).bind (workspaceFor_related h root workspace) fun workspace =>
        (R.except _).bind (settingsFor_related reader h workspace settings) fun settings =>
          Relates.adapt (Census.take_related h.host settings workspace root cap) _
  refine R.bind hattempt fun result => ?_
  cases result with
  | ok found => exact R.pure _
  | error fault => exact R.pure _

end Scan

/-! ## Commands -/

namespace Command

theorem workspaceOf_related (h : R.Disks disk now) (root : Path) (given : Option String) :
    (R.except _).holds (workspaceOf disk root given) (workspaceOf now root given) := by
  unfold workspaceOf
  split
  · exact Relates.adapt (Scan.workspaceOf_related h root) _
  · exact Relates.adapt (Scan.workspaceOf_related h root) _
  · rw [h.expandHome?]
    split
    · exact (R.except _).pure _
    · exact Relates.throw _

theorem settingsOf_related (reader : Reader) (h : R.Disks disk now) (workspace : Path) :
    (R.except _).holds (settingsOf reader disk workspace) (settingsOf reader now workspace) :=
  (R.except _).map (Relates.adapt (Settings.load_related reader h workspace) _) _

theorem plan_related (reader : Reader) (h : R.Disks disk now) (lowest : Log.Level)
    (t : Target) : (R.except _).holds (plan reader disk lowest t) (plan reader now lowest t) := by
  unfold plan
  rw [h.expandHome?]
  split
  · exact Relates.throw _
  split
  · exact Relates.throw _
  · refine (R.except _).bind (Relates.adapt (h.isFile _) _) fun answer => ?_
    cases answer with
    | false => exact Relates.throw _
    | true =>
        exact (R.except _).bind (Relates.adapt (workspaceOf_related h _ _) _) fun workspace =>
          (R.except _).bind (settingsOf_related reader h workspace) fun _ => (R.except _).pure _

theorem scanOnce_related (reader : Reader) (h : R.Disks disk now) (p : Plan) :
    R.holds (scanOnce reader disk p) (scanOnce reader now p) :=
  R.bind (Scan.run_related reader h _ _ _ _) fun _ => R.pure _

theorem start_related (reader : Reader) (h : R.Disks disk now) (args : List String) :
    R.holds (start reader disk args) (start reader now args) := by
  unfold start
  split
  · exact R.pure _
  · dsimp only
    split
    · exact R.pure _
    · refine R.bind (plan_related reader h _ _) fun found => ?_
      cases found with
      | error outcome => exact R.pure _
      | ok p => exact R.map (scanOnce_related reader h p) _
    · refine R.bind (plan_related reader h _ _) fun found => ?_
      cases found with
      | error outcome => exact R.pure _
      | ok p => exact R.pure _

end Command

end ColorCensus
