import ColorCensus.Proofs.CommandLine
import ColorCensus.Proofs.Labels
import ColorCensus.Proofs.Outcomes
import ColorCensus.Proofs.ReadBack

/-!
# The command line and the service agree

Both scan a root for a workspace, but each goes its own way: on the command line the root is
looked for before the settings are read, and on request it is the other way round. The census
is the same one, and so is everything that keeps it from being taken, with two exceptions. A cap
may have more digits than are ever read. And where the disk refuses to tell what stands at a path,
the run breaks off like one that has a fault to tell, while the service answers that it is broken.

Of the framework that reads the requests it is only used that a body with a root, a workspace and a
cap is passed on as it is (`Delivers`).
-/

namespace ColorCensus

/-! ## Canonical paths -/

/-- A string spells a path in full. -/
structure Path.IsFull (s : String) : Prop where
  absolute : (Path.ofString s).isAbsolute = true
  canonical : (Path.ofString s).canonical = Path.ofString s

namespace Path.IsFull

variable {s : String} {disk : Disk Id}

theorem slashed (h : IsFull s) : Command.IsSlashed s := by
  have habsolute := h.absolute
  unfold Command.IsSlashed
  cases hs : s.toList with
  | nil =>
      rw [isAbsolute, ofString, ofText, hs] at habsolute
      cases habsolute
  | cons c cs =>
      by_cases hc : c = '/'
      · rw [hc]
        rfl
      · rw [isAbsolute, ofString, ofText, hs, Root.ofText,
          List.takeWhile_cons_of_neg (by simpa using hc)] at habsolute
        cases habsolute

theorem ne_empty (h : IsFull s) : s ≠ "" := by
  rintro rfl
  cases h.slashed

theorem join_eq (h : IsFull s) (base : Path) : base.join (ofString s) = ofString s :=
  if_pos h.absolute

theorem absolute_eq (h : IsFull s) : disk.absolute (ofString s) = ofString s := by
  rw [Disk.absolute, h.join_eq, h.canonical]

theorem expandHome?_eq (h : IsFull s) : disk.expandHome? (ofString s) = some (ofString s) := by
  have habsolute := h.absolute
  unfold Disk.expandHome?
  split
  · next hroot _ =>
      rw [isAbsolute, hroot] at habsolute
      cases habsolute
  · rfl

theorem locate_eq (h : IsFull s) : (Scan.locate disk (ofString s)).run = .ok (ofString s) := by
  rw [Scan.locate, h.expandHome?_eq]
  exact congrArg Except.ok h.absolute_eq

end Path.IsFull

/-! ## Paths that nobody can look for -/

theorem Tree.kind?_of_overlong {t : Tree} {current : Path} {home? : List Char → Option Path}
    {n : Path.Name} (hroot : t.placeAt? ⟨.slash, []⟩ = some .directory)
    (hname : nameLimit < Text.Utf8.size n.text)
    (hpath : Text.Utf8.size (Path.text ⟨.slash, [n]⟩) ≤ pathLimit) :
    ((Tree.disk (pure t) current home? : Disk Id).kind? ⟨.slash, [n]⟩).run =
      .error (.tooLong ⟨.slash, [n]⟩) := by
  have hfollow : t.follow ⟨.slash, []⟩ [n] = .error () := by
    rw [follow, hroot]
    exact if_pos hname
  have hplace : t.place current ⟨.slash, [n]⟩ = .error (.tooLong ⟨.slash, [n]⟩) := by
    have hwhole : current.join ⟨.slash, [n]⟩ = ⟨.slash, [n]⟩ := if_pos rfl
    rw [place, if_neg (Nat.not_lt.mpr hpath), hwhole, hfollow]
    rfl
  change (t.place current ⟨.slash, [n]⟩).map _ = _
  rw [hplace]
  rfl

open Yaml (Reader)

variable {reader : Reader} {disk : Disk Id} {root workspace : String}

/-! ## The scan of a path in full -/

theorem Scan.run_of_full (hroot : Path.IsFull root) (hworkspace : Path.IsFull workspace)
    (settings : Settings) (cap : Option Int) :
    (run reader disk (some settings) (.ofString root) (some (.ofString workspace)) cap).run.1 =
      censusOf disk settings (.ofString workspace) (.ofString root) cap := by
  rw [run_given, hroot.locate_eq, hworkspace.locate_eq]

/-! ## On request -/

namespace Service

/-- A request for a scan. -/
def scanRequest (root workspace : String) (cap : Option Nat) : Request where
  method := Route.scan.method
  path := Route.scan.path
  body := some (.obj ([("root", .str root), ("workspace", .str workspace)] ++
    (cap.map fun n => [("max_files", .int n)]).getD []))

/-- The caps that a request can ask for. -/
def IsCap (cap : Option Nat) : Prop := ∀ n ∈ cap, 1 ≤ n ∧ n < Number.tooLong

/-- What is relied on about the framework: a body that has what a scan takes is handed over as it
is, as long as its cap is allowed and can be read at all. What it does with any other request is
its own business. -/
def Delivers (receive : Request → Call) : Prop :=
  ∀ (root workspace : String) (cap : Option Nat),
    let asked : ScanRequest := ⟨root.toList, some workspace.toList, cap.map Int.ofNat⟩
    asked.isAllowed = true → (∀ n ∈ cap, n < Number.tooLong) →
      receive (scanRequest root workspace cap) = .scan asked

theorem Delivers.of_isCap {receive : Request → Call} (h : Delivers receive) {cap : Option Nat}
    (hcap : IsCap cap) : receive (scanRequest root workspace cap) =
      .scan ⟨root.toList, some workspace.toList, cap.map Int.ofNat⟩ := by
  refine h root workspace cap ?_ fun n hn => (hcap n hn).2
  cases cap with
  | none => rfl
  | some n => exact decide_eq_true (Int.ofNat_le.mpr (hcap n rfl).1)

theorem scan_of_full (hroot : Path.IsFull root) (hworkspace : Path.IsFull workspace)
    (cap : Option Int) :
    (scan reader disk ⟨root.toList, some workspace.toList, cap⟩).run =
      match (Settings.load reader disk (.ofString workspace)).run with
      | .ok found =>
          ofResult (Scan.censusOf disk found.2 (.ofString workspace) (.ofString root) cap)
      | .error fault => ofFault (.settings fault) :=
  scan_settled hroot.locate_eq hworkspace.locate_eq

theorem scan_of_missing (hroot : Path.IsFull root) (hworkspace : Path.IsFull workspace)
    (cap : Option Int) (hfile : (disk.isFile (.ofString root)).run = .ok false)
    (hload : ∀ fault, (Settings.load reader disk (.ofString workspace)).run = .error fault →
      fault.isRefusal = true) :
    ∃ status detail, (status = 400 ∨ status = 404) ∧
      (scan reader disk ⟨root.toList, some workspace.toList, cap⟩).run =
        .refusal status detail := by
  rw [scan_of_full hroot hworkspace]
  cases hsettings : (Settings.load reader disk (.ofString workspace)).run with
  | error fault =>
      exact ⟨400, fault.message, .inl rfl, ofFault_of_isRefusal (hload fault hsettings)⟩
  | ok found =>
      dsimp only
      rw [Scan.censusOf_of_missing hfile]
      exact ⟨404, _, .inr rfl, rfl⟩

end Service

/-! ## On the command line -/

namespace Command

open Service (IsCap)

theorem capOf_of_isCap {cap : Option Nat} (hcap : IsCap cap) :
    capOf cap = .ok (cap.map Int.ofNat) := by
  cases cap with
  | none => rfl
  | some n =>
      obtain ⟨-, hlt⟩ := hcap n rfl
      rw [capOf, Options.integer, Number.integer?_toString, if_pos hlt]
      rfl

theorem start_of_long {n : Nat} (hroot : Path.IsFull root) (hworkspace : Path.IsFull workspace)
    (hn : Number.tooLong ≤ n) :
    ∃ program message, (start reader disk (scanArguments root workspace (some n))).run =
      .over (.ofStop (.misuse program message)) := by
  have hcap : ∃ program message, capOf (some n) = .error (.misuse program message) := by
    rw [capOf, Options.integer, Number.integer?_toString, if_neg (Nat.not_lt.mpr hn)]
    exact ⟨_, _, rfl⟩
  obtain ⟨program, message, hcap⟩ := hcap
  refine ⟨program, message, ?_⟩
  unfold start
  rw [parse_scanArguments hroot.slashed hworkspace.slashed, hcap]
  rfl

theorem cap_any_of_isCap {cap : Option Nat} (hcap : IsCap cap) :
    (cap.map Int.ofNat).any (· < 1) = false := by
  cases cap with
  | none => rfl
  | some n =>
      obtain ⟨hle, -⟩ := hcap n rfl
      exact decide_eq_false (Int.not_lt.mpr (Int.ofNat_le.mpr hle))

theorem workspaceOf_of_full {rootPath : Path} (hworkspace : Path.IsFull workspace) :
    (workspaceOf disk rootPath (some workspace)).run = .ok (.ofString workspace) := by
  unfold workspaceOf
  split
  · next heq => cases heq
  · next heq => exact absurd (Option.some.inj heq) hworkspace.ne_empty
  · next name _ heq =>
      cases heq
      rw [hworkspace.expandHome?_eq]
      rfl

/-- What a scan in JSON asks for. -/
def scanTarget (root workspace : String) (cap : Option Nat) : Target :=
  ⟨root, some workspace, cap.map Int.ofNat, some .json⟩

section

variable {cap : Option Nat}

theorem start_scanArguments (hroot : Path.IsFull root) (hworkspace : Path.IsFull workspace)
    (hcap : IsCap cap) :
    (start reader disk (scanArguments root workspace cap)).run =
      match (plan reader disk (Log.threshold false false) (scanTarget root workspace cap)).run with
      | .error outcome => .over outcome
      | .ok p => .over (scanOnce reader disk p).run := by
  refine start_scan ?_
  rw [parse_scanArguments hroot.slashed hworkspace.slashed, capOf_of_isCap hcap]
  rfl

theorem start_of_refused (hroot : Path.IsFull root) (hworkspace : Path.IsFull workspace)
    (hcap : IsCap cap) {fault : Disk.Fault}
    (hfile : (disk.isFile (.ofString root)).run = .error fault) :
    (start reader disk (scanArguments root workspace cap)).run =
      .over (.crash (.disk fault)) := by
  have hcapFine : (scanTarget root workspace cap).maxFiles.any (· < 1) = false :=
    cap_any_of_isCap hcap
  have hrootPath : disk.expandHome? (.ofString root) = some (.ofString root) :=
    hroot.expandHome?_eq
  rw [start_scanArguments hroot hworkspace hcap, plan_of_refused hcapFine hrootPath hfile]

theorem start_of_missing (hroot : Path.IsFull root) (hworkspace : Path.IsFull workspace)
    (hcap : IsCap cap) (hfile : (disk.isFile (.ofString root)).run = .ok false) :
    (start reader disk (scanArguments root workspace cap)).run =
      .over (.failure ("Root file not found: " ++ Path.toString (.ofString root) ++ "\n")) := by
  have hcapFine : (scanTarget root workspace cap).maxFiles.any (· < 1) = false :=
    cap_any_of_isCap hcap
  have hrootPath : disk.expandHome? (.ofString root) = some (.ofString root) :=
    hroot.expandHome?_eq
  rw [start_scanArguments hroot hworkspace hcap, plan_of_missing hcapFine hrootPath hfile]

end

end Command

/-! ## Both of them -/

namespace Service

/-- A run and a response that tell the same inventory, or that there is none to tell. -/
inductive Alike (o : Command.Outcome) : Response → Prop
  | inventory {body : Json} (hstdout : o.stdout = body.render ++ "\n")
      (hending : o.ending = .exit 0) : Alike o (.answer body)
  | refusal {status : Nat} {detail : String} (hstatus : status = 400 ∨ status = 404)
      (hstdout : o.stdout = "") (hending : o.ending = .exit 1) : Alike o (.refusal status detail)

/-- A run leaves the code 0 exactly when a response is fine, and then prints what the response
holds; and it leaves the code 1 without a word on the output exactly when the response is a
refusal. -/
structure Agree (o : Command.Outcome) (response : Response) : Prop where
  fine : response.status = 200 ↔ o.ending.code = 0 ∧ Json.read? o.stdout = some response.body
  refused : response.status = 400 ∨ response.status = 404 ↔ o.ending.code = 1 ∧ o.stdout = ""

theorem Alike.agree {o : Command.Outcome} {response : Response} (h : Alike o response) :
    Agree o response := by
  cases h with
  | @inventory body hstdout hending =>
      constructor
      · refine iff_of_true rfl ⟨?_, ?_⟩
        · rw [hending]
          rfl
        · rw [hstdout, Json.read?_render]
          rfl
      · refine iff_of_false (by rintro (h | h) <;> cases h) fun h => ?_
        rw [hending] at h
        cases h.1
  | @refusal status detail hstatus hstdout hending =>
      constructor
      · refine iff_of_false ?_ fun h => ?_
        · rintro (rfl : status = 200)
          revert hstatus
          decide
        · rw [hending] at h
          cases h.1
      · refine iff_of_true hstatus ⟨?_, hstdout⟩
        rw [hending]
        rfl

/-- With sound settings a scan on the command line tells what a census comes to as a response
would tell it, or else the disk has refused it an answer. -/
theorem alike_scanOnce {p : Command.Plan} (hroot : Path.IsFull root)
    (hworkspace : Path.IsFull workspace) (hsettings : p.settings.Sound)
    (hp : p.root = .ofString root ∧ p.workspace = .ofString workspace ∧ p.format = .json) :
    (Command.scanOnce reader disk p).run.IsRefused disk ∨
      Alike (Command.scanOnce reader disk p).run
        (ofResult (Scan.censusOf disk p.settings (.ofString workspace) (.ofString root)
          p.maxFiles)) := by
  obtain ⟨told, hrun⟩ := Command.scanOnce_run reader disk p
  obtain ⟨hp, hp', hformat⟩ := hp
  rw [hrun, hp, hp', Scan.run_of_full hroot hworkspace]
  have hends := @Scan.censusOf_ends disk p.settings (.ofString root) (.ofString workspace)
    p.maxFiles hsettings
  generalize Scan.censusOf disk p.settings (.ofString workspace) (.ofString root) p.maxFiles =
    result at hends
  cases hends with
  | inventory inventory =>
      refine .inr (.inventory ?_ rfl)
      change "" ++ Report.render _ p.format inventory = _
      rw [hformat, String.empty_append]
      rfl
  | noHome => exact .inr (.refusal (.inl rfl) rfl rfl)
  | missing root => exact .inr (.refusal (.inr rfl) rfl rfl)
  | @refused fault hfault =>
      have hresponse : ofResult (.error (.disk fault)) =
          if fault.isMissing then .refusal 404 fault.message else .broken := by
        unfold ofResult ofFault
        rfl
      rw [Command.Plan.outcome, Command.ofFault_disk, hresponse]
      split
      · exact .inr (.refusal (.inr rfl) rfl rfl)
      · exact .inl ⟨fault, hfault, rfl⟩

/-- A directory with a style sheet in it and nothing else. -/
def lone : Disk Id :=
  Tree.disk (pure { files := [(.ofString "/w/a.css", [])] }) (.ofString "/w") fun _ => none

theorem isFull_sheet : Path.IsFull "/w/a.css" := ⟨rfl, rfl⟩

theorem isFull_directory : Path.IsFull "/w" := ⟨rfl, rfl⟩

theorem load_lone (reader : Reader) :
    (Settings.load reader lone (.ofString "/w")).run = .ok (.ofString "/w", {}) := rfl

theorem refusal_lone {fault : Settings.Fault}
    (h : (Settings.load reader lone (.ofString "/w")).run = .error fault) :
    fault.isRefusal = true := by
  rw [load_lone] at h
  cases h

/-- A framework that takes any request for one of a scan, and lets nothing through that is not
allowed or has a cap that cannot be read. -/
def plain (r : Request) : Call :=
  let unreadable : Call := .answered (.refusal 400 "There was an error parsing the body")
  match r.body with
  | some (.obj [("root", .str root), ("workspace", .str workspace)]) =>
      .scan ⟨root.toList, some workspace.toList, none⟩
  | some (.obj [("root", .str root), ("workspace", .str workspace), ("max_files", .int n)]) =>
      let asked : ScanRequest := ⟨root.toList, some workspace.toList, some n⟩
      if asked.isAllowed = true ∧ n.natAbs < Number.tooLong then .scan asked else unreadable
  | _ => unreadable

theorem delivers_plain : Delivers plain := by
  intro root workspace cap asked hallowed hread
  cases cap with
  | none => rfl
  | some n =>
      have hn : n < Number.tooLong := hread n rfl
      have hone : asked.isAllowed = true ∧ (n : Int).natAbs < Number.tooLong := ⟨hallowed, hn⟩
      exact if_pos hone

theorem plain_of_long {n : Nat} (hn : Number.tooLong ≤ n) :
    plain (scanRequest root workspace (some n)) =
      .answered (.refusal 400 "There was an error parsing the body") :=
  if_neg fun h => absurd h.2 (Nat.not_lt.mpr hn)

/-- A name with more letters than any directory takes. -/
def letters : Path.Name where
  text := List.replicate 300 'a'
  ne_nil := by decide
  ne_dot := by decide
  no_slash := by decide

/-- A path that is as long as its one name. -/
def overlong : String := Path.toString ⟨.slash, [letters]⟩

theorem ofString_overlong : Path.ofString overlong = ⟨.slash, [letters]⟩ := by
  rw [overlong, Path.toString, Path.ofString, String.toList_ofList, Path.ofText_text]

theorem isFull_overlong : Path.IsFull overlong where
  absolute := by rw [ofString_overlong]; rfl
  canonical := by rw [ofString_overlong]; decide +kernel

theorem isFile_overlong : (lone.isFile (.ofString overlong)).run =
    .error (.tooLong (.ofString overlong)) := by
  have hname : Tree.nameLimit < Text.Utf8.size letters.text := by decide +kernel
  have hpath : Text.Utf8.size (Path.text ⟨.slash, [letters]⟩) ≤ Tree.pathLimit := by
    decide +kernel
  rw [ofString_overlong]
  generalize letters = name at hname hpath
  exact Disk.isFile_of_refused (Tree.kind?_of_overlong rfl hname hpath)

end Service

end ColorCensus
