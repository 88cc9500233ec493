import ColorCensus.Disk.Tree
import ColorCensus.Proofs.Related
import ColorCensus.Report.Render
import ColorCensus.Settings.File
import ColorCensus.Variable.Table

/-!
# What loading settings comes to

Settings that load have values in their ranges, and so pass every check that the program makes on
them. When they do not load, they are refused with a reason, unless the bytes of the file are no
text, a scalar only looks like a value, or an integer of the document is too long to be written
out.

A document is refused if and only if it has a value that is (`Refused`). Both halves are proved
together, function by function: each of them refuses if it has reason to, and otherwise yields
something in range (`Yields`), and the reasons of a chain of them add up.
-/

namespace ColorCensus

open Text Yaml

namespace Yaml

/-- A reader comes to a value for every text, or it says that the text is no document. -/
def Reader.IsDecided (reader : Reader) : Prop :=
  ∀ cs, (∃ v, reader cs = .ok v) ∨ ∃ problem, reader cs = .error (.malformed problem)

/-- A reader to which every document is empty. -/
def Reader.blank : Reader := fun _ => .ok .null

namespace Value

/-- A value is another one or stands somewhere inside of it. -/
inductive Has : Value → Value → Prop
  | self {v : Value} : Has v v
  | item {items : List Value} {v w : Value} : v ∈ items → Has v w → Has (list items) w
  | key {pairs : List (Value × Value)} {p : Value × Value} {w : Value} :
      p ∈ pairs → Has p.1 w → Has (map pairs) w
  | value {pairs : List (Value × Value)} {p : Value × Value} {w : Value} :
      p ∈ pairs → Has p.2 w → Has (map pairs) w

variable {u v w : Value}

theorem Has.trans (h : Has u v) (h' : Has v w) : Has u w := by
  induction h with
  | self => exact h'
  | item hitem _ ih => exact .item hitem (ih h')
  | key hpair _ ih => exact .key hpair (ih h')
  | value hpair _ ih => exact .value hpair (ih h')

theorem Has.of_get? {name : String} (h : u.get? name = some v) : Has u v := by
  cases u with
  | map pairs =>
      obtain ⟨p, hp, rfl⟩ := Option.map_eq_some_iff.mp h
      exact .value (List.mem_of_find?_eq_some hp) .self
  | _ => cases h

@[simp] theorem has_int {i j : Int} : Has (int i) (int j) ↔ j = i :=
  ⟨fun h => by cases h; rfl, fun h => h ▸ .self⟩

@[simp] theorem not_has_int_of_text {cs : List Char} {i : Int} : ¬ Has (text cs) (int i) := nofun

@[simp] theorem has_map_int {pairs : List (Value × Value)} {i : Int} :
    Has (map pairs) (int i) ↔ ∃ p ∈ pairs, Has p.1 (int i) ∨ Has p.2 (int i) := by
  constructor
  · intro h
    cases h with
    | key hp h => exact ⟨_, hp, .inl h⟩
    | value hp h => exact ⟨_, hp, .inr h⟩
  · rintro ⟨p, hp, h | h⟩
    · exact .key hp h
    · exact .value hp h

/-- An integer of a document has more digits than are ever written out. -/
def HasLongInteger (v : Value) : Prop := ∃ i : Int, Has v (int i) ∧ Number.tooLong ≤ i.natAbs

theorem HasLongInteger.of_has (h : Has u v) (hlong : v.HasLongInteger) : u.HasLongInteger := by
  obtain ⟨i, hi, hlong⟩ := hlong
  exact ⟨i, h.trans hi, hlong⟩

end Value

end Yaml

namespace Settings

/-- The values that settings may have. -/
structure InRange (s : Settings) : Prop where
  maxFiles : 1 ≤ s.imports.maxFiles
  extensions : ∀ extension ∈ s.imports.extensions, extension.startsWith "." = true
  windows : 0 ≤ s.context.markupWindow ∧ 0 ≤ s.context.componentWindow ∧
    0 ≤ s.context.stylesheetWindow
  sampleLength : 0 ≤ s.context.sampleLength
  precedence : s.declarations.precedence ∈ ["first", "last"]
  format : s.report.format ∈ ["markdown", "json"]
  autoScanMinutes : 0 ≤ s.report.autoScanMinutes ∧ s.report.autoScanMinutes ≤ 10
  maxUsages : 1 ≤ s.report.maxUsages

/-- What a pass and its report ask of settings. -/
structure Sound (s : Settings) : Prop where
  cap : 1 ≤ s.imports.maxFiles
  windows : 0 ≤ s.context.markupWindow ∧ 0 ≤ s.context.componentWindow ∧
    0 ≤ s.context.stylesheetWindow
  sample : 0 ≤ s.context.sampleLength
  precedence : (Variable.Precedence.ofName? s.declarations.precedence).isSome
  format : (Report.Format.ofName? s.report.format).isSome
  minutes : 0 ≤ s.report.autoScanMinutes ∧ s.report.autoScanMinutes ≤ 10
  usages : 1 ≤ s.report.maxUsages

theorem InRange.sound {s : Settings} (h : s.InRange) : s.Sound where
  cap := h.maxFiles
  windows := h.windows
  sample := h.sampleLength
  precedence := by
    have hknown : ∀ name ∈ ["first", "last"], (Variable.Precedence.ofName? name).isSome := by
      decide
    exact hknown _ h.precedence
  format := by
    have hknown : ∀ name ∈ ["markdown", "json"], (Report.Format.ofName? name).isSome := by decide
    exact hknown _ h.format
  minutes := h.autoScanMinutes
  usages := h.maxUsages

theorem startsWith_dot_of_default :
    ∀ extension ∈ ({} : Import.Settings).extensions, extension.startsWith "." = true := by
  simp only [String.startsWith_string_iff]
  decide

theorem inRange_default : InRange {} where
  maxFiles := by decide
  extensions := startsWith_dot_of_default
  windows := by decide
  sampleLength := by decide
  precedence := by decide
  format := by decide
  autoScanMinutes := by decide
  maxUsages := by decide

theorem sound_default : Sound {} := inRange_default.sound

theorem startsWith_withDot (extension : String) : (withDot extension).startsWith "." = true := by
  unfold withDot
  split
  · next h => exact h
  · simp

theorem bind_eq_ok {ε α β : Type} {r : Except ε α} {f : α → Except ε β} {b : β} :
    r >>= f = .ok b ↔ ∃ a, r = .ok a ∧ f a = .ok b := by
  cases r with
  | error fault => exact ⟨nofun, nofun⟩
  | ok a => exact ⟨fun h => ⟨a, rfl, h⟩, fun ⟨_, ha, h⟩ => Except.ok.inj ha ▸ h⟩

/-! ## What is refused -/

/-- The text that the value of a field comes to. -/
def given? (value : Option Value) : Option String :=
  match value.map text? with
  | some (.ok given) => given
  | _ => none

/-- The value of a field is a name, but none of the choices. -/
def NoChoice (choices : List String) (value : Option Value) : Prop :=
  ∃ name, given? value = some name ∧ name ≠ "" ∧ String.ofList (lower name.toList) ∉ choices

/-- The cap on the files of a pass allows not even one. -/
def CapBelowOne (document : Value) : Prop :=
  ∃ n, (field document "imports" "max_files").bind int? = some n ∧ n < 1

/-- A mapping has a field of which the value is refused. -/
def HasRefused (document : Value) : Prop :=
  CapBelowOne document ∨ NoChoice ["first", "last"] (field document "variables" "precedence") ∨
    NoChoice ["markdown", "json"] (field document "report" "format")

/-- A result is a refusal if there is reason to refuse, and has a property if there is none; a long
integer of the document may keep it from both. -/
def Yields {α : Type} (document : Value) (refused : Prop) (P : α → Prop) : Except Fault α → Prop
  | .ok a => ¬ refused ∧ P a
  | .error fault => refused ∧ fault.isRefusal = true ∨ document.HasLongInteger

/-- A result that is never a refusal. -/
abbrev Reads {α : Type} (document : Value) (P : α → Prop) : Except Fault α → Prop :=
  Yields document False P

section Yields

variable {α β : Type} {document v : Value} {R S : Prop} {P : α → Prop} {Q : β → Prop}

theorem reads_ok {a : α} (h : P a) : Reads document P (.ok a) := ⟨not_false, h⟩

theorem Yields.bind {r : Except Fault α} {f : α → Except Fault β} (h : Yields document R P r)
    (hf : ∀ a, P a → Yields document S Q (f a)) : Yields document (R ∨ S) Q (r >>= f) := by
  cases r with
  | error fault => exact h.imp_left (.imp_left .inl)
  | ok a =>
      have hnext := hf a h.2
      change Yields document (R ∨ S) Q (f a)
      cases hfa : f a with
      | error fault =>
          rw [hfa] at hnext
          exact hnext.imp_left (.imp_left .inr)
      | ok b =>
          rw [hfa] at hnext
          exact ⟨not_or.mpr ⟨h.1, hnext.1⟩, hnext.2⟩

theorem Reads.bind {r : Except Fault α} {f : α → Except Fault β} (h : Reads document P r)
    (hf : ∀ a, P a → Yields document S Q (f a)) : Yields document S Q (r >>= f) := by
  have hbind := Yields.bind h hf
  rwa [false_or] at hbind

theorem Yields.bind_reads {r : Except Fault α} {f : α → Except Fault β} (h : Yields document R P r)
    (hf : ∀ a, P a → Reads document Q (f a)) : Yields document R Q (r >>= f) := by
  have hbind := Yields.bind h hf
  rwa [or_false] at hbind

theorem Reads.of_not {r : Except Fault α} (hR : ¬ R) (h : Reads document P r) :
    Yields document R P r := by
  cases r with
  | ok a => exact ⟨hR, h.2⟩
  | error fault => exact .inr (h.resolve_left fun hfalse => hfalse.1)

theorem Yields.of_has {r : Except Fault α} (hhas : document.Has v) (h : Yields v R P r) :
    Yields document R P r := by
  cases r with
  | ok a => exact h
  | error fault => exact h.imp_right (.of_has hhas)

/-! ## Values of fields -/

theorem reads_text? (v : Value) : Reads v (fun _ => True) (text? v) := by
  cases v with
  | int i =>
      cases Nat.lt_or_ge i.natAbs Number.tooLong with
      | inl h =>
          rw [text?, if_pos h]
          exact ⟨not_false, trivial⟩
      | inr h =>
          rw [text?, if_neg (Nat.not_lt.mpr h)]
          exact .inr ⟨i, .self, h⟩
  | _ => exact ⟨not_false, trivial⟩

theorem reads_keyText (v : Value) : Reads v (fun _ => True) (keyText v) := by
  unfold keyText
  split
  · exact ⟨not_false, trivial⟩
  · exact ⟨not_false, trivial⟩
  · exact (reads_text? v).bind fun _ _ => ⟨not_false, trivial⟩

theorem reads_mapM_text? {items : List Value} (h : ∀ item ∈ items, document.Has item) :
    Reads document (fun _ => True) (items.mapM text?) := by
  induction items with
  | nil => exact ⟨not_false, trivial⟩
  | cons item items ih =>
      rw [List.mapM_cons]
      obtain ⟨hitem, hitems⟩ := List.forall_mem_cons.mp h
      exact Reads.bind ((reads_text? item).of_has hitem) fun _ _ =>
        (ih hitems).bind fun _ _ => ⟨not_false, trivial⟩

theorem reads_texts (v : Value) : Reads v (fun _ => True) (texts v) := by
  cases v with
  | list items =>
      exact (reads_mapM_text? fun item hitem => .item hitem .self).bind fun _ _ =>
        ⟨not_false, trivial⟩
  | _ => exact ⟨not_false, trivial⟩

theorem reads_aliases {pairs : List (Value × Value)} {aliases : List (String × String)}
    (h : ∀ p ∈ pairs, document.Has p.1 ∧ document.Has p.2) :
    Reads document (fun _ => True) (pairs.foldlM (fun aliases p => do
      let key ← keyText p.1
      let target ← text? p.2
      pure (assign aliases key (target.getD ""))) aliases) := by
  induction pairs generalizing aliases with
  | nil => exact ⟨not_false, trivial⟩
  | cons p pairs ih =>
      rw [List.foldlM_cons]
      obtain ⟨⟨hkey, hvalue⟩, hpairs⟩ := List.forall_mem_cons.mp h
      refine Reads.bind (P := fun _ => True) ?_ fun _ _ => ih hpairs
      exact Reads.bind ((reads_keyText p.1).of_has hkey) fun _ _ =>
        Reads.bind ((reads_text? p.2).of_has hvalue) fun _ _ => ⟨not_false, trivial⟩

theorem reads_aliasesOf (v : Value) : Reads v (fun _ => True) (aliasesOf v) := by
  cases v with
  | map pairs =>
      exact reads_aliases fun p hp => ⟨.key hp .self, .value hp .self⟩
  | _ => exact ⟨not_false, trivial⟩

theorem has_of_field {part name : String} (h : field document part name = some v) :
    document.Has v := by
  obtain ⟨part, hpart, hfield⟩ := Option.bind_eq_some_iff.mp h
  exact (Value.Has.of_get? hpart).trans (.of_get? hfield)

/-- A field that is missing yields the default, and any other what its value does. -/
theorem reads_field {part name : String} {read : Value → Except Fault α} {default : α}
    (hread : ∀ v, Reads v P (read v)) (hdefault : P default) :
    Reads document P (((field document part name).map read).getD (.ok default)) := by
  cases hfield : field document part name with
  | none => exact reads_ok hdefault
  | some v => exact (hread v).of_has (has_of_field hfield)

theorem reads_given? {part name : String} :
    Reads document (fun given => given? (field document part name) = given)
      (((field document part name).map text?).getD (.ok none)) := by
  cases hfield : field document part name with
  | none => exact reads_ok rfl
  | some v =>
      have htext := (reads_text? v).of_has (has_of_field hfield)
      change Reads document _ (text? v)
      cases hv : text? v with
      | error fault => rwa [hv] at htext
      | ok given => exact reads_ok (by rw [given?, Option.map_some, hv])

theorem yields_choice {choices : List String} {fault : Fault} {default part name : String}
    (hfault : fault.isRefusal = true) (hdefault : default ∈ choices) :
    Yields document (NoChoice choices (field document part name)) (· ∈ choices)
      (choice choices fault default (field document part name)) := by
  unfold choice
  refine reads_given?.bind fun given hgiven => ?_
  have hchosen : (∀ name, given = some name → name = "") →
      ¬ NoChoice choices (field document part name) := by
    rintro hempty ⟨name, hname, hne, -⟩
    exact hne (hempty name (hgiven.symm.trans hname))
  split
  · exact ⟨hchosen nofun, hdefault⟩
  · exact ⟨hchosen fun _ h => (Option.some.inj h).symm, hdefault⟩
  · next given hne =>
      dsimp only
      split
      · next h =>
          have hmem := List.contains_iff_mem.mp h
          refine ⟨?_, hmem⟩
          rintro ⟨name, hname, -, hnone⟩
          obtain rfl := Option.some.inj (hgiven.symm.trans hname)
          exact hnone hmem
      · next h =>
          have hnone := fun hmem => h (List.contains_iff_mem.mpr hmem)
          exact .inl ⟨⟨given, hgiven, hne, hnone⟩, hfault⟩

/-! ## Sections -/

theorem yields_importsOf (document : Value) :
    Yields document (CapBelowOne document)
      (fun s => 1 ≤ s.maxFiles ∧
        ∀ extension ∈ s.extensions, extension.startsWith "." = true) (importsOf document) := by
  unfold importsOf
  dsimp only
  split
  · next h =>
      refine .inl ⟨?_, rfl⟩
      cases hn : (field document "imports" "max_files").bind int? with
      | none =>
          rw [hn] at h
          exact absurd h (by decide)
      | some n =>
          rw [hn] at h
          exact ⟨n, hn, h⟩
  · next h =>
      have hcap : ¬ CapBelowOne document := by
        rintro ⟨n, hn, hlt⟩
        rw [hn] at h
        exact h hlt
      refine Reads.of_not hcap ?_
      refine (reads_field
        (P := fun extensions => ∀ extension ∈ extensions, extension.startsWith "." = true)
        (fun v => (reads_texts v).bind fun extensions _ => reads_ok ?_)
        startsWith_dot_of_default).bind fun extensions hextensions => ?_
      · intro extension hmem
        obtain ⟨extension, -, rfl⟩ := List.mem_map.mp hmem
        exact startsWith_withDot extension
      refine (reads_field (P := fun _ => True) reads_aliasesOf trivial).bind fun _ _ => ?_
      refine (reads_field (P := fun _ => True) reads_texts trivial).bind fun _ _ => ?_
      exact reads_ok ⟨Int.not_lt.mp h, hextensions⟩

theorem yields_reportOf (document : Value) :
    Yields document (NoChoice ["markdown", "json"] (field document "report" "format"))
      (fun s => s.format ∈ ["markdown", "json"] ∧
        (0 ≤ s.autoScanMinutes ∧ s.autoScanMinutes ≤ 10) ∧ 1 ≤ s.maxUsages)
      (reportOf document) := by
  unfold reportOf
  refine (yields_choice rfl (by decide)).bind_reads fun format hformat =>
    reads_ok ⟨hformat, ?_, ?_⟩
  · dsimp only
    cases (field document "report" "auto_scan_minutes").bind int? with
    | none => decide
    | some minutes => exact clampMinutes_bounds minutes
  · dsimp only
    cases (field document "report" "max_usages").bind int? with
    | none => decide
    | some n => exact Int.le_max_left 1 n

theorem contextOf_nonneg (document : Value) :
    (0 ≤ (contextOf document).markupWindow ∧ 0 ≤ (contextOf document).componentWindow ∧
      0 ≤ (contextOf document).stylesheetWindow) ∧ 0 ≤ (contextOf document).sampleLength := by
  have hsize (name : String) (otherwise : Int) (h : 0 ≤ otherwise) :
      0 ≤ (((field document "context" name).bind int?).map (max 0)).getD otherwise := by
    cases (field document "context" name).bind int? with
    | none => exact h
    | some n => exact Int.le_max_left 0 n
  exact ⟨⟨hsize _ _ (by decide), hsize _ _ (by decide), hsize _ _ (by decide)⟩,
    hsize _ _ (by decide)⟩

theorem yields_ofMapping (document : Value) :
    Yields document (HasRefused document) InRange (ofMapping document) := by
  unfold ofMapping
  refine (yields_importsOf document).bind fun imports himports => ?_
  refine (reads_field (P := fun _ => True) reads_texts trivial).bind fun attributes _ => ?_
  refine (yields_choice rfl (by decide)).bind fun precedence hprecedence => ?_
  refine (yields_reportOf document).bind_reads fun report hreport => ?_
  obtain ⟨hcap, hextensions⟩ := himports
  obtain ⟨hformat, hminutes, husages⟩ := hreport
  obtain ⟨hwindows, hsample⟩ := contextOf_nonneg document
  exact reads_ok
    { maxFiles := hcap
      extensions := hextensions
      windows := hwindows
      sampleLength := hsample
      precedence := hprecedence
      format := hformat
      autoScanMinutes := hminutes
      maxUsages := husages }

/-- A value that gives no settings is refused: the root is no mapping, or a field has a value that
is refused. -/
def Refused : Value → Prop
  | .null => False
  | .map pairs => HasRefused (.map pairs)
  | _ => True

theorem yields_ofValue (v : Value) : Yields v (Refused v) InRange (ofValue v) := by
  cases v with
  | null => exact reads_ok inRange_default
  | map pairs => exact yields_ofMapping (.map pairs)
  | _ => exact .inl ⟨trivial, rfl⟩

end Yields

/-! ## Files -/

variable {reader : Reader}

theorem sound_of_ofBytes {bytes : List UInt8} {s : Settings} (h : ofBytes reader bytes = .ok s) :
    s.Sound := by
  obtain ⟨cs, -, h⟩ := bind_eq_ok.mp h
  obtain ⟨v, -, h⟩ := bind_eq_ok.mp h
  have hyields := yields_ofValue v
  rw [h] at hyields
  exact hyields.2.sound

/-- Bytes that are text, with no integer in what it means that is too long to be written out. -/
def Readable (reader : Reader) (bytes : List UInt8) : Prop :=
  ∃ cs, Text.Utf8.decode bytes = .ok cs ∧
    ∀ v, valueOf reader (Text.unifyNewlines cs) = .ok v → ¬ v.HasLongInteger

/-- Readable bytes are settings, or else they are refused. Of the reader nothing is needed but
that it says so if a text is no document. -/
theorem isRefusal_of_ofBytes (hreader : reader.IsDecided) {bytes : List UInt8}
    (hbytes : Readable reader bytes) {fault : Fault} (h : ofBytes reader bytes = .error fault) :
    fault.isRefusal = true := by
  obtain ⟨cs, hdecode, hlong⟩ := hbytes
  rw [ofBytes, hdecode] at h
  change ofText reader (unifyNewlines cs) = .error fault at h
  have hvalue : (∃ v, valueOf reader (unifyNewlines cs) = .ok v) ∨
      ∃ problem, valueOf reader (unifyNewlines cs) = .error (.malformed problem) := by
    unfold valueOf
    split
    · exact .inl ⟨_, rfl⟩
    · exact hreader _
  obtain ⟨v, hvalue⟩ | ⟨problem, hvalue⟩ := hvalue
  · have hyields := yields_ofValue v
    rw [ofText, hvalue] at h
    change ofValue v = .error fault at h
    rw [h] at hyields
    exact (hyields.resolve_right (hlong v hvalue)).2
  · rw [ofText, hvalue] at h
    cases h
    rfl

/-! ## Disks -/

variable {disk : Disk Id} {p file : Path}

/-- The settings file that a path leads to is there, as a file of some bytes. -/
structure Keeps (disk : Disk Id) (p file : Path) (bytes : List UInt8) : Prop where
  found : (fileFor disk p).run = .ok file
  kind : (disk.kind? file).run = .ok (some .file)
  bytes : (disk.bytes file).run = .ok bytes

theorem load_of_keeps {bytes : List UInt8} (h : Keeps disk p file bytes) :
    (load reader disk p).run = (ofBytes reader bytes).map (file.parent, ·) := by
  have hthere : ((disk.hasAny file).adapt Fault.disk).run = .ok true := by
    rw [Disk.hasAny, ExceptT.run_adapt, ExceptT.run_map, h.kind]
    rfl
  have hbytes : ((disk.bytes file).adapt Fault.disk).run = .ok bytes := by
    rw [ExceptT.run_adapt, h.bytes]
    rfl
  rw [load, run_bind_of_ok h.found, run_bind_of_ok hthere, if_pos rfl, run_bind_of_ok hbytes]
  cases ofBytes reader bytes <;> rfl

theorem sound_of_load {found : Path × Settings} (h : (load reader disk p).run = .ok found) :
    found.2.Sound := by
  obtain ⟨file, -, h⟩ := run_bind_eq_ok.mp h
  obtain ⟨isThere, -, h⟩ := run_bind_eq_ok.mp h
  cases isThere with
  | false =>
      cases h
      exact sound_default
  | true =>
      obtain ⟨bytes, -, h⟩ := run_bind_eq_ok.mp h
      obtain ⟨s, hs, h⟩ := run_bind_eq_ok.mp h
      cases h
      exact sound_of_ofBytes hs

/-- A directory with a style sheet and a settings file. -/
def keeping (bytes : List UInt8) : Disk Id :=
  Tree.disk (pure { files := [(.ofString "/w/.color-inspector.yml", bytes),
    (.ofString "/w/a.css", [])] }) (.ofString "/w") fun _ => none

end Settings

end ColorCensus
