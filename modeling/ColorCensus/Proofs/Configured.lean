import ColorCensus.Proofs.Loading

/-!
# Settings and the document they come from

What a document says of one field bears on that field alone. A field that it does not have, or has
with a value that is of no use there, keeps its default, and a section that is no mapping is as
good as none: the document without it gives the same settings.

The functions that make settings look at a document only through the fields of its sections, so
documents that agree on these give the same settings (`ofMapping_congr`).
-/

namespace ColorCensus

open Text Yaml

namespace Yaml.Value

def isMap : Value → Bool
  | map _ => true
  | _ => false

/-- A mapping without one of its keys. -/
def without (key : String) : Value → Value
  | map pairs => map (pairs.filter fun p => !p.1.isSameKey (text key.toList))
  | v => v

variable {key other : String} {v : Value}

theorem get?_without_self : (v.without key).get? key = none := by
  cases v with
  | map pairs =>
      rw [without, get?, List.find?_filter]
      simp
  | _ => rfl

theorem isSameKey_text {cs : List Char} (h : v.isSameKey (text cs) = true) : v = text cs := by
  cases v with
  | text cs' => exact congrArg text (eq_of_beq h)
  | _ => cases h

theorem get?_without_of_ne (hne : other ≠ key) : (v.without key).get? other = v.get? other := by
  cases v with
  | map pairs =>
      rw [without, get?, get?, List.find?_filter]
      congr 2
      funext p
      cases hother : p.1.isSameKey (text other.toList) with
      | false => simp
      | true =>
          have hkey : p.1.isSameKey (text key.toList) = false := by
            rw [Bool.eq_false_iff]
            intro hkey
            have htext := (isSameKey_text hother).symm.trans (isSameKey_text hkey)
            exact hne (String.toList_inj.mp (text.inj htext))
          rw [hkey]
          rfl
  | _ => rfl

theorem get?_of_not_isMap (h : v.isMap = false) : v.get? key = none := by
  cases v with
  | map pairs => cases h
  | _ => rfl

end Yaml.Value

namespace Settings

variable {document : Value} {part name : String}

/-! ## Sections -/

/-- A document has no such section, or has something else than a mapping for it. -/
def NoSection (document : Value) (part : String) : Prop :=
  ∀ v, document.get? part = some v → v.isMap = false

theorem field_of_noSection (h : NoSection document part) : field document part name = none := by
  cases hpart : document.get? part with
  | none => rw [field, hpart, Option.bind_none]
  | some v => rw [field, hpart, Option.bind_some, Value.get?_of_not_isMap (h v hpart)]

theorem field_without (h : NoSection document part) (other : String) :
    field (document.without part) other name = field document other name := by
  by_cases hother : other = part
  · subst hother
    rw [field_of_noSection h, field, Value.get?_without_self, Option.bind_none]
  · rw [field, Value.get?_without_of_ne hother, field]

theorem ofMapping_congr {document' : Value}
    (h : ∀ part name, field document part name = field document' part name) :
    ofMapping document = ofMapping document' := by
  simp only [ofMapping, importsOf, contextOf, reportOf, h]

/-- A section that is no mapping might as well not be there. -/
theorem ofValue_without (h : NoSection document part) :
    ofValue (document.without part) = ofValue document := by
  cases document with
  | map pairs => exact ofMapping_congr fun other _ => field_without h other
  | _ => rfl

/-! ## What settings are made of -/

/-- Settings and what of them each part of a document gives. -/
structure Assembled (document : Value) (s : Settings) : Prop where
  imports : importsOf document = .ok s.imports
  context : s.context = contextOf document
  attributes : ((field document "themes" "attributes").map texts).getD
    (.ok ({} : Settings.Themes).attributes) = .ok s.themes.attributes
  precedence : choice ["first", "last"] .unknownPrecedence "first"
    (field document "variables" "precedence") = .ok s.declarations.precedence
  perFile : s.aggregate.perFile = ((field document "aggregate" "per_file").bind bool?).getD true
  report : reportOf document = .ok s.report

theorem assembled_of_ofMapping {s : Settings} (h : ofMapping document = .ok s) :
    Assembled document s := by
  obtain ⟨imports, himports, h⟩ := bind_eq_ok.mp h
  obtain ⟨attributes, hattributes, h⟩ := bind_eq_ok.mp h
  obtain ⟨precedence, hprecedence, h⟩ := bind_eq_ok.mp h
  obtain ⟨report, hreport, h⟩ := bind_eq_ok.mp h
  cases h
  exact ⟨himports, rfl, hattributes, hprecedence, rfl, hreport⟩

/-- A section that a document does not have keeps its defaults. -/
structure KeepsSections (document : Value) (s : Settings) : Prop where
  imports : NoSection document "imports" → s.imports = {}
  context : NoSection document "context" → s.context = {}
  themes : NoSection document "themes" → s.themes = {}
  declarations : NoSection document "variables" → s.declarations = {}
  aggregate : NoSection document "aggregate" → s.aggregate = {}
  report : NoSection document "report" → s.report = {}

theorem Assembled.keepsSections {s : Settings} (h : Assembled document s) :
    KeepsSections document s where
  imports hno := by
    have hnone (name : String) : field document "imports" name = none := field_of_noSection hno
    have himports : importsOf document = .ok {} := by
      simp only [importsOf, hnone]
      rfl
    exact Except.ok.inj (h.imports.symm.trans himports)
  context hno := by
    have hnone (name : String) : field document "context" name = none := field_of_noSection hno
    rw [h.context]
    simp only [contextOf, hnone]
    rfl
  themes hno := by
    have hattributes := h.attributes
    rw [field_of_noSection hno] at hattributes
    exact congrArg Themes.mk (Except.ok.inj hattributes).symm
  declarations hno := by
    have hprecedence := h.precedence
    rw [field_of_noSection hno] at hprecedence
    exact congrArg Declarations.mk (Except.ok.inj hprecedence).symm
  aggregate hno := by
    have hperFile := h.perFile
    rw [field_of_noSection hno] at hperFile
    exact congrArg Aggregate.mk hperFile
  report hno := by
    have hnone (name : String) : field document "report" name = none := field_of_noSection hno
    have hreport : reportOf document = .ok {} := by
      simp only [reportOf, hnone]
      rfl
    exact Except.ok.inj (h.report.symm.trans hreport)

/-! ## Fields -/

/-- The value of a field gives no name. -/
def Unnamed (value : Option Value) : Prop := ∀ given, given? value = some given → given = ""

/-- A field that a document does not have, or has with a value that is of no use for it, keeps its
default. -/
structure KeepsFields (document : Value) (s : Settings) : Prop where
  maxFiles : (field document "imports" "max_files").bind int? = none →
    s.imports.maxFiles = ({} : Import.Settings).maxFiles
  markupWindow : (field document "context" "markup_window").bind int? = none →
    s.context.markupWindow = ({} : Context.Settings).markupWindow
  componentWindow : (field document "context" "component_window").bind int? = none →
    s.context.componentWindow = ({} : Context.Settings).componentWindow
  stylesheetWindow : (field document "context" "stylesheet_window").bind int? = none →
    s.context.stylesheetWindow = ({} : Context.Settings).stylesheetWindow
  sampleLength : (field document "context" "sample_length").bind int? = none →
    s.context.sampleLength = ({} : Context.Settings).sampleLength
  precedence : Unnamed (field document "variables" "precedence") →
    s.declarations.precedence = ({} : Declarations).precedence
  perFile : (field document "aggregate" "per_file").bind bool? = none →
    s.aggregate.perFile = ({} : Aggregate).perFile
  format : Unnamed (field document "report" "format") →
    s.report.format = ({} : Settings.Report).format
  autoScanMinutes : (field document "report" "auto_scan_minutes").bind int? = none →
    s.report.autoScanMinutes = ({} : Settings.Report).autoScanMinutes
  maxUsages : (field document "report" "max_usages").bind int? = none →
    s.report.maxUsages = ({} : Settings.Report).maxUsages

theorem maxFiles_of_importsOf {s : Import.Settings} (h : importsOf document = .ok s) :
    s.maxFiles = ((field document "imports" "max_files").bind int?).getD
      ({} : Import.Settings).maxFiles := by
  unfold importsOf at h
  dsimp only at h
  split at h
  · cases h
  obtain ⟨extensions, -, h⟩ := bind_eq_ok.mp h
  obtain ⟨aliases, -, h⟩ := bind_eq_ok.mp h
  obtain ⟨excludePaths, -, h⟩ := bind_eq_ok.mp h
  cases h
  rfl

theorem choice_of_unnamed {choices : List String} {fault : Fault} {default chosen : String}
    {value : Option Value} (h : choice choices fault default value = .ok chosen)
    (hunnamed : Unnamed value) : chosen = default := by
  obtain ⟨given, hgiven, h⟩ := bind_eq_ok.mp h
  have hvalue : given? value = given := by
    cases value with
    | none => exact Except.ok.inj hgiven
    | some v => rw [given?, Option.map_some, show text? v = .ok given from hgiven]
  cases given with
  | none => exact (Except.ok.inj h).symm
  | some name =>
      obtain rfl := hunnamed name hvalue
      exact (Except.ok.inj h).symm

theorem getD_map_of_none {value : Option Int} {f : Int → Int} {default : Int} (h : value = none) :
    (value.map f).getD default = default := by
  rw [h]
  rfl

theorem Assembled.keepsFields {s : Settings} (h : Assembled document s) :
    KeepsFields document s := by
  obtain ⟨format, hformat, hreport⟩ := bind_eq_ok.mp h.report
  have hreport := (Except.ok.inj hreport).symm
  exact
    { maxFiles := fun hnone => by rw [maxFiles_of_importsOf h.imports, hnone]; rfl
      markupWindow := fun hnone => by rw [h.context]; exact getD_map_of_none hnone
      componentWindow := fun hnone => by rw [h.context]; exact getD_map_of_none hnone
      stylesheetWindow := fun hnone => by rw [h.context]; exact getD_map_of_none hnone
      sampleLength := fun hnone => by rw [h.context]; exact getD_map_of_none hnone
      precedence := choice_of_unnamed h.precedence
      perFile := fun hnone => by rw [h.perFile, hnone]; rfl
      format := fun hunnamed => by rw [hreport]; exact choice_of_unnamed hformat hunnamed
      autoScanMinutes := fun hnone => by rw [hreport]; exact getD_map_of_none hnone
      maxUsages := fun hnone => by rw [hreport]; exact getD_map_of_none hnone }

/-! ## Documents -/

theorem assembled_of_ofValue {s : Settings} (h : ofValue document = .ok s) :
    Assembled document s := by
  cases document with
  | null => exact assembled_of_ofMapping h
  | map pairs => exact assembled_of_ofMapping h
  | _ => cases h

variable {reader : Reader} {disk : Disk Id} {p file : Path}

/-- The settings file that a path leads to is there, and its text means a value to the reader. As
the reader may be any, so may be the value. -/
structure Holds (reader : Reader) (disk : Disk Id) (p file : Path) (v : Value) : Prop where
  content : ∃ bytes cs, Keeps disk p file bytes ∧ Utf8.decode bytes = .ok cs ∧
    valueOf reader (unifyNewlines cs) = .ok v

theorem Holds.load_eq (h : Holds reader disk p file document) :
    (load reader disk p).run = (ofValue document).map (file.parent, ·) := by
  obtain ⟨bytes, cs, hkeeps, hdecode, hvalue⟩ := h.content
  rw [load_of_keeps hkeeps, ofBytes, hdecode]
  change (ofText reader (unifyNewlines cs)).map _ = _
  rw [ofText, hvalue]
  rfl

/-- Whatever value a reader makes of the settings file, loading it fails with a refusal exactly if
there is a reason to refuse the value; otherwise it comes to settings in range, in which every
section and every field that the document does not give keeps its default. A section that is no
mapping changes nothing at all. Integers are left out that have too many digits to be written:
where a text is wanted of one, loading breaks off instead of refusing it. -/
theorem load_of_document (hfile : Holds reader disk p file document)
    (hlong : ¬ document.HasLongInteger) :
    ((∃ fault, (load reader disk p).run = .error fault ∧ fault.isRefusal = true) ↔
        Refused document) ∧
      (¬ Refused document → ∃ s, (load reader disk p).run = .ok (file.parent, s) ∧
        s.InRange ∧ KeepsFields document s ∧ KeepsSections document s) ∧
      ∀ part, NoSection document part →
        (load reader disk p).run = (ofValue (document.without part)).map (file.parent, ·) := by
  have hload := hfile.load_eq
  have hyields := yields_ofValue document
  refine ⟨?_, ?_, fun part hpart => by rw [hload, ofValue_without hpart]⟩
  · rw [hload]
    cases hvalue : ofValue document with
    | error fault =>
        rw [hvalue] at hyields
        obtain ⟨hrefused, hfault⟩ := hyields.resolve_right hlong
        exact ⟨fun _ => hrefused, fun _ => ⟨fault, rfl, hfault⟩⟩
    | ok s =>
        rw [hvalue] at hyields
        exact ⟨nofun, fun hrefused => absurd hrefused hyields.1⟩
  · intro hrefused
    cases hvalue : ofValue document with
    | error fault =>
        rw [hvalue] at hyields
        exact absurd (hyields.resolve_right hlong).1 hrefused
    | ok s =>
        rw [hvalue] at hyields
        have hassembled := assembled_of_ofValue hvalue
        exact ⟨s, by rw [hload, hvalue]; rfl, hyields.2, hassembled.keepsFields,
          hassembled.keepsSections⟩

/-- A section that is no mapping, and a number that is too small. -/
def lopsidedText : String := "imports: 3\nreport:\n  max_usages: 0\n"

def lopsidedBytes : List UInt8 := lopsidedText.toList.map fun c => c.toNat.toUInt8

def lopsided : Value :=
  .map [(.text "imports".toList, .int 3),
    (.text "report".toList, .map [(.text "max_usages".toList, .int 0)])]

/-- A reader that knows one document. -/
def lopsidedReader : Reader := fun cs =>
  if cs = lopsidedText.toList then .ok lopsided else .error (.malformed "another document")

theorem valueOf_lopsided :
    valueOf lopsidedReader (unifyNewlines lopsidedText.toList) = .ok lopsided := by
  have hunified : unifyNewlines lopsidedText.toList = lopsidedText.toList := by decide +kernel
  have hblank : (trim lopsidedText.toList).isEmpty = false := by decide +kernel
  rw [hunified, valueOf, hblank, if_neg Bool.false_ne_true]
  exact if_pos rfl

theorem holds_lopsided : Holds lopsidedReader (keeping lopsidedBytes) (.ofString "/w")
    (.ofString "/w/.color-inspector.yml") lopsided where
  content := ⟨_, lopsidedText.toList, ⟨rfl, rfl, rfl⟩, rfl, valueOf_lopsided⟩

theorem not_hasLongInteger_lopsided : ¬ lopsided.HasLongInteger := by
  rintro ⟨i, hi, hlong⟩
  have hvalues : i = 3 ∨ i = 0 := by simpa [lopsided] using hi
  obtain rfl | rfl := hvalues
  · exact absurd hlong (by decide +kernel)
  · exact absurd hlong (by decide +kernel)

theorem not_refused_lopsided : ¬ Refused lopsided := by
  rintro (⟨n, hn, -⟩ | ⟨name, hname, -⟩ | ⟨name, hname, -⟩)
  · cases hn
  · cases hname
  · cases hname

/-- The section that is no mapping keeps its defaults, and the number is in its range. -/
theorem load_of_document_lopsided :
    ∃ s, (load lopsidedReader (keeping lopsidedBytes) (.ofString "/w")).run =
        .ok (.ofString "/w", s) ∧
      s.imports = {} ∧ s.report.format = "markdown" ∧ 1 ≤ s.report.maxUsages := by
  obtain ⟨-, hload, -⟩ := load_of_document holds_lopsided not_hasLongInteger_lopsided
  obtain ⟨s, hs, hrange, hfields, hsections⟩ := hload not_refused_lopsided
  have himports : NoSection lopsided "imports" := by
    intro v hv
    cases hv
    rfl
  exact ⟨s, hs, hsections.imports himports, hfields.format nofun, hrange.maxUsages⟩

end Settings

end ColorCensus
