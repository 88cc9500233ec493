import ColorCensus.Inventory.Basic
import ColorCensus.Slice

/-!
# Chapters of a report

A group is shown in up to four chapters: its variables by theme, and its literals. A variable
without a theme is shown with the base theme, one with a theme of its own making in no chapter.
Of an entry's usages in a file the first ones are shown and the others counted.
-/

namespace ColorCensus.Report

/-- How an entry is shown in the group of a file. -/
structure View where
  label : Option String
  value : String
  line : Nat
  property : Option String
  scope : Option String
  usages : List Occurrence
  hidden : Nat

/-- Occurrences in the order of their places. -/
def inPlaceOrder (os : List Occurrence) : List Occurrence :=
  os.mergeSort fun a b =>
    decide (a.range.line < b.range.line) ||
      (a.range.line == b.range.line && decide (a.range.startCol ≤ b.range.startCol))

/-- The view of an entry with its occurrences in a file. It points at the first definition there
or, if there is none, at the first usage. -/
def View.ofMember (maxUsages : Int) (member : Entry × List Occurrence) : View :=
  let ordered := inPlaceOrder member.2
  let usages := ordered.filter (!·.isDefinition)
  { label := member.1.name
    value := member.1.value
    line := (((ordered.find? (·.isDefinition)).or ordered.head?).map (·.range.line)).getD 0
    property := usages.findSome? fun o => Occurrence.present? o.property
    scope := usages.findSome? fun o => Occurrence.present? o.scope
    usages := upTo maxUsages usages
    hidden := (usages.length - maxUsages).toNat }

inductive Chapter.Kind where
  | dark
  | light
  | base
  | literals
deriving DecidableEq, Repr

/-- The chapter that an entry is shown in. -/
def Chapter.kindOf? (e : Entry) : Option Chapter.Kind :=
  if e.kind = .literal then some .literals
  else match e.theme with
    | none | some (.other "") | some .base => some .base
    | some .dark => some .dark
    | some .light => some .light
    | some (.other label) => if label = "literal" then some .literals else none

structure Chapter where
  title : String
  views : List View

/-- The entries of a group that one chapter shows. -/
def Chapter.membersOf (g : Group) (kind : Chapter.Kind) : List (Entry × List Occurrence) :=
  g.entries.filter fun m => Chapter.kindOf? m.1 = some kind

/-- The base theme stands in for a light one that is not there. -/
def Chapter.titleIn (g : Group) : Chapter.Kind → String
  | .dark => "Dark theme"
  | .light => "Light theme"
  | .base => if (Chapter.membersOf g .light).isEmpty then "Light theme" else "Base"
  | .literals => "Other colors"

/-- The chapters of a group that show anything. -/
def chaptersOf (maxUsages : Int) (g : Group) : List Chapter :=
  [.dark, .light, .base, .literals].filterMap fun kind =>
    match Chapter.membersOf g kind with
    | [] => none
    | members => some ⟨Chapter.titleIn g kind, members.map (View.ofMember maxUsages)⟩

/-- The themes that a group stands for; the base theme counts as light. -/
def badges (g : Group) : List String :=
  (if g.coverage.light || g.coverage.base then ["light"] else []) ++
    (if g.coverage.dark then ["dark"] else []) ++ (if g.coverage.system then ["system"] else [])

end ColorCensus.Report
