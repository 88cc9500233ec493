import ColorCensus.Host
import ColorCensus.Log
import ColorCensus.Theme.Lines
import ColorCensus.Variable.Declaration
import ColorCensus.Variable.Table

/-!
# Collecting the variables of a pass

The color definitions of all files, in the order of the files and of their texts, go into one
table. A definition that stays out of the table for another one is told, unless both say the
same in the same file.
-/

namespace ColorCensus.Variable

open Text

/-- The theme in force at an offset. -/
def themeAt (themes : List Theme) (ix : LineIndex) (offset : Nat) : Theme :=
  (themes[ix.lineOf offset]?).getD .base

/-- The color definitions of a file. -/
def definitionsIn (attributes : List (List Char)) (source : Source) : List Definition :=
  let text := source.text.getD []
  let themes := Theme.ofLines attributes text
  (definitions text).map fun d =>
    { name := String.ofList d.name
      value := String.ofList d.value
      file := source.label
      theme := themeAt themes source.index d.start
      range := some (source.index.rangeOf d.start d.stop) }

/-- What there is to tell about a definition on its way into the table. -/
def Table.tell (t : Table) (d : Definition) : List Log.Event :=
  match t.keeps? d with
  | none => []
  | some kept =>
      if kept.value = d.value ∧ kept.file = d.file then []
      else [.shadowed d.name d.value d.file kept.file]

/-- Defines one after the other and tells what there is to tell. -/
def Table.record (t : Table) : List Definition → Table × List Log.Event
  | [] => (t, [])
  | d :: ds =>
      let (final, told) := (t.define d).record ds
      (final, t.tell d ++ told)

/-- The table of all files of a pass. -/
def collect (precedence : Precedence) (attributes : List (List Char)) (sources : List Source) :
    Table × List Log.Event :=
  (Table.empty precedence).record (sources.flatMap (definitionsIn attributes))

theorem Table.record_fst (t : Table) (ds : List Definition) : (t.record ds).1 = t.defineAll ds := by
  induction ds generalizing t with
  | nil => rfl
  | cons d ds ih => exact ih (t.define d)

end ColorCensus.Variable
