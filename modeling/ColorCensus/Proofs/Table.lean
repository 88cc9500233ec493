import ColorCensus.Variable.Collect

/-!
# What a table answers

Definitions go into a table one by one, and for a name the table answers with
the first or with the last of those that bear it. `resolve?_define` says how
one more definition changes the answers: not at all for other names, and for
its own name as if it stood behind the definition that was there. The induction
over all definitions is `resolve?_defineAll`.
-/

namespace ColorCensus.Variable

/-- Of several things in order, the one that counts. -/
def Precedence.choose? {α : Type} : Precedence → List α → Option α
  | first, xs => xs.head?
  | last, xs => xs.getLast?

namespace Precedence

variable {α β : Type}

theorem choose?_map (p : Precedence) (f : α → β) (xs : List α) :
    p.choose? (xs.map f) = (p.choose? xs).map f := by
  cases p with
  | first => exact List.head?_map
  | last => exact List.getLast?_map

theorem choose?_toList (p : Precedence) (o : Option α) : p.choose? o.toList = o := by
  cases o with
  | none => cases p <;> rfl
  | some x => cases p <;> rfl

theorem choose?_append (p : Precedence) (xs ys : List α) :
    p.choose? ((p.choose? xs).toList ++ ys) = p.choose? (xs ++ ys) := by
  cases p with
  | first =>
      cases xs with
      | nil => rfl
      | cons x xs => rfl
  | last =>
      simp only [choose?, List.getLast?_append]
      cases xs.getLast? with
      | none => rfl
      | some x => rfl

theorem mem_of_choose? {p : Precedence} {xs : List α} {x : α} (h : p.choose? xs = some x) :
    x ∈ xs := by
  cases p with
  | first => exact List.mem_of_head? h
  | last => exact List.mem_of_getLast? h

theorem choose?_eq_none_iff {p : Precedence} {xs : List α} : p.choose? xs = none ↔ xs = [] := by
  cases p with
  | first => exact List.head?_eq_none_iff
  | last => exact List.getLast?_eq_none_iff

end Precedence

namespace Table

theorem find?_replace (ds : List Definition) (d : Definition) (name : String) :
    (ds.map fun e => if e.name == d.name then d else e).find? (·.name == name) =
      (ds.find? (·.name == name)).map fun e => if d.name = name then d else e := by
  induction ds with
  | nil => rfl
  | cons e ds ih =>
      rw [List.map_cons, List.find?_cons, List.find?_cons, ih]
      by_cases he : e.name = d.name
      · rw [if_pos (beq_iff_eq.mpr he), he]
        cases hd : d.name == name with
        | true => simp [beq_iff_eq.mp hd]
        | false => rfl
      · rw [if_neg (by simpa using he)]
        cases hname : e.name == name with
        | true =>
            have hd : d.name ≠ name := fun h => he ((beq_iff_eq.mp hname).trans h.symm)
            simp [hd]
        | false => rfl

theorem resolve?_append {t : Table} {d : Definition} (h : t.resolve? d.name = none)
    (name : String) :
    ({ t with definitions := t.definitions ++ [d] } : Table).resolve? name =
      if d.name = name then some d else t.resolve? name := by
  simp only [resolve?, List.find?_append, List.find?_singleton, beq_iff_eq] at h ⊢
  split
  · next hd =>
      rw [← hd, h]
      rfl
  · exact Option.or_none

theorem resolve?_define (t : Table) (d : Definition) (name : String) :
    (t.define d).resolve? name =
      if d.name = name then t.precedence.choose? ((t.resolve? name).toList ++ [d])
      else t.resolve? name := by
  obtain ⟨precedence, ds⟩ := t
  cases hknown : (⟨precedence, ds⟩ : Table).resolve? d.name with
  | none =>
      have hdefine : (⟨precedence, ds⟩ : Table).define d = ⟨precedence, ds ++ [d]⟩ := by
        cases precedence with
        | first => simp only [define, keeps?, contains, hknown, Option.isSome_none]
        | last => simp only [define, keeps?, contains, hknown, Option.isSome_none]
      rw [hdefine]
      refine (resolve?_append hknown name).trans ?_
      split
      · next hd =>
          rw [← hd, hknown]
          cases precedence with
          | first => rfl
          | last => rfl
      · rfl
  | some e =>
      cases precedence with
      | first =>
          have hdefine : (⟨.first, ds⟩ : Table).define d = ⟨.first, ds⟩ := by
            simp only [define, keeps?, hknown]
          rw [hdefine]
          split
          · next hd =>
              rw [← hd, hknown]
              rfl
          · rfl
      | last =>
          have hdefine : (⟨.last, ds⟩ : Table).define d =
              ⟨.last, ds.map fun e => if e.name == d.name then d else e⟩ := by
            simp only [define, keeps?, contains, hknown, Option.isSome_some]
          rw [hdefine]
          refine (find?_replace ds d name).trans ?_
          change ((⟨.last, ds⟩ : Table).resolve? name).map _ = _
          split
          · next hd =>
              rw [← hd, hknown]
              rfl
          · exact Option.map_id'

theorem define_precedence (t : Table) (d : Definition) :
    (t.define d).precedence = t.precedence := by
  unfold define
  split
  · rfl
  · rfl
  · rfl

/-- After many definitions a table answers for a name with the one that counts
of those that bear it, the one it knew before coming first. -/
theorem resolve?_defineAll (t : Table) (ds : List Definition) (name : String) :
    (t.defineAll ds).resolve? name =
      t.precedence.choose? ((t.resolve? name).toList ++ ds.filter (·.name == name)) := by
  induction ds generalizing t with
  | nil =>
      rw [List.filter_nil, List.append_nil, Precedence.choose?_toList]
      rfl
  | cons d ds ih =>
      refine (ih (t.define d)).trans ?_
      rw [resolve?_define, define_precedence]
      by_cases hd : d.name = name
      · rw [if_pos hd, Precedence.choose?_append, List.filter_cons_of_pos (by simpa using hd),
          List.append_assoc, List.singleton_append]
      · rw [if_neg hd, List.filter_cons_of_neg (by simpa using hd)]

end Table

/-- The table of a pass answers with the definition that counts among those of
all its files. -/
theorem resolve?_collect (precedence : Precedence) (attributes : List (List Char))
    (sources : List Source) (name : String) :
    (collect precedence attributes sources).1.resolve? name =
      precedence.choose?
        ((sources.flatMap (definitionsIn attributes)).filter (·.name == name)) := by
  rw [collect, Table.record_fst]
  exact Table.resolve?_defineAll (Table.empty precedence) _ name

end ColorCensus.Variable
