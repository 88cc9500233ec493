import ColorCensus.Proofs.Scopes
import ColorCensus.Proofs.Terminators

/-!
# What a hint in markup is read from

A color in markup is looked up from its line upwards, and what stands behind the color or above the
window should play no part. Neither is plain from the definition: the search asks for whole lines
and counts them from the start of the file.

The lines in question are those of the text in front of the offset, read from the last one upwards
(`upwards`). The lines above that of the offset are whole there as well. The line of the offset is
not, and what stands behind the offset may decide whether terminators in front of it are told; but
they make no difference (`ColorCensus.Proofs.Terminators`). A window that starts on a line cuts no
line, so its lines are the last ones of the text in front of the offset (`upwards_seenAbove`). So
what is read from the lines upwards is read from those of the text from the start of the window up
to the offset (`linesAbove_seen`).
-/

namespace ColorCensus.Context.Markup

open Text Text.LineIndex

/-! ## Lines upwards -/

/-- The lines of a text from the last one upwards. -/
def upwards (text : List Char) : List (List Char) := (splitLines text).reverse.map dropTerminator

theorem length_upwards (text : List Char) : (upwards text).length = text.count '\n' + 1 := by
  rw [upwards, List.length_map, List.length_reverse, length_splitLines]

/-- The text of a line up to an offset is the last line in front of it, terminators apart. -/
theorem beforeOffset_lastLine {text : List Char} {offset : Nat} {above : List (List Char)}
    {last : List Char} (h : splitLines (text.take offset) = above ++ [last]) :
    dropTerminator (beforeOffset (.ofText text) offset) = dropTerminator last := by
  obtain ⟨first, more, hfirst, htext⟩ := splitLines_lastLine h
  obtain ⟨done, htake, hcolumn⟩ := columnOf_lastLine h
  have hline : (splitLines text)[(ofText text).lineOf offset]? = some (last ++ first) := by
    rw [htext, ← length_above h, List.getElem?_append_right (Nat.le_refl _), Nat.sub_self,
      List.getElem?_cons_zero]
  have htaken : (last ++ first).take (offset - done.length) = last := by
    have hlength := congrArg List.length htake
    rw [List.length_take, List.length_append] at hlength
    rcases Nat.le_total offset text.length with hle | hge
    · rw [Nat.min_eq_left hle] at hlength
      rw [hlength, Nat.add_sub_cancel_left, List.take_left]
    · rw [Nat.min_eq_right hge] at hlength
      rw [List.drop_eq_nil_of_le hge] at hfirst
      obtain rfl : first = [] := (List.cons.inj hfirst).1.symm
      rw [List.append_nil, List.take_of_length_le (by omega)]
  rw [beforeOffset, lineText_eq, hline, Option.getD_some, dropTerminator_take, hcolumn, htaken]

/-- The lines from that of an offset upwards are those of the text in front of it, terminators of
the first one apart. -/
theorem linesAbove_eq (text : List Char) (window offset : Nat) :
    ∃ above, linesAbove (.ofText text) window offset =
        beforeOffset (.ofText text) offset :: above ∧
      (upwards (text.take offset)).take (window + 1) =
        dropTerminator (beforeOffset (.ofText text) offset) :: above := by
  obtain ⟨above, last, hlines⟩ := exists_lastLine (text.take offset)
  obtain ⟨first, more, -, htext⟩ := splitLines_lastLine hlines
  have hlength := length_above hlines
  have hnotneg : ¬ (window : Int) < 0 := Int.not_lt.mpr (Int.natCast_nonneg window)
  refine ⟨_, if_neg hnotneg, ?_⟩
  rw [upwards, hlines, List.reverse_concat, List.map_cons, List.take_succ_cons,
    beforeOffset_lastLine hlines, Int.toNat_natCast, ← hlength]
  refine congrArg _ (List.ext_getElem? fun i => ?_)
  rw [List.getElem?_take, List.getElem?_map, List.getElem?_map]
  by_cases hi : i < min above.length window
  · have hi' : i < above.length := by omega
    have hplace : above.length - 1 - i < above.length := by omega
    rw [if_pos (by omega), List.getElem?_range hi, List.getElem?_reverse hi', Option.map_some,
      lineText_eq, htext, List.getElem?_append_left hplace, List.getElem?_eq_getElem hplace]
    rfl
  · have hnone : (List.range (min above.length window))[i]? = none :=
      List.getElem?_eq_none (by rw [List.length_range]; omega)
    rw [hnone, Option.map_none, ite_eq_right_iff]
    intro hwindow
    rw [List.getElem?_eq_none (by rw [List.length_reverse]; omega), Option.map_none]

/-! ## The window -/

/-- The text in front of an offset, from the start of its line or of a line so many above. -/
def seenAbove (ix : LineIndex) (window offset : Nat) : List Char :=
  slice ix.text (Stylesheet.windowStart ix window offset, offset)

/-- Where the window starts below the first line, there is a newline in front of it, and it holds
as many newlines as it has lines above that of the offset. -/
theorem take_eq_seenAbove (text : List Char) (window offset : Nat) :
    text.take offset = seenAbove (.ofText text) window offset ∨
      ∃ front, text.take offset = front ++ '\n' :: seenAbove (.ofText text) window offset ∧
        (seenAbove (.ofText text) window offset).count '\n' = window := by
  have hsize := (ofText text).lineOf_lt offset
  have hwindow : (ofText text).lineOf offset - window < (ofText text).starts.size := by omega
  have hstart : (ofText text).starts[(ofText text).lineOf offset - window]? =
      some (Stylesheet.windowStart (.ofText text) window offset) :=
    Array.getElem?_eq_getElem hwindow
  have hle : Stylesheet.windowStart (.ofText text) window offset ≤ offset :=
    ((ofText text).lineStart_le_iff hwindow offset).mpr (Nat.sub_le _ _)
  rw [seenAbove]
  generalize Stylesheet.windowStart (.ofText text) window offset = start at hstart hle ⊢
  have hlines := lineOf_start hstart
  rw [starts_getElem?] at hstart
  rcases Nat.lt_or_ge window ((ofText text).lineOf offset) with habove | habove
  · right
    obtain ⟨k, hk⟩ : ∃ k, (ofText text).lineOf offset - window = k + 1 :=
      ⟨(ofText text).lineOf offset - window - 1, by omega⟩
    rw [hk] at hstart hlines
    obtain ⟨front, hfront⟩ := take_start hstart
    have htake : text.take offset = front ++ '\n' :: slice text (start, offset) := by
      rw [← take_append_slice text hle, hfront, List.append_assoc, List.singleton_append]
    refine ⟨front, htake, ?_⟩
    rw [lineOf_eq_count, hfront, List.count_append, List.count_singleton_self] at hlines
    rw [lineOf_eq_count, htake, List.count_append, List.count_cons_self] at hk
    change (slice text (start, offset)).count '\n' = window
    omega
  · left
    rw [Nat.sub_eq_zero_of_le habove] at hstart
    cases hstart
    rfl

theorem upwards_seenAbove (text : List Char) {lines window : Nat} (h : lines ≤ window)
    (offset : Nat) :
    (upwards (text.take offset)).take (lines + 1) =
      (upwards (seenAbove (.ofText text) window offset)).take (lines + 1) := by
  rcases take_eq_seenAbove text window offset with hseen | ⟨front, hseen, hcount⟩
  · rw [hseen]
  · have hlength : lines + 1 ≤ (upwards (seenAbove (.ofText text) window offset)).length := by
      rw [length_upwards, hcount]
      exact Nat.succ_le_succ h
    rw [hseen, upwards, splitLines, splitOn_append_sep, List.reverse_append, List.map_append]
    exact List.take_append_of_le_length hlength

/-! ## The hint -/

variable (text : List Char) {lines window : Nat} (offset : Nat)

/-- What is read from some lines upwards, if terminators of the first one make no difference to it,
is read from those of the window. -/
theorem linesAbove_seen {α : Type} {f : List (List Char) → α}
    (hf : ∀ c ∈ terminators, ∀ line above, f ((line ++ [c]) :: above) = f (line :: above))
    (h : lines ≤ window) :
    f (linesAbove (.ofText text) lines offset) =
      f ((upwards (seenAbove (.ofText text) window offset)).take (lines + 1)) := by
  obtain ⟨above, hlines, hupwards⟩ := linesAbove_eq text lines offset
  rw [← upwards_seenAbove text h, hupwards, hlines]
  exact (eq_dropTerminator (f := fun line => f (line :: above))
    (fun c hc line => hf c hc line above) _).symm

theorem enclosingComponent?_seen (h : lines ≤ window) :
    enclosingComponent? (linesAbove (.ofText text) lines offset) =
      enclosingComponent?
        ((upwards (seenAbove (.ofText text) window offset)).take (lines + 1)) :=
  linesAbove_seen text offset (fun _ hc => enclosingComponent?_concat hc) h

theorem elementContext_seen (h : lines ≤ window) :
    elementContext (linesAbove (.ofText text) lines offset) =
      elementContext ((upwards (seenAbove (.ofText text) window offset)).take (lines + 1)) :=
  linesAbove_seen text offset (fun _ hc => elementContext_concat hc) h

/-- The last key of the first line. -/
def keyIn? (lines : List (List Char)) : Option (List Char) :=
  lines.head?.bind fun line => (lastToken? objectKey line).map (·.value)

theorem propertyAt_seen (window : Nat) :
    propertyAt (.ofText text) offset =
      keyIn? ((upwards (seenAbove (.ofText text) window offset)).take 1) := by
  have hkey : ∀ c ∈ terminators, ∀ line above,
      keyIn? ((line ++ [c]) :: above) = keyIn? (line :: above) := by
    intro c hc line above
    rw [keyIn?, keyIn?, List.head?_cons, List.head?_cons, Option.bind_some, Option.bind_some,
      lastKey_concat hc]
  exact linesAbove_seen text offset hkey (Nat.zero_le window)

/-- What stands behind an offset or above the window makes no difference to a hint. If two texts
are the same from the start of the line so many lines above, for the wider one of both windows, up
to the offset, then the hints are. -/
theorem hintAt_lookback (s t : Source) (window componentWindow a b : Nat)
    (h : seenAbove s.index (max window componentWindow) a =
      seenAbove t.index (max window componentWindow) b) :
    hintAt s.index window componentWindow a = hintAt t.index window componentWindow b := by
  rw [s.index_eq, t.index_eq] at h ⊢
  have hcomponent := Nat.le_max_right window componentWindow
  have helement := Nat.le_max_left window componentWindow
  rw [hintAt, hintAt, scopeAt?, scopeAt?, enclosingComponent?_seen _ _ hcomponent,
    enclosingComponent?_seen _ _ hcomponent, elementContext_seen _ _ helement,
    elementContext_seen _ _ helement, propertyAt_seen _ _ (max window componentWindow),
    propertyAt_seen _ _ (max window componentWindow), h]

/-- A script with some text above an attribute and some behind its value. -/
def scripted (upper lower : String) : Source where
  path := .ofString "a.jsx"
  label := "a.jsx"
  text := some (upper.toList ++ "\n<A>\n<p class='b'\ncolor:\r".toList ++ lower.toList)

/-- The carriage return in front of the offset is a part of the line in the one script and of its
end in the other. -/
theorem hintAt_lookback_return :
    let s := scripted "" "red"
    let t := scripted "class C \n" "\n<i>"
    seenAbove s.index 1 25 = seenAbove t.index 1 34 ∧
      hintAt s.index 0 1 25 = hintAt t.index 0 1 34 ∧
      hintAt s.index 1 1 25 = hintAt t.index 1 1 34 ∧
      beforeOffset s.index 25 ≠ beforeOffset t.index 34 ∧
      hintAt s.index 1 1 25 = ⟨some ".b".toList, some "color".toList⟩ := by
  intro s t
  have hseen : seenAbove s.index 1 25 = seenAbove t.index 1 34 := by decide +kernel
  exact ⟨hseen, hintAt_lookback s t 0 1 25 34 hseen, hintAt_lookback s t 1 1 25 34 hseen,
    by decide +kernel, by decide +kernel⟩

end ColorCensus.Context.Markup
