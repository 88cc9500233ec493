import ColorCensus.Proofs.Visits

/-!
# Asking afresh

An extractor that is asked again and again answers from what it remembers. Here
it is compared with one that is built for a single question and thrown away.
`Memory.reply` is one question, `replies` is any number of them put to the same
extractor, about whatever files and in whatever order. As long as a path stands
for one text, every answer is the one that a new extractor gives: the memory
serves every file that is still to be asked about (`Serves`), and it goes on
serving them whichever way a question is routed.

A pass reads every path once, so its files are of that kind, and its result is
that of a pass which builds an extractor for every color that it describes.
-/

namespace ColorCensus

namespace Context

namespace Memory

/-- The answer of an extractor to a question about a file, and what it remembers
afterwards. There is no answer if the window starts on no line of the file. -/
def reply (m : Memory) (settings : Settings) (source : Source) (offset : Nat) :
    Option Hint × Memory :=
  let (strategy, m) := m.strategyAt source offset
  let (hint, m) := m.hintBy settings source offset strategy
  (if strategy.1.hasWindow settings source offset then some hint else none, m)

/-- The answers of one extractor to questions put one after the other. -/
def replies (settings : Settings) : Memory → List (Source × Nat) → List (Option Hint)
  | _, [] => []
  | m, (source, offset) :: rest =>
      let (answer, m) := m.reply settings source offset
      answer :: replies settings m rest

variable {settings : Settings}

theorem reply_fst {m : Memory} {s : Source} (h : m.Serves s) (offset : Nat) :
    (m.reply settings s offset).1 =
      if (Context.strategyAt s offset).1.hasWindow settings s offset then
        some (Context.hintAt settings s offset)
      else none := by
  have hhint := hintAt_fst h settings offset
  rw [hintAt_eq_hintBy] at hhint
  rw [← hhint, ← strategyAt_fst h]
  rfl

theorem reply_serves {m : Memory} {s t : Source} (hst : s.Agree t) (h : m.Serves t)
    (offset : Nat) : (m.reply settings s offset).2.Serves t :=
  hintAt_serves hst h settings offset

/-- The induction is on the questions left; the memory serves all their files. -/
theorem replies_eq {questions : List (Source × Nat)} {m : Memory}
    (hserves : ∀ q ∈ questions, m.Serves q.1)
    (hagree : ∀ p ∈ questions, ∀ q ∈ questions, p.1.Agree q.1) :
    replies settings m questions =
      questions.map fun q => (reply {} settings q.1 q.2).1 := by
  induction questions generalizing m with
  | nil => rfl
  | cons q rest ih =>
      obtain ⟨source, offset⟩ := q
      have hanswer : (m.reply settings source offset).1 = (reply {} settings source offset).1 := by
        rw [reply_fst (hserves _ List.mem_cons_self), reply_fst (.empty source)]
      have hrest : replies settings (m.reply settings source offset).2 rest =
          rest.map fun q => (reply {} settings q.1 q.2).1 := by
        refine ih (fun p hp => ?_) (fun p hp q hq => ?_)
        · have hmem := List.mem_cons_of_mem (source, offset) hp
          exact reply_serves (hagree _ List.mem_cons_self _ hmem) (hserves _ hmem) offset
        · exact hagree _ (List.mem_cons_of_mem _ hp) _ (List.mem_cons_of_mem _ hq)
      rw [replies, List.map_cons, ← hanswer, ← hrest]

end Memory

/-- A window that is not negative starts on a line at or above that of its
offset. -/
theorem hasWindow_of_nonneg {settings : Settings} {s : Source}
    (h : 0 ≤ settings.stylesheetWindow) (strategy : Strategy) (offset : Nat) :
    strategy.hasWindow settings s offset = true := by
  cases strategy with
  | markup => rfl
  | stylesheet =>
      have hline : s.index.lineOf offset < s.index.lineCount := s.index.lineOf_lt offset
      change decide (Stylesheet.windowLine _ _ _ < _) = true
      rw [decide_eq_true_eq, Stylesheet.windowLine]
      omega

end Context

/-! ## A pass that remembers nothing -/

namespace Occurrence

/-- The occurrences of a file, each described by an extractor built for it. -/
def scanAfresh? (table : Variable.Table) (attributes : List (List Char))
    (settings : Context.Settings) (source : Source) : Option (List Occurrence) :=
  (spots table attributes source).mapM fun spot =>
    (Context.Memory.reply {} settings source spot.start).1.map fun hint =>
      describe settings.sampleLength source hint spot

end Occurrence

namespace Census

open Import (visit)
open Occurrence (scanAfresh?)

/-- What the scanner reports over some files, made without any memory. -/
def scanAllAfresh? (table : Variable.Table) (attributes : List (List Char))
    (settings : Context.Settings) (files : List Source) :
    Option (List (Source × List Occurrence)) :=
  files.mapM fun s => (scanAfresh? table attributes settings s).map (s, ·)

/-- The inventory of a graph, made without any memory. -/
def ofClosureAfresh (settings : Settings) (rootLabel : String) (graph : Import.Closure) :
    Except Fault Inventory :=
  match Variable.Precedence.ofName? settings.declarations.precedence with
  | none => .error (.unknownPrecedence settings.declarations.precedence)
  | some precedence =>
      match scanAllAfresh? (tableOf settings precedence graph.files)
          (Theme.attributes settings.themes.attributes) settings.context graph.files with
      | none => .error .windowOutside
      | some scanned => .ok (inventoryOf settings rootLabel graph scanned)

theorem mapM_ite {α β : Type} (p : α → Bool) (f : α → β) (xs : List α) :
    (xs.mapM fun x => if p x = true then some (f x) else none) =
      if xs.all p = true then some (xs.map f) else none := by
  induction xs with
  | nil => rfl
  | cons x xs ih =>
      rw [List.mapM_cons, ih, List.all_cons]
      cases p x with
      | false => rfl
      | true => cases xs.all p <;> rfl

theorem scanAfresh?_eq {table : Variable.Table} {attributes : List (List Char)}
    {settings : Context.Settings} (s : Source) :
    scanAfresh? table attributes settings s =
      if scannable table attributes settings s = true then
        some (Occurrence.found table attributes settings s)
      else none := by
  have hcan : scannable table attributes settings s =
      Occurrence.windowed table attributes settings s := by
    rw [scannable]
    by_cases h : 0 ≤ settings.stylesheetWindow
    · rw [decide_eq_true h, Bool.true_or, Occurrence.windowed, eq_comm, List.all_eq_true]
      exact fun spot _ => Context.hasWindow_of_nonneg h _ _
    · rw [decide_eq_false h, Bool.false_or]
  rw [hcan, Occurrence.windowed, Occurrence.found, ← mapM_ite, scanAfresh?]
  congr 1
  funext spot
  rw [Context.Memory.reply_fst (.empty s), Occurrence.describeIn, apply_ite (Option.map _)]
  rfl

theorem scanAllAfresh?_eq {table : Variable.Table} {attributes : List (List Char)}
    {settings : Context.Settings} {files : List Source}
    (hagree : ∀ s ∈ files, ∀ t ∈ files, s.Agree t) :
    scanAllAfresh? table attributes settings files =
      scanAll table attributes settings {} files := by
  rw [scanAll_eq (fun s _ => .empty s) hagree, ← mapM_ite, scanAllAfresh?]
  congr 1
  funext s
  rw [scanAfresh?_eq, apply_ite (Option.map _)]
  rfl

theorem ofClosure_afresh {settings : Settings} {rootLabel : String} {graph : Import.Closure}
    (hagree : ∀ s ∈ graph.files, ∀ t ∈ graph.files, s.Agree t) :
    (ofClosure settings rootLabel graph).map (·.1) =
      ofClosureAfresh settings rootLabel graph := by
  unfold ofClosure ofClosureAfresh
  cases Variable.Precedence.ofName? settings.declarations.precedence with
  | none => rfl
  | some precedence =>
      dsimp only
      rw [scanAllAfresh?_eq hagree, tableOf]
      cases scanAll (Variable.collect precedence
            (Theme.attributes settings.themes.attributes) graph.files).1
          (Theme.attributes settings.themes.attributes) settings.context {} graph.files with
      | none => rfl
      | some scanned => rfl

variable {σ : Type}

/-- An extractor answers every question as a new one would, whatever it was
asked before about files that carry one text for each path; and no pass comes to
another result for what its extractor remembers. -/
theorem memory_changes_nothing (settings : Settings) :
    (∀ questions : List (Source × Nat),
      (∀ p ∈ questions, ∀ q ∈ questions, p.1.Agree q.1) →
        Context.Memory.replies settings.context {} questions =
          questions.map fun q => (Context.Memory.reply {} settings.context q.1 q.2).1) ∧
    ∀ (host : Host (StateM σ)) (workspace root : Path) (cap : Option Int) (s : σ),
      ((take host settings workspace root cap).run s).1.1 =
        if ((host.isFile root).run s).1 then
          ofClosureAfresh settings (host.label workspace root)
            (graphFrom host settings workspace root cap s)
        else .error (.rootMissing root) := by
  constructor
  · intro questions hagree
    exact Context.Memory.replies_eq (fun q _ => .empty q.1) hagree
  · intro host workspace root cap s
    rw [take_result, ofClosure_afresh graphFrom_agree]

/-- A page with a style block, to be asked about in turn with the first sheet. -/
def page : Source where
  path := .ofString "/w/c.vue"
  label := "c.vue"
  text := some "<style>.c\x7bcolor:#fff\x7d</style>".toList

def turnAbout : List (Source × Nat) :=
  [(visit sheets folder firstSheet, 25), (page, 16),
    (visit sheets folder firstSheet, 25), (page, 16), (page, 3)]

theorem turnAbout_agree : ∀ p ∈ turnAbout, ∀ q ∈ turnAbout, p.1.Agree q.1 := by
  have hne : (visit sheets folder firstSheet).path ≠ page.path := by decide +kernel
  simp only [turnAbout, List.forall_mem_cons, Source.Agree]
  simp [hne, hne.symm]

/-- Asked twice about a sheet and a block in turn, an extractor answers the
second time as it did the first, and before the block it answers with the tag. -/
theorem memory_changes_nothing_turnAbout :
    Context.Memory.replies {} {} turnAbout =
      [some ⟨some ".a".toList, some "color".toList⟩, some ⟨some ".c".toList, some "color".toList⟩,
        some ⟨some ".a".toList, some "color".toList⟩, some ⟨some ".c".toList, some "color".toList⟩,
        some ⟨some "st".toList, none⟩] ∧
    ∃ inventory,
      ofClosureAfresh {} "a.css" (graphIn sheets {} folder firstSheet (some 2)) =
        .ok inventory := by
  obtain ⟨hreplies, hpass⟩ := @memory_changes_nothing Unit {}
  constructor
  · refine (hreplies turnAbout turnAbout_agree).trans ?_
    decide +kernel
  · obtain ⟨inventory, h⟩ := exists_take_sheets (some 2)
    have hsteady : ((take sheets.steady {} folder firstSheet (some 2)).run ()).1.1 =
        .ok inventory := take_steady.trans h
    rw [hpass, graphFrom_steady, if_pos (by decide +kernel)] at hsteady
    exact ⟨inventory, hsteady⟩

end Census

end ColorCensus
