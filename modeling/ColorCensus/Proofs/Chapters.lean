import ColorCensus.Proofs.Arrangement
import ColorCensus.Proofs.Themes
import ColorCensus.Report.Chapters

/-!
# The chapters of a report leave nothing out

There are four chapters, and an entry with another theme would be in none of them. A pass makes no
such entry (`kindOf?_eq_some`), so the chapters deal out the entries of a group. That no two of them
have one title is because the base chapter takes the title of the light one only if there is none.

A view shows the first of the usages in the order of their places. The sort is over all occurrences
and the usages are taken out afterwards; since the sort is stable that comes to the same.
-/

namespace ColorCensus

namespace Report

variable {g : Group} {n : Nat} {os : List Occurrence} {m : Entry × List Occurrence}

/-! ## Places -/

/-- Occurrences are put in the order of lines and of columns, and stay as they were at one place. -/
def InPlaceOrder : List Occurrence → List Occurrence → Prop :=
  SortedStably (fun o => (o.range.line, o.range.startCol)) (Prod.Lex (· < ·) (· < ·))

/-- Whether an occurrence is at the place of another one or in front of it. -/
def notAfter (a b : Occurrence) : Bool :=
  decide (a.range.line < b.range.line) ||
    (a.range.line == b.range.line && decide (a.range.startCol ≤ b.range.startCol))

theorem inPlaceOrder_eq (os : List Occurrence) : inPlaceOrder os = os.mergeSort notAfter := rfl

theorem notAfter_iff {a b : Occurrence} :
    notAfter a b = true ↔ a.range.line < b.range.line ∨
      a.range.line = b.range.line ∧ a.range.startCol ≤ b.range.startCol := by
  simp only [notAfter, Bool.or_eq_true, Bool.and_eq_true, decide_eq_true_eq, beq_iff_eq]

theorem notAfter_trans (a b c : Occurrence) (hab : notAfter a b = true)
    (hbc : notAfter b c = true) : notAfter a c = true := by
  rw [notAfter_iff] at hab hbc ⊢
  omega

theorem notAfter_total (a b : Occurrence) : (notAfter a b || notAfter b a) = true := by
  rw [Bool.or_eq_true, notAfter_iff, notAfter_iff]
  omega

theorem filter_inPlaceOrder (p : Occurrence → Bool) (os : List Occurrence) :
    (inPlaceOrder os).filter p = inPlaceOrder (os.filter p) :=
  filter_mergeSort notAfter_trans notAfter_total p os

theorem inPlaceOrder_ordered (os : List Occurrence) : InPlaceOrder os (inPlaceOrder os) := by
  rw [inPlaceOrder_eq]
  refine sortedStably_mergeSort notAfter_trans notAfter_total (fun a b => ?_) os
  rw [notAfter_iff, Prod.lex_def, Prod.mk.injEq]
  omega

theorem inPlaceOrder_eq_nil_iff : inPlaceOrder os = [] ↔ os = [] := by
  rw [inPlaceOrder_eq, ← List.length_eq_zero_iff, List.length_mergeSort, List.length_eq_zero_iff]

/-! ## Views -/

/-- The occurrences that a view may point at: the definitions or, if there is none, the usages. -/
def anchors (os : List Occurrence) : List Occurrence :=
  if os.any (·.isDefinition) then os.filter (·.isDefinition) else os.filter (!·.isDefinition)

/-- A view shows an entry with its occurrences in a file: up to a number of usages, the first ones,
and how many more there are, and the line of the first definition or, if there is none, usage. -/
structure View.Shows (n : Nat) (m : Entry × List Occurrence) (v : View) : Prop where
  label : v.label = m.1.name
  value : v.value = m.1.value
  usages : ∃ ordered, InPlaceOrder (m.2.filter (!·.isDefinition)) ordered ∧
    v.usages = ordered.take n
  hidden : v.usages.length + v.hidden = (m.2.filter (!·.isDefinition)).length
  line : ∃ ordered first, InPlaceOrder (anchors m.2) ordered ∧ ordered.head? = some first ∧
    v.line = first.range.line

theorem anchor_eq (os : List Occurrence) :
    ((inPlaceOrder os).find? (·.isDefinition)).or (inPlaceOrder os).head? =
      (inPlaceOrder (anchors os)).head? := by
  rw [← List.head?_filter, filter_inPlaceOrder, anchors]
  cases hany : os.any (·.isDefinition) with
  | true =>
      obtain ⟨o, ho, hdefinition⟩ := List.any_eq_true.mp hany
      have hne : inPlaceOrder (os.filter (·.isDefinition)) ≠ [] :=
        mt inPlaceOrder_eq_nil_iff.mp
          (List.ne_nil_of_mem (List.mem_filter.mpr ⟨ho, hdefinition⟩))
      obtain ⟨first, rest, hcons⟩ := List.exists_cons_of_ne_nil hne
      rw [if_pos rfl, hcons]
      rfl
  | false =>
      have hnone : os.filter (·.isDefinition) = [] :=
        List.filter_eq_nil_iff.mpr fun o ho => List.any_eq_false.mp hany o ho
      have hall : os.filter (!·.isDefinition) = os :=
        List.filter_eq_self.mpr fun o ho => by simpa using List.any_eq_false.mp hany o ho
      rw [if_neg Bool.false_ne_true, hnone, hall, inPlaceOrder_eq_nil_iff.mpr rfl, List.head?_nil,
        Option.none_or]

theorem anchors_ne_nil (h : os ≠ []) : anchors os ≠ [] := by
  rw [anchors]
  split
  · next hany =>
      obtain ⟨o, ho, hdefinition⟩ := List.any_eq_true.mp hany
      exact List.ne_nil_of_mem (List.mem_filter.mpr ⟨ho, hdefinition⟩)
  · next hany =>
      obtain ⟨o, ho⟩ := List.exists_mem_of_ne_nil _ h
      refine List.ne_nil_of_mem (List.mem_filter.mpr ⟨ho, ?_⟩)
      simpa using fun hdefinition => hany (List.any_eq_true.mpr ⟨o, ho, hdefinition⟩)

theorem View.shows_ofMember (n : Nat) (h : m.2 ≠ []) : View.Shows n m (View.ofMember n m) := by
  have husages := filter_inPlaceOrder (!·.isDefinition) m.2
  constructor
  case label => rfl
  case value => rfl
  case usages =>
    refine ⟨_, inPlaceOrder_ordered _, ?_⟩
    rw [← husages, View.ofMember, upTo_ofNat]
  case hidden =>
    have hlength : ((inPlaceOrder m.2).filter (!·.isDefinition)).length =
        (m.2.filter (!·.isDefinition)).length := by
      rw [husages, inPlaceOrder_eq, List.length_mergeSort]
    simp only [View.ofMember, upTo_ofNat, List.length_take, hlength]
    omega
  case line =>
    obtain ⟨first, rest, hcons⟩ :=
      List.exists_cons_of_ne_nil (mt inPlaceOrder_eq_nil_iff.mp (anchors_ne_nil h))
    refine ⟨_, first, inPlaceOrder_ordered _, congrArg List.head? hcons, ?_⟩
    simp only [View.ofMember, anchor_eq, hcons, List.head?_cons, Option.map_some, Option.getD_some]

/-! ## Chapters -/

/-- The chapters of a group that are shown. -/
def shownKinds (g : Group) : List Chapter.Kind :=
  [.dark, .light, .base, .literals].filter fun kind => !(Chapter.membersOf g kind).isEmpty

theorem mem_shownKinds {kind : Chapter.Kind} :
    kind ∈ shownKinds g ↔ ∃ m ∈ g.entries, Chapter.kindOf? m.1 = some kind := by
  have hlisted : kind ∈ [Chapter.Kind.dark, .light, .base, .literals] := by
    cases kind <;> decide
  rw [shownKinds, List.mem_filter, Bool.not_eq_true', List.isEmpty_eq_false_iff]
  simp only [hlisted, true_and, Chapter.membersOf, ne_eq, List.filter_eq_nil_iff,
    decide_eq_true_eq, not_forall, not_not, exists_prop]

theorem shownKinds_nodup (g : Group) : (shownKinds g).Nodup := List.Nodup.filter _ (by decide)

theorem chaptersOf_eq (maxUsages : Int) (g : Group) :
    chaptersOf maxUsages g = (shownKinds g).map fun kind =>
      ⟨Chapter.titleIn g kind, (Chapter.membersOf g kind).map (View.ofMember maxUsages)⟩ := by
  refine .trans ?_ (congrFun List.filterMap_eq_map' _)
  rw [chaptersOf, shownKinds, List.filterMap_filter]
  refine List.filterMap_congr fun kind _ => ?_
  cases Chapter.membersOf g kind with
  | nil => rfl
  | cons m ms => rfl

/-- The base chapter has the title of the light one only if that one is not shown. -/
theorem titleIn_inj {kind kind' : Chapter.Kind} (h : kind ∈ shownKinds g)
    (h' : kind' ∈ shownKinds g) (htitle : Chapter.titleIn g kind = Chapter.titleIn g kind') :
    kind = kind' := by
  have hlight : ∀ kind ∈ shownKinds g,
      (Chapter.membersOf g .light).isEmpty = true → kind ≠ .light := by
    rintro _ hkind hempty rfl
    have hshown := (List.mem_filter.mp hkind).2
    rw [hempty] at hshown
    cases hshown
  have hkind := hlight kind h
  have hkind' := hlight kind' h'
  unfold Chapter.titleIn at htitle
  generalize (Chapter.membersOf g .light).isEmpty = noLight at htitle hkind hkind'
  revert htitle hkind hkind'
  cases noLight <;> cases kind <;> cases kind' <;> decide

theorem kindOf?_eq_some {e : Entry} (h : Occurrence.Classified e.kind e.theme) :
    ∃ kind, Chapter.kindOf? e = some kind := by
  rw [Chapter.kindOf?]
  rcases h with hkind | ⟨-, htheme⟩
  · exact ⟨_, if_pos hkind⟩
  · split
    · exact ⟨_, rfl⟩
    · simp only [Theme.classes, List.map_cons, List.map_nil, List.mem_cons, List.not_mem_nil,
        or_false] at htheme
      rcases htheme with htheme | htheme | htheme
      · exact ⟨.dark, by rw [htheme]⟩
      · exact ⟨.light, by rw [htheme]⟩
      · exact ⟨.base, by rw [htheme]⟩

/-- Chapters account for a group: each entry is shown by exactly one view, the views of a chapter
stand in the order of the group, and no two chapters have one title. -/
structure Accounts (n : Nat) (g : Group) (chapters : List Chapter) : Prop where
  shown : ∃ parts, Parts g.entries parts ∧
    List.Forall₂ (fun part (c : Chapter) =>
      List.Forall₂ (fun a v => View.Shows n a.1 v) part c.views) parts chapters
  titles : (chapters.map (·.title)).Nodup
  sizes : (chapters.map (·.views.length)).sum = g.count

theorem chaptersOf_accounts (n : Nat)
    (hkinds : ∀ m ∈ g.entries, ∃ kind, Chapter.kindOf? m.1 = some kind)
    (hnonempty : ∀ m ∈ g.entries, m.2 ≠ []) : Accounts n g (chaptersOf n g) := by
  have hused : ∀ k, k ∈ (shownKinds g).map some ↔ ∃ m ∈ g.entries, Chapter.kindOf? m.1 = k := by
    intro k
    rw [List.mem_map]
    constructor
    · rintro ⟨kind, hkind, rfl⟩
      exact mem_shownKinds.mp hkind
    · rintro ⟨m, hm, rfl⟩
      obtain ⟨kind, hkind⟩ := hkinds m hm
      exact ⟨kind, mem_shownKinds.mpr ⟨m, hm, hkind⟩, hkind.symm⟩
  have hparts := parts_byLabel
    ((shownKinds_nodup g).map (Option.some_injective _)) hused
  have hshown : List.Forall₂ (fun part (c : Chapter) =>
      List.Forall₂ (fun a v => View.Shows n a.1 v) part c.views)
      (byLabel (fun m => Chapter.kindOf? m.1) ((shownKinds g).map some) g.entries)
      (chaptersOf n g) := by
    rw [chaptersOf_eq, byLabel, List.map_map, List.forall₂_map_left_iff,
      List.forall₂_map_right_iff, List.forall₂_same]
    intro kind _
    rw [Chapter.membersOf, ← map_fst_filter_zipIdx, List.map_map, List.forall₂_map_right_iff,
      Function.comp_apply, List.forall₂_same]
    intro a ha
    exact View.shows_ofMember n (hnonempty _ (mem_of_mem_zipIdx (List.mem_filter.mp ha).1))
  refine ⟨⟨_, hparts, hshown⟩, ?_, ?_⟩
  · rw [chaptersOf_eq, List.map_map]
    exact List.Nodup.map_on (fun _ h _ h' => titleIn_inj h h') (shownKinds_nodup g)
  · rw [Group.count, ← hparts.sum_length]
    refine congrArg List.sum ?_
    rw [← List.forall₂_eq_eq_eq, List.forall₂_map_left_iff, List.forall₂_map_right_iff]
    exact hshown.flip.imp fun _ _ h => h.length_eq.symm

end Report

namespace Census

variable {σ : Type} {host : Host (StateM σ)} {settings : Settings} {workspace root : Path}
  {cap : Option Int} {s : σ} {inventory : Inventory} {g : Group}

/-- In every pass, variables have a theme that a line can have. A group holds entries of the
inventory with their occurrences in its file, and its chapters account for it, however many usages
are to be shown. -/
theorem take_chapters (h : ((take host settings workspace root cap).run s).1.1 = .ok inventory)
    (hg : g ∈ inventory.groups) (n : Nat) :
    (∀ e ∈ inventory.entries, e.kind = .var → e.theme ∈ Theme.classes.map some) ∧
      (∀ m ∈ g.entries, m.1 ∈ inventory.entries ∧ m.2 = m.1.inFile g.file) ∧
      Report.Accounts n g (Report.chaptersOf n g) := by
  obtain ⟨scanned, hscanned, rfl⟩ := take_result_eq_ok h
  obtain ⟨precedence, -, -, rfl⟩ := (scannedOver_eq_some_iff graphFrom_agree).mp hscanned
  let files := (graphFrom host settings workspace root cap s).files
  let os := (reportsOf settings precedence files).flatMap (·.2)
  have hclassified : ∀ e ∈ Entry.ofOccurrences settings.aggregate.perFile os,
      Occurrence.Classified e.kind e.theme := by
    refine Entry.classified fun o ho => ?_
    obtain ⟨r, hr, ho⟩ := List.mem_flatMap.mp ho
    obtain ⟨f, -, rfl⟩ := mem_reportsOf.mp hr
    exact Occurrence.classified_of_mem_found ho
  have hcomplete : g.Complete os := Inventory.complete_of_mem_groupsOf hg
  have hmembers : ∀ m ∈ g.entries, m.1 ∈ Entry.ofOccurrences settings.aggregate.perFile os := by
    intro m hm
    rw [(Inventory.mem_groupsOf hg).2] at hm
    obtain ⟨e, he, rfl, -⟩ := Inventory.mem_membersOf.mp hm
    exact he
  refine ⟨fun e he hkind => ?_, fun m hm => ⟨hmembers m hm, hcomplete.restricted m hm⟩, ?_⟩
  · rcases hclassified e he with hliteral | ⟨-, htheme⟩
    · rw [hliteral] at hkind
      cases hkind
    · exact htheme
  · exact Report.chaptersOf_accounts n
      (fun m hm => Report.kindOf?_eq_some (hclassified _ (hmembers m hm))) hcomplete.nonempty

theorem reportsOfTwo_files :
    (reportsOfTwo.flatMap (·.2)).map (·.file) = ["a.css", "b.css"] := by
  decide +kernel

/-- The second of two sheets has a group, and one usage of each entry is to be shown. -/
theorem take_chapters_sheets :
    ∃ inventory, ((take sheets.steady {} folder firstSheet (some 2)).run ()).1.1 = .ok inventory ∧
      ∃ g ∈ inventory.groups, g.file = "b.css" ∧
        (∀ e ∈ inventory.entries, e.kind = .var → e.theme ∈ Theme.classes.map some) ∧
        (∀ m ∈ g.entries, m.1 ∈ inventory.entries ∧ m.2 = m.1.inFile g.file) ∧
        Report.Accounts 1 g (Report.chaptersOf (1 : Nat) g) := by
  obtain ⟨inventory, h⟩ := exists_take_sheets (some 2)
  have hsteady : ((take sheets.steady {} folder firstSheet (some 2)).run ()).1.1 =
      .ok inventory := take_steady.trans h
  obtain ⟨g, hg, hfile⟩ : ∃ g ∈ inventory.groups, g.file = "b.css" := by
    obtain ⟨-, scanned, hscanned, rfl⟩ := take_eq_ok_iff.mp h
    cases scannedIn_sheets_two.symm.trans hscanned
    refine List.mem_map.mp ((Inventory.groupsOf_filesArranged _ _ _).mem_iff _ |>.mpr ⟨?_, ?_⟩)
    · rw [graphIn_sheets_two]
      decide +kernel
    · refine List.mem_map.mp ?_
      rw [reportsOfTwo_files]
      decide
  exact ⟨inventory, hsteady, g, hg, hfile, take_chapters hsteady hg 1⟩

end Census

end ColorCensus
