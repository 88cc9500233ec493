import ColorCensus.Proofs.SourceOrder
import ColorCensus.Proofs.Ways
import Mathlib.Order.Bounds.Defs

/-!
# Import statements as patterns

The patterns of the forms of statements, and that the recognisers find what a
search for them finds. In all forms but one a run stands in front of something
that it cannot go on into. The clause of `import … from` is the exception, since
it may start with blanks of its own. There the shorter runs of blanks are tried
last, and all that they add is the clause that is empty (`finds_many_few`). A
rule may go on behind its specifier, over blanks and a parenthesis, and that is
no place where a rule could start (`prolongs_rule`).

So the recognisers find the tokens of the patterns (`map_tokens_pattern`), and
the files of a text can be told from the patterns alone (`edges_exact`).
-/

namespace ColorCensus.Import

open Text Text.Ways

/-! ## The forms of statements as patterns -/

/-- What a statement looks like: where it may start, and what stands in front of its quoted
specifier and behind it. -/
structure Pattern where
  starts : Option Char → Bool
  head : List Ways
  tail : List Ways

namespace Pattern

/-- The ways from the specifier on. -/
def waysFromQuote (p : Pattern) (cs : List Char) : List (List Char × List Char) :=
  (inQuotes cs).flatMap fun (specifier, behind) =>
    andThen p.tail (fun left => [(specifier, left)]) behind

/-- The specifiers that a statement could have here, each with what would be left, in the order of
a search. -/
def ways (p : Pattern) (before : Option Char) (cs : List Char) : List (List Char × List Char) :=
  if p.starts before then andThen p.head p.waysFromQuote cs else []

/-- A search ends with the first way. -/
def recognizer (p : Pattern) : Recognizer (List Char) := fun before cs => (p.ways before cs).head?

end Pattern

def Form.pattern : Form → Pattern
  | .clause =>
      { starts := startsImport
        head := [literal "import".toList, run isBlank, few (· != ';'), run isBlank,
          literal "from".toList, run isBlank]
        tail := [] }
  | .bare =>
      { starts := startsImport
        head := [literal "import".toList, run isBlank]
        tail := [] }
  | .call =>
      { starts := startsWord
        head := [literal "require(".toList, many isBlank]
        tail := [many isBlank, literal [')']] }
  | .rule =>
      { starts := fun _ => true
        head := [literal "@import".toList, run isBlank,
          optional [literal "url(".toList, many isBlank]]
        tail := [many isBlank, optional [literal [')']]] }

/-! ## What the searches come to -/

theorem takeQuoted?_blank (c : Char) (cs : List Char) (h : isBlank c = true) :
    takeQuoted? (c :: cs) = none := by
  rw [takeQuoted?, dropOne?, not_isQuote_of_isBlank h]
  rfl

theorem dropLiteral?_of_ne {l c : Char} (h : l ≠ c) (lit cs : List Char) :
    dropLiteral? (l :: lit) (c :: cs) = none := by
  rw [dropLiteral?, if_neg (by simpa using h)]

theorem dropLiteral?_blank {l : Char} (hl : isBlank l = false) (lit : List Char) (c : Char)
    (cs : List Char) (h : isBlank c = true) : dropLiteral? (l :: lit) (c :: cs) = none := by
  refine dropLiteral?_of_ne ?_ lit cs
  rintro rfl
  rw [hl] at h
  cases h

theorem finds_waysFromQuote (p : Pattern)
    {behind : List Char → List Char → Option (List Char × List Char)}
    (h : ∀ specifier, Finds (andThen p.tail fun left => [(specifier, left)]) (behind specifier)) :
    Finds (andThen [] p.waysFromQuote) fun cs =>
      (takeQuoted? cs).bind fun taken => behind taken.1 taken.2 :=
  Finds.inQuotes fun taken => h taken.1 taken.2

theorem finds_end (specifier : List Char) :
    Finds (andThen [] fun left => [(specifier, left)]) fun left => some (specifier, left) :=
  fun _ => rfl

theorem finds_of_tail_eq_nil {p : Pattern} (h : p.tail = []) :
    Finds (andThen [] p.waysFromQuote) takeQuoted? := by
  intro cs
  rw [finds_waysFromQuote p (h ▸ finds_end) cs]
  exact Option.bind_fun_some _

theorem recognizer_of_finds (form : Form) {before : Option Char} {cs : List Char}
    {first : List Char → Option (List Char × List Char)}
    (h : Finds (andThen form.pattern.head form.pattern.waysFromQuote) first) :
    form.pattern.recognizer before cs = if form.pattern.starts before then first cs else none := by
  rw [Pattern.recognizer, Pattern.ways]
  split
  · exact h cs
  · rfl

theorem recognizer_bare : Form.bare.pattern.recognizer = importBare := by
  funext before cs
  have hquote := finds_of_tail_eq_nil (p := Form.bare.pattern) rfl
  exact recognizer_of_finds .bare ((hquote.run takeQuoted?_blank).literal _)

theorem recognizer_call : Form.call.pattern.recognizer = requireCall := by
  funext before cs
  have hclose : ∀ specifier : List Char,
      Finds (andThen Form.call.pattern.tail fun left => [(specifier, left)]) fun behind =>
        (dropLiteral? [')'] (trimLeft behind)).bind fun left => some (specifier, left) := by
    intro specifier
    refine ((finds_end specifier).literal _).many fun c cs hc => ?_
    rw [dropLiteral?_blank (by decide) _ _ _ hc]
    rfl
  have hhead := (finds_waysFromQuote Form.call.pattern hclose).many fun c cs hc => by
    rw [takeQuoted?_blank c cs hc]
    rfl
  exact recognizer_of_finds .call (hhead.literal _)

/-! ### A clause -/

section

variable {c : Char}

theorem trimLeft_cons (h : isBlank c = true) (cs : List Char) : trimLeft (c :: cs) = trimLeft cs :=
  List.dropWhile_cons_of_pos h

theorem dropRun?_cons (h : isBlank c = true) (cs : List Char) :
    dropRun? isBlank (c :: cs) = some (trimLeft cs) := by
  rw [dropRun?, takeRun?, List.takeWhile_cons_of_pos h, List.dropWhile_cons_of_pos h]
  rfl

theorem takeClause?_cons (h : isBlank c = true) (cs : List Char) :
    takeClause? (c :: cs) = (takeFrom? (trimLeft cs)).or (takeClause? cs) := by
  have hsemicolon : ¬(c == ';') = true := by
    intro hc
    rw [beq_iff_eq.mp hc] at h
    exact absurd h (by decide)
  rw [takeClause?, dropRun?_cons h, if_neg hsemicolon]
  rfl

/-- A clause that starts with blanks comes to the one that is empty, or to one without them. -/
theorem takeClause?_blanks (h : isBlank c = true) (cs : List Char) :
    takeClause? (c :: cs) = (takeFrom? (trimLeft cs)).or (takeClause? (trimLeft cs)) := by
  induction cs generalizing c with
  | nil => exact takeClause?_cons h []
  | cons d cs ih =>
      rw [takeClause?_cons h]
      cases hd : isBlank d with
      | true => rw [ih hd, trimLeft_cons hd, ← Option.or_assoc, Option.or_self]
      | false => rw [trimLeft_eq_self (by simpa using hd)]

end

/-- A clause that grows is the first one that is followed by `from`. -/
theorem finds_few {ws : List Ways} {rest : List Char → List (List Char × List Char)}
    (h : Finds (andThen ws rest) fun cs => (dropRun? isBlank cs).bind takeFrom?) :
    Finds (andThen (few (· != ';') :: ws) rest) takeClause? := by
  intro cs
  induction cs with
  | nil =>
      rw [andThen, few, List.flatMap_singleton, h]
      rfl
  | cons c cs ih =>
      rw [andThen] at ih
      rw [andThen, few, List.flatMap_cons, List.head?_append, h, takeClause?, bne]
      cases c == ';' with
      | true => rfl
      | false => exact congrArg _ ih

/-- The blanks in front of a clause are tried out from all of them down to one, and the shorter runs
come to nothing new but to the clause that is empty. -/
theorem finds_many_few {ws : List Ways} {rest : List Char → List (List Char × List Char)}
    (h : Finds (andThen ws rest) takeClause?) :
    Finds (andThen (many isBlank :: ws) rest) fun cs => (takeClause? (trimLeft cs)).or
      (if cs.takeWhile isBlank ≠ [] then takeFrom? (trimLeft cs) else none) := by
  intro cs
  induction cs with
  | nil =>
      rw [andThen, many, List.flatMap_singleton, h]
      rfl
  | cons c cs ih =>
      rw [andThen] at ih ⊢
      rw [many]
      dsimp only at ih ⊢
      cases hc : isBlank c with
      | false =>
          rw [if_neg Bool.false_ne_true, List.flatMap_singleton, h,
            List.takeWhile_cons_of_neg (by simp [hc]), if_neg (not_not_intro rfl), Option.or_none,
            trimLeft_eq_self (by simpa using hc)]
      | true =>
          rw [if_pos rfl, List.flatMap_append, List.head?_append, ih, List.flatMap_singleton, h,
            takeClause?_blanks hc, trimLeft_cons hc, List.takeWhile_cons_of_pos hc,
            if_pos (List.cons_ne_nil _ _)]
          -- The run at hand and one blank less come to the same clause, unless it is empty.
          cases takeClause? (trimLeft cs) with
          | some taken => rfl
          | none =>
              rw [Option.none_or, Option.none_or, Option.or_none]
              split
              · exact Option.or_self
              · exact Option.none_or

theorem finds_lead {ws : List Ways} {rest : List Char → List (List Char × List Char)}
    (h : Finds (andThen (many isBlank :: ws) rest) fun cs => (takeClause? (trimLeft cs)).or
      (if cs.takeWhile isBlank ≠ [] then takeFrom? (trimLeft cs) else none)) :
    Finds (andThen (run isBlank :: ws) rest) fun cs =>
      (takeRun? isBlank cs).bind fun taken => (takeClause? taken.2).or
        (if taken.1.length ≥ 2 then takeFrom? taken.2 else none) := by
  intro cs
  cases cs with
  | nil => rfl
  | cons c cs =>
      dsimp only
      rw [andThen, takeRun?, List.takeWhile_cons, List.dropWhile_cons]
      cases hc : isBlank c with
      | false =>
          rw [run_of_neg hc]
          rfl
      | true =>
          have hlong : (c :: cs.takeWhile isBlank).length ≥ 2 ↔ cs.takeWhile isBlank ≠ [] := by
            rw [List.length_cons, ← List.length_pos_iff]
            omega
          rw [run_of_pos hc]
          refine (h cs).trans ?_
          simp only [if_true, Option.bind_some, hlong]
          rfl

theorem recognizer_clause : Form.clause.pattern.recognizer = importFrom := by
  funext before cs
  have hquote := finds_of_tail_eq_nil (p := Form.clause.pattern) rfl
  have hfrom : Finds
      (andThen [.literal "from".toList, .run isBlank] Form.clause.pattern.waysFromQuote)
      takeFrom? :=
    (hquote.run takeQuoted?_blank).literal _
  have hblank := hfrom.run fun c cs hc => by
    have hword : dropLiteral? "from".toList (c :: cs) = none :=
      dropLiteral?_blank (l := 'f') (by decide) _ c cs hc
    rw [takeFrom?, hword]
    rfl
  have hlead := finds_lead (finds_many_few (finds_few hblank))
  exact recognizer_of_finds .clause (hlead.literal _)

/-! ### A rule -/

/-- What is left behind the blanks and the parenthesis that may come after the specifier of a
rule. -/
def afterRule (cs : List Char) : List Char :=
  (dropLiteral? [')'] (trimLeft cs)).getD (trimLeft cs)

theorem finds_tail_rule (specifier : List Char) :
    Finds (andThen Form.rule.pattern.tail fun left => [(specifier, left)])
      fun behind => some (specifier, afterRule behind) := by
  have hclose : Finds (andThen [.optional [.literal [')']]] fun left => [(specifier, left)])
      fun cs => some (specifier, (dropLiteral? [')'] cs).getD cs) := by
    intro cs
    rw [(finds_end specifier).optional ((finds_end specifier).literal _)]
    dsimp only
    cases dropLiteral? [')'] cs with
    | none => rfl
    | some left => rfl
  exact hclose.many_some

theorem recognizer_rule (before : Option Char) (cs : List Char) :
    Form.rule.pattern.recognizer before cs =
      (importRule before cs).map fun taken => (taken.1, afterRule taken.2) := by
  have hquote := finds_waysFromQuote Form.rule.pattern finds_tail_rule
  have hurl : Finds
      (andThen [.optional [.literal "url(".toList, .many isBlank]] Form.rule.pattern.waysFromQuote)
      fun cs => (takeQuoted? (((dropLiteral? "url(".toList cs).map trimLeft).getD cs)).bind
        fun taken => some (taken.1, afterRule taken.2) := by
    intro cs
    have hinner := hquote.many fun c cs (hc : isBlank c = true) => by
      rw [takeQuoted?_blank c cs hc]
      rfl
    rw [hquote.optional (hinner.literal _)]
    dsimp only
    cases hword : dropLiteral? "url(".toList cs with
    | none => rfl
    | some left =>
        rw [dropLiteral?_eq_some_iff.mp hword]
        exact Option.or_none
  have hrun := hurl.run (p := isBlank) fun c cs hc => by
    have hword : dropLiteral? "url(".toList (c :: cs) = none :=
      dropLiteral?_blank (l := 'u') (by decide) _ c cs hc
    rw [hword, Option.map_none, Option.getD_none, takeQuoted?_blank c cs hc]
    rfl
  refine (recognizer_of_finds .rule (hrun.literal _)).trans ?_
  simp only [importRule, Option.map_eq_bind, Option.bind_eq_bind, Option.bind_assoc]
  rfl

theorem importRule_none {c : Char} (h : '@' ≠ c) (before : Option Char) (cs : List Char) :
    importRule before (c :: cs) = none := by
  have hword : dropLiteral? "@import".toList (c :: cs) = none := dropLiteral?_of_ne h _ cs
  rw [importRule, hword]
  rfl

theorem takesPiece_importRule : TakesPiece importRule := by
  intro before cs value left h
  have hrule : Form.rule.recognizer before cs = some (value, left) := h
  obtain ⟨head, rest, tail, rfl, -, hquoted, -⟩ := recognizer_shape hrule
  obtain ⟨opening, closing, rfl, -⟩ := takeQuoted?_shape hquoted
  refine ⟨head ++ opening :: (value ++ closing :: tail), ?_, ?_⟩
  · simp only [List.append_assoc, List.cons_append]
  · exact List.append_ne_nil_of_right_ne_nil _ (List.cons_ne_nil _ _)

theorem afterRule_takes (cs : List Char) :
    Takes (fun c => isBlank c || c == ')') cs (afterRule cs) := by
  have hblanks : Takes (fun c => isBlank c || c == ')') cs (trimLeft cs) :=
    (trimLeft_takes cs).mono fun c hc => by rw [hc]; rfl
  refine hblanks.trans ?_
  rw [afterRule]
  cases hclose : dropLiteral? [')'] (trimLeft cs) with
  | none => exact .refl _
  | some left => exact dropLiteral?_takes hclose (by decide)

theorem prolongs_rule : Prolongs Form.rule.pattern.recognizer importRule where
  refuses before cs h := by
    rw [recognizer_rule, h]
    rfl
  takes before cs value left h := by
    obtain ⟨skipped, hleft, hskipped⟩ := afterRule_takes left
    refine ⟨skipped, afterRule left, hleft, by rw [recognizer_rule, h]; rfl, ?_⟩
    intro c hc before cs
    refine importRule_none ?_ before cs
    rintro rfl
    exact absurd (hskipped _ hc) (by decide)

/-! ## The files of a text -/

/-- The tokens of a pattern are those of its recogniser, but for what is taken behind a
specifier. -/
theorem map_tokens_pattern (form : Form) (text : List Char) :
    (tokens form.pattern.recognizer text).map (fun t => (t.start, t.value)) =
      (tokens form.recognizer text).map fun t => (t.start, t.value) := by
  cases form with
  | clause => rw [recognizer_clause]; rfl
  | bare => rw [recognizer_bare]; rfl
  | call => rw [recognizer_call]; rfl
  | rule => exact prolongs_rule.map_tokens takesPiece_importRule text

/-- A search for one of the patterns of a kind, which goes on behind each statement that it found,
comes on a statement with this specifier. -/
def Captures (text : List Char) (kind : Kind) (specifier : List Char) (start : Nat) : Prop :=
  ∃ form : Form, form.kind = kind ∧ ∃ t ∈ tokens form.pattern.recognizer text,
    t.start = start ∧ trim t.value = specifier

theorem captures_iff {text : List Char} {kind : Kind} {specifier : List Char} {start : Nat} :
    Captures text kind specifier start ↔ ∃ form : Form, form.kind = kind ∧
      ∃ t ∈ tokens form.recognizer text, t.start = start ∧ trim t.value = specifier := by
  have hread : ∀ r : Recognizer (List Char),
      (∃ t ∈ tokens r text, t.start = start ∧ trim t.value = specifier) ↔
        ∃ read ∈ (tokens r text).map fun t => (t.start, t.value),
          read.1 = start ∧ trim read.2 = specifier := by
    intro r
    simp only [List.mem_map, exists_exists_and_eq_and]
  rw [Captures]
  refine exists_congr fun form => and_congr_right fun _ => ?_
  rw [hread, map_tokens_pattern, ← hread]

theorem mem_statements_iff {text : List Char} {e : Edge} :
    e ∈ statements text ↔ Captures text e.kind e.specifier e.offset := by
  rw [← map_edge_mentions, List.mem_map, captures_iff]
  constructor
  · rintro ⟨m, hm, rfl⟩
    obtain ⟨form, h⟩ := mem_mentions.mp hm
    obtain ⟨t, ht, rfl⟩ := List.mem_map.mp h
    exact ⟨form, rfl, t, ht, rfl, rfl⟩
  · rintro ⟨form, hkind, t, ht, hstart, htrim⟩
    refine ⟨_, mem_mentions.mpr ⟨form, List.mem_map_of_mem ht⟩, ?_⟩
    rw [hkind, hstart, htrim]

theorem trim_ends (cs : List Char) :
    (∀ c ∈ (trim cs).head?, isBlank c = false) ∧ ∀ c ∈ (trim cs).getLast?, isBlank c = false := by
  constructor
  · intro c hc
    obtain ⟨rest, hrest⟩ := prefix_dropEndWhile isBlank (trimLeft cs)
    refine isBlank_head_trimLeft cs c ?_
    rw [← hrest, List.head?_append, ← trim, Option.mem_def.mp hc]
    rfl
  · intro c hc
    rw [trim, dropEndWhile, List.getLast?_reverse] at hc
    have h := List.head?_dropWhile_not isBlank (trimLeft cs).reverse
    rw [hc] at h
    exact h

theorem mem_orderedStatements {text : List Char} {e : Edge} (hne : e.specifier ≠ []) :
    e ∈ ((statements text).mergeSort fun e f => decide (e.offset ≤ f.offset)).filter
      (fun e => e.specifier ≠ []) ↔ e ∈ statements text := by
  rw [List.mem_filter, List.mem_mergeSort]
  exact and_iff_left (decide_eq_true hne)

theorem specifier_ne_nil_of_mem_edges {text : List Char} {e : Edge} (h : e ∈ edges text) :
    e.specifier ≠ [] :=
  of_decide_eq_true (List.mem_filter.mp ((distinctBy_sublist _ _).mem h)).2

theorem mem_statements_of_mem_edges {text : List Char} {e : Edge} (h : e ∈ edges text) :
    e ∈ statements text :=
  (mem_orderedStatements (specifier_ne_nil_of_mem_edges h)).mp ((distinctBy_sublist _ _).mem h)

theorem offset_le_of_mem_edges {text : List Char} {e f : Edge} (he : e ∈ edges text)
    (hf : f ∈ statements text) (hkey : f.key = e.key) : e.offset ≤ f.offset := by
  have hspecifier : f.specifier ≠ [] := by
    rw [(Prod.mk.inj hkey).2]
    exact specifier_ne_nil_of_mem_edges he
  obtain ⟨-, done, rest, hsplit, hdone⟩ :=
    List.find?_eq_some_iff_append.mp (find?_of_mem_distinctBy he)
  have hsorted := (mergeSort_key_sorted Edge.offset (statements text)).filter
    fun e => e.specifier ≠ []
  have hmem := (mem_orderedStatements hspecifier).mpr hf
  rw [hsplit] at hsorted hmem
  rcases List.mem_append.mp hmem with h | h
  · have hother := hdone f h
    simp only [Edge.key] at hkey
    simp [hkey] at hother
  · rcases List.mem_cons.mp h with rfl | h
    · exact Nat.le_refl _
    · exact List.rel_of_pairwise_cons (List.pairwise_append.mp hsorted).2.1 h

/-- The files of a text are those that its statements name, each once, in the order of their first
statements. -/
theorem edges_exact (text : List Char) :
    ((edges text).Pairwise fun e f => e.offset ≤ f.offset ∧ e.key ≠ f.key) ∧
      (∀ e ∈ edges text, e.specifier ≠ [] ∧ (∀ c ∈ e.specifier.head?, isBlank c = false) ∧
        (∀ c ∈ e.specifier.getLast?, isBlank c = false) ∧
        IsLeast {start | Captures text e.kind e.specifier start} e.offset) ∧
      ∀ kind specifier, (∃ e ∈ edges text, e.key = (kind, specifier)) ↔
        specifier ≠ [] ∧ ∃ start, Captures text kind specifier start := by
  refine ⟨?_, ?_, ?_⟩
  · rw [← map_edge_firstMentions, List.pairwise_map]
    exact firstMentions_pairwise text
  · intro e he
    obtain ⟨form, -, t, -, -, htrim⟩ := mem_statements_iff.mp (mem_statements_of_mem_edges he)
    obtain ⟨hhead, hlast⟩ := trim_ends t.value
    rw [htrim] at hhead hlast
    refine ⟨specifier_ne_nil_of_mem_edges he, hhead, hlast,
      mem_statements_iff.mp (mem_statements_of_mem_edges he), fun start hstart => ?_⟩
    exact offset_le_of_mem_edges (f := ⟨e.specifier, e.kind, start⟩) he
      (mem_statements_iff.mpr hstart) rfl
  · intro kind specifier
    constructor
    · rintro ⟨e, he, hkey⟩
      obtain ⟨rfl, rfl⟩ := Prod.mk.inj hkey
      exact ⟨specifier_ne_nil_of_mem_edges he, _,
        mem_statements_iff.mp (mem_statements_of_mem_edges he)⟩
    · rintro ⟨hne, start, hstart⟩
      have hmem : (⟨specifier, kind, start⟩ : Edge) ∈ statements text :=
        mem_statements_iff.mpr hstart
      exact exists_mem_distinctBy ((mem_orderedStatements hne).mpr hmem)

end ColorCensus.Import
