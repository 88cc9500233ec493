import ColorCensus.Import.Statement
import ColorCensus.Proofs.Groups
import ColorCensus.Proofs.Pieces
import ColorCensus.Proofs.StableSort

/-!
# The files of a text in the order in which they are written

The statements of a text are put in order of their starts, and a file stands for
its first one. What a reader sees in order are the specifiers, though, and a
statement starts in front of its specifier by whatever stands between. In all
forms but one that is a few words without a quote, so no other specifier fits
in, and the starts are in order only if the specifiers are.

The clause of `import … from` has room for all but a semicolon. If statements
end without one, the clause of an earlier statement, which names its file
without `from`, is ended by the `from` of a later one. This is the only way out
of order (`edges_pairwise_place`), and it is taken (`edges_out_of_order`).

Two statements of different forms may share a specifier. Of one kind they name
one file then, and a statement in code and a rule of a style sheet never share
one, as can be told from the words in front of the quote (`endsInRule`).
-/

namespace ColorCensus.Import

open Text

/-! ## Forms and places -/

/-- The forms of statements, in the order in which they are looked for. -/
inductive Form where
  | clause
  | bare
  | call
  | rule
deriving DecidableEq, Repr

def Form.kind : Form → Kind
  | .rule => .stylesheet
  | _ => .code

def Form.recognizer : Form → Recognizer (List Char)
  | .clause => importFrom
  | .bare => importBare
  | .call => requireCall
  | .rule => importRule

/-- A statement with the place where its specifier starts. -/
structure Mention where
  form : Form
  edge : Edge
  place : Nat
deriving DecidableEq, Repr

/-- Where a specifier starts: it ends at the last quote of its statement (`exists_written`). -/
def specifierStart (t : Token (List Char)) : Nat :=
  t.stop - (t.text.reverse.takeWhile (!isQuote ·)).length - 1 - t.value.length

def Form.mentions (form : Form) (text : List Char) : List Mention :=
  (tokens form.recognizer text).map fun t =>
    ⟨form, ⟨trim t.value, form.kind, t.start⟩, specifierStart t⟩

/-- Every statement of every form, form by form. -/
def mentions (text : List Char) : List Mention :=
  Form.clause.mentions text ++ Form.bare.mentions text ++ Form.call.mentions text ++
    Form.rule.mentions text

/-- The statements in order of their starts. -/
def orderedMentions (text : List Char) : List Mention :=
  (mentions text).mergeSort fun m n => decide (m.edge.offset ≤ n.edge.offset)

/-- What tells two files apart. -/
def Edge.key (e : Edge) : Kind × List Char := (e.kind, e.specifier)

/-- The first statement for the file of an edge. -/
def firstMention? (text : List Char) (e : Edge) : Option Mention :=
  (orderedMentions text).find? fun m => m.edge.key = e.key

/-- The clause of one statement runs over the specifier of another one, with no semicolon on its
way. -/
structure Mention.RunsOver (text : List Char) (m n : Mention) : Prop where
  form : m.form = .clause
  starts : m.edge.offset ≤ n.edge.offset
  passes : n.place < m.place
  unbroken : ';' ∉ slice text (m.edge.offset, m.place)

theorem map_edge_mentions (text : List Char) :
    (mentions text).map (·.edge) = statements text := by
  simp only [mentions, Form.mentions, List.map_append, List.map_map]
  rfl

theorem map_edge_orderedMentions (text : List Char) :
    (orderedMentions text).map (·.edge) =
      (statements text).mergeSort fun e f => decide (e.offset ≤ f.offset) := by
  rw [← map_edge_mentions, orderedMentions]
  exact List.map_mergeSort fun _ _ _ _ => rfl

/-! ## What stands in front of a quote -/

def Blanks (gap : List Char) : Prop := ∀ c ∈ gap, isBlank c = true

/-- What stands in front of the opening quote of a statement, told the character in front of the
statement. -/
inductive Form.Head (before : Option Char) : Form → List Char → Prop
  | clause {inner gap : List Char} (hinner : ';' ∉ inner) (hgap : Blanks gap) :
      Head before .clause ("import".toList ++ (inner ++ ("from".toList ++ gap)))
  | bare {gap : List Char} (hbefore : before ≠ some '@') (hgap : Blanks gap) :
      Head before .bare ("import".toList ++ gap)
  | call {gap : List Char} (hgap : Blanks gap) : Head before .call ("require(".toList ++ gap)
  | rule {gap : List Char} (hgap : Blanks gap) : Head before .rule ("@import".toList ++ gap)
  | ruleUrl {gap inner : List Char} (hgap : Blanks gap) (hinner : Blanks inner) :
      Head before .rule ("@import".toList ++ (gap ++ ("url(".toList ++ inner)))

theorem not_isQuote_of_isBlank {c : Char} (h : isBlank c = true) : isQuote c = false := by
  cases hquote : isQuote c with
  | false => rfl
  | true =>
      rw [isQuote, Bool.or_eq_true, beq_iff_eq, beq_iff_eq] at hquote
      rcases hquote with rfl | rfl
      · exact absurd h (by decide)
      · exact absurd h (by decide)

theorem Blanks.not_isQuote {gap : List Char} (h : Blanks gap) : ∀ c ∈ gap, isQuote c = false :=
  fun c hc => not_isQuote_of_isBlank (h c hc)

theorem Blanks.semicolon_not_mem {gap : List Char} (h : Blanks gap) : ';' ∉ gap :=
  fun hc => absurd (h _ hc) (by decide)

namespace Form.Head

variable {before : Option Char} {form : Form} {head : List Char}

theorem not_isQuote (h : form.Head before head) (hform : form ≠ .clause) :
    ∀ c ∈ head, isQuote c = false := by
  have hword (word : String) (h : word.toList.any isQuote = false) :
      ∀ c ∈ word.toList, isQuote c = false :=
    fun c hc => Bool.eq_false_iff.mpr (List.any_eq_false.mp h c hc)
  cases h with
  | clause => exact absurd rfl hform
  | bare _ hgap => exact List.forall_mem_append.mpr ⟨hword "import" (by decide), hgap.not_isQuote⟩
  | call hgap => exact List.forall_mem_append.mpr ⟨hword "require(" (by decide), hgap.not_isQuote⟩
  | rule hgap => exact List.forall_mem_append.mpr ⟨hword "@import" (by decide), hgap.not_isQuote⟩
  | ruleUrl hgap hinner =>
      have hurl := List.forall_mem_append.mpr ⟨hword "url(" (by decide), hinner.not_isQuote⟩
      exact List.forall_mem_append.mpr
        ⟨hword "@import" (by decide), List.forall_mem_append.mpr ⟨hgap.not_isQuote, hurl⟩⟩

theorem semicolon_not_mem (h : Form.clause.Head before head) : ';' ∉ head := by
  cases h with
  | clause hinner hgap =>
      simp only [List.mem_append, not_or]
      exact ⟨by decide, hinner, by decide, hgap.semicolon_not_mem⟩

end Form.Head

/-- Whether a text ends with the words of a rule in front of its quote. -/
def endsInRule (cs : List Char) : Bool :=
  let words := cs.reverse.dropWhile isBlank
  "@import".toList.reverse.isPrefixOf words || "url(".toList.reverse.isPrefixOf words

theorem endsInRule_append_blanks {gap : List Char} (hgap : Blanks gap) (cs : List Char) :
    endsInRule (cs ++ gap) = endsInRule cs := by
  have hreverse : ∀ c ∈ gap.reverse, isBlank c = true := fun c hc => hgap c (List.mem_reverse.mp hc)
  rw [endsInRule, endsInRule, List.reverse_append, List.dropWhile_append_of_pos hreverse]

theorem Form.Head.endsInRule {done head : List Char} {form : Form}
    (h : form.Head done.getLast? head) :
    endsInRule (done ++ head) = decide (form.kind = .stylesheet) := by
  have hm : isBlank 'm' = false := by decide
  have ht : isBlank 't' = false := by decide
  have hparen : isBlank '(' = false := by decide
  cases h with
  | @clause inner gap _ hgap =>
      rw [← List.append_assoc, ← List.append_assoc, ← List.append_assoc,
        endsInRule_append_blanks hgap]
      simp [Import.endsInRule, Form.kind, List.isPrefixOf, hm]
  | bare hbefore hgap =>
      rw [← List.append_assoc, endsInRule_append_blanks hgap]
      rw [List.getLast?_eq_head?_reverse] at hbefore
      cases hdone : done.reverse with
      | nil => simp [Import.endsInRule, Form.kind, List.isPrefixOf, ht, hdone]
      | cons c _ =>
          have hc : c ≠ '@' := fun hc => hbefore (by rw [hdone, hc]; rfl)
          simp [Import.endsInRule, Form.kind, List.isPrefixOf, ht, hdone, Ne.symm hc]
  | call hgap =>
      rw [← List.append_assoc, endsInRule_append_blanks hgap]
      simp [Import.endsInRule, Form.kind, List.isPrefixOf, hparen]
  | rule hgap =>
      rw [← List.append_assoc, endsInRule_append_blanks hgap]
      simp [Import.endsInRule, Form.kind, List.isPrefixOf, ht]
  | ruleUrl _ hinner =>
      rw [← List.append_assoc, ← List.append_assoc, ← List.append_assoc,
        endsInRule_append_blanks hinner]
      simp [Import.endsInRule, Form.kind, List.isPrefixOf, hparen]

/-! ## Statements cut at their quotes -/

section

variable {before : Option Char} {cs rest left value : List Char}

theorem takeQuoted?_shape (h : takeQuoted? cs = some (value, rest)) :
    ∃ opening closing, cs = opening :: (value ++ closing :: rest) ∧ isQuote opening = true ∧
      isQuote closing = true ∧ ∀ c ∈ value, isQuote c = false := by
  obtain ⟨inside, hopening, h⟩ := Option.bind_eq_some_iff.mp h
  obtain ⟨⟨value', behind⟩, hrun, h⟩ := Option.bind_eq_some_iff.mp h
  obtain ⟨rest', hclosing, h⟩ := Option.bind_eq_some_iff.mp h
  obtain ⟨rfl, rfl⟩ := Prod.mk.inj (Option.some.inj h)
  obtain ⟨opening, rfl, hopens⟩ := dropOne?_eq_some_iff.mp hopening
  obtain ⟨closing, rfl, hcloses⟩ := dropOne?_eq_some_iff.mp hclosing
  obtain ⟨-, hvalue, -⟩ := takeRun?_eq_some_iff.mp hrun
  refine ⟨opening, closing, by rw [takeRun?_append hrun], hopens, hcloses, fun c hc => ?_⟩
  rw [hvalue] at hc
  simpa using List.all_eq_true.mp List.all_takeWhile c hc

theorem takeFrom?_shape (h : takeFrom? cs = some (value, left)) :
    ∃ gap rest, cs = "from".toList ++ (gap ++ rest) ∧ Blanks gap ∧
      takeQuoted? rest = some (value, left) := by
  obtain ⟨afterWord, hword, h⟩ := Option.bind_eq_some_iff.mp h
  obtain ⟨rest, hrun, hquoted⟩ := Option.bind_eq_some_iff.mp h
  obtain ⟨gap, hafter, hgap⟩ := dropRun?_takes hrun
  rw [dropLiteral?_eq_some_iff.mp hword, hafter]
  exact ⟨gap, rest, rfl, hgap, hquoted⟩

theorem takeClause?_shape (h : takeClause? cs = some (value, left)) :
    ∃ inner gap rest, cs = inner ++ ("from".toList ++ (gap ++ rest)) ∧ ';' ∉ inner ∧
      Blanks gap ∧ takeQuoted? rest = some (value, left) := by
  induction cs with
  | nil => cases h
  | cons c cs ih =>
      obtain h | ⟨-, h⟩ := Option.or_eq_some_iff.mp h
      · obtain ⟨behind, hrun, h⟩ := Option.bind_eq_some_iff.mp h
        obtain ⟨inner, hinner, hblanks⟩ := dropRun?_takes hrun
        obtain ⟨gap, rest, rfl, hgap, hquoted⟩ := takeFrom?_shape h
        exact ⟨inner, gap, rest, hinner, Blanks.semicolon_not_mem hblanks, hgap, hquoted⟩
      · obtain ⟨hc, h⟩ := Option.ite_none_left_eq_some.mp h
        obtain ⟨inner, gap, rest, rfl, hinner, hgap, hquoted⟩ := ih h
        refine ⟨c :: inner, gap, rest, rfl, ?_, hgap, hquoted⟩
        rw [List.mem_cons, not_or]
        exact ⟨fun h => hc (beq_iff_eq.mpr h.symm), hinner⟩

theorem clause_shape {lead : List Char} {wide : Prop} [Decidable wide] (hlead : ';' ∉ lead)
    (h : (takeClause? cs).or (if wide then takeFrom? cs else none) = some (value, left)) :
    ∃ inner gap rest, lead ++ cs = inner ++ ("from".toList ++ (gap ++ rest)) ∧ ';' ∉ inner ∧
      Blanks gap ∧ takeQuoted? rest = some (value, left) := by
  obtain h | ⟨-, h⟩ := Option.or_eq_some_iff.mp h
  · obtain ⟨inner, gap, rest, rfl, hinner, hgap, hquoted⟩ := takeClause?_shape h
    refine ⟨lead ++ inner, gap, rest, (List.append_assoc _ _ _).symm, ?_, hgap, hquoted⟩
    rw [List.mem_append, not_or]
    exact ⟨hlead, hinner⟩
  · obtain ⟨-, h⟩ := Option.ite_none_right_eq_some.mp h
    obtain ⟨gap, rest, rfl, hgap, hquoted⟩ := takeFrom?_shape h
    exact ⟨lead, gap, rest, rfl, hlead, hgap, hquoted⟩

/-- Every statement is a head, a quoted specifier and something without a quote. -/
theorem recognizer_shape {form : Form} (h : form.recognizer before cs = some (value, left)) :
    ∃ head rest tail, cs = head ++ rest ∧ form.Head before head ∧
      takeQuoted? rest = some (value, tail ++ left) ∧ ∀ c ∈ tail, isQuote c = false := by
  cases form with
  | clause =>
      obtain ⟨-, h⟩ := Option.ite_none_right_eq_some.mp h
      obtain ⟨afterWord, hword, h⟩ := Option.bind_eq_some_iff.mp h
      obtain ⟨⟨lead, afterLead⟩, hrun, hclause⟩ := Option.bind_eq_some_iff.mp h
      obtain ⟨lead', hlead, hblanks⟩ : Takes isBlank afterWord afterLead := takeRun?_takes hrun
      have hlead' : ';' ∉ lead' := Blanks.semicolon_not_mem hblanks
      obtain ⟨inner, gap, rest, hinner, hsemicolon, hgap, hquoted⟩ := clause_shape hlead' hclause
      refine ⟨_, rest, [], ?_, .clause hsemicolon hgap, hquoted, nofun⟩
      rw [dropLiteral?_eq_some_iff.mp hword, hlead, hinner]
      simp only [List.append_assoc]
  | bare =>
      obtain ⟨hstarts, h⟩ := Option.ite_none_right_eq_some.mp h
      obtain ⟨afterWord, hword, h⟩ := Option.bind_eq_some_iff.mp h
      obtain ⟨rest, hrun, hquoted⟩ := Option.bind_eq_some_iff.mp h
      obtain ⟨gap, hafter, hgap⟩ := dropRun?_takes hrun
      have hbefore : before ≠ some '@' := by
        rintro rfl
        exact absurd hstarts (by decide)
      refine ⟨_, rest, [], ?_, .bare hbefore hgap, hquoted, nofun⟩
      rw [dropLiteral?_eq_some_iff.mp hword, hafter, List.append_assoc]
  | call =>
      obtain ⟨-, h⟩ := Option.ite_none_right_eq_some.mp h
      obtain ⟨afterWord, hword, h⟩ := Option.bind_eq_some_iff.mp h
      obtain ⟨⟨value', behind⟩, hquoted, h⟩ := Option.bind_eq_some_iff.mp h
      obtain ⟨left', hclose, h⟩ := Option.bind_eq_some_iff.mp h
      obtain ⟨rfl, rfl⟩ := Prod.mk.inj (Option.some.inj h)
      obtain ⟨gap, hgap, hblanks⟩ := trimLeft_takes afterWord
      obtain ⟨inner, hinner, hinnerBlanks⟩ := trimLeft_takes behind
      rw [dropLiteral?_eq_some_iff.mp hclose] at hinner
      refine ⟨_, trimLeft afterWord, inner ++ [')'], ?_, .call hblanks, ?_, ?_⟩
      · rw [dropLiteral?_eq_some_iff.mp hword, List.append_assoc, ← hgap]
      · rw [hquoted, hinner, List.append_assoc]
      · exact List.forall_mem_append.mpr
          ⟨Blanks.not_isQuote hinnerBlanks, List.forall_mem_singleton.mpr (by decide)⟩
  | rule =>
      obtain ⟨afterWord, hword, h⟩ := Option.bind_eq_some_iff.mp h
      obtain ⟨afterGap, hrun, hquoted⟩ := Option.bind_eq_some_iff.mp h
      obtain ⟨gap, hafter, hgap⟩ := dropRun?_takes hrun
      rw [dropLiteral?_eq_some_iff.mp hword, hafter]
      cases hurl : dropLiteral? "url(".toList afterGap with
      | none =>
          rw [hurl] at hquoted
          exact ⟨_, afterGap, [], (List.append_assoc _ _ _).symm, .rule hgap, hquoted, nofun⟩
      | some afterUrl =>
          obtain ⟨inner, hinner, hblanks⟩ := trimLeft_takes afterUrl
          rw [hurl] at hquoted
          refine ⟨_, trimLeft afterUrl, [], ?_, .ruleUrl hgap hblanks, hquoted, nofun⟩
          rw [dropLiteral?_eq_some_iff.mp hurl, List.append_assoc, List.append_assoc,
            List.append_assoc, ← hinner]

end

/-- A statement of a text, with the text cut where it starts and at the quotes of its specifier. -/
structure Written (text : List Char) where
  form : Form
  before : List Char
  head : List Char
  opening : Char
  specifier : List Char
  closing : Char
  rest : List Char
  text_eq : text = before ++ (head ++ opening :: (specifier ++ closing :: rest))
  opens : isQuote opening = true
  closes : isQuote closing = true
  plain : ∀ c ∈ specifier, isQuote c = false
  headed : form.Head before.getLast? head

namespace Written

variable {text : List Char}

/-- The place of the opening quote. -/
def quoteAt (s : Written text) : Nat := s.before.length + s.head.length

def edge (s : Written text) : Edge := ⟨trim s.specifier, s.form.kind, s.before.length⟩

def mention (s : Written text) : Mention := ⟨s.form, s.edge, s.quoteAt + 1⟩

theorem text_eq_append (s : Written text) :
    text = (s.before ++ s.head) ++ s.opening :: (s.specifier ++ s.closing :: s.rest) :=
  s.text_eq.trans (List.append_assoc _ _ _).symm

theorem length_quoteAt (s : Written text) : (s.before ++ s.head).length = s.quoteAt :=
  List.length_append

theorem take_quoteAt (s : Written text) : text.take s.quoteAt = s.before ++ s.head :=
  (congrArg (List.take s.quoteAt) s.text_eq_append).trans (List.take_left' s.length_quoteAt)

theorem drop_quoteAt (s : Written text) :
    text.drop s.quoteAt = s.opening :: (s.specifier ++ s.closing :: s.rest) :=
  (congrArg (List.drop s.quoteAt) s.text_eq_append).trans (List.drop_left' s.length_quoteAt)

theorem getElem?_quoteAt (s : Written text) : text[s.quoteAt]? = some s.opening := by
  rw [← Nat.add_zero s.quoteAt, ← List.getElem?_drop, s.drop_quoteAt]
  rfl

theorem drop_place (s : Written text) :
    text.drop s.mention.place = s.specifier ++ s.closing :: s.rest := by
  rw [mention, ← List.drop_drop, s.drop_quoteAt, List.drop_one, List.tail_cons]

theorem specifier_eq (s : Written text) :
    s.specifier = (text.drop s.mention.place).takeWhile (!isQuote ·) := by
  have hplain : ∀ c ∈ s.specifier, (!isQuote c) = true := fun c hc => by rw [s.plain c hc]; rfl
  rw [s.drop_place, List.takeWhile_append_of_pos hplain,
    List.takeWhile_cons_of_neg (by rw [s.closes]; decide), List.append_nil]

theorem key_eq_of_quoteAt_eq {s u : Written text} (h : s.quoteAt = u.quoteAt) :
    s.edge.key = u.edge.key := by
  have hspecifier : s.specifier = u.specifier := by
    rw [s.specifier_eq, mention, h, u.specifier_eq, mention]
  have hkind : s.form.kind = u.form.kind := by
    have hrule : decide (s.form.kind = .stylesheet) = decide (u.form.kind = .stylesheet) := by
      rw [← s.headed.endsInRule, ← s.take_quoteAt, h, u.take_quoteAt, u.headed.endsInRule]
    rw [decide_eq_decide] at hrule
    cases hs : s.form.kind with
    | code =>
        cases hu : u.form.kind with
        | code => rfl
        | stylesheet => exact hs.symm.trans (hrule.mpr hu)
    | stylesheet => exact (hrule.mp hs).symm
  rw [Edge.key, Edge.key, edge, edge, hspecifier, hkind]

theorem standsAt_head (s : Written text) :
    StandsAt (s.head ++ [s.opening]) text s.before.length := by
  have h := standsAt_append s.before (s.head ++ [s.opening]) (s.specifier ++ s.closing :: s.rest)
  rwa [List.append_assoc, List.singleton_append, ← s.text_eq] at h

theorem semicolon_not_mem (s : Written text) (hs : s.form = .clause) :
    ';' ∉ slice text (s.mention.edge.offset, s.mention.place) := by
  have hhead : ';' ∉ s.head := Form.Head.semicolon_not_mem (hs ▸ s.headed)
  have hopening : ';' ≠ s.opening := by
    intro h
    exact absurd s.opens (h ▸ by decide)
  have hslice := s.standsAt_head.slice_eq
  rw [List.length_append, List.length_singleton, ← Nat.add_assoc] at hslice
  rw [mention, edge, quoteAt, hslice, List.mem_append, List.mem_singleton, not_or]
  exact ⟨hhead, hopening⟩

theorem quoteAt_le {s u : Written text} (hs : s.form ≠ .clause)
    (hle : s.before.length ≤ u.before.length) : s.quoteAt ≤ u.quoteAt := by
  have hopening : u.opening ∉ s.head := by
    intro h
    have hplain := s.headed.not_isQuote hs _ h
    rw [u.opens] at hplain
    cases hplain
  have hu : u.quoteAt = u.before.length + u.head.length := rfl
  obtain h | h := s.standsAt_head.left.outside u.getElem?_quoteAt hopening
  · omega
  · exact h

/-- Of two statements, the one that starts first has its specifier first as well, unless its clause
runs over the other specifier. -/
theorem place_lt_or_runsOver {s u : Written text}
    (hle : s.mention.edge.offset ≤ u.mention.edge.offset)
    (hkey : s.mention.edge.key ≠ u.mention.edge.key) :
    s.mention.place < u.mention.place ∨ s.mention.RunsOver text u.mention := by
  have hne : s.quoteAt ≠ u.quoteAt := fun h => hkey (key_eq_of_quoteAt_eq h)
  obtain hlt | hlt := Nat.lt_or_gt_of_ne hne
  · exact .inl (Nat.succ_lt_succ hlt)
  · right
    have hform : s.form = .clause := by
      by_contra hform
      exact absurd (quoteAt_le hform hle) (Nat.not_le_of_lt hlt)
    exact ⟨hform, hle, Nat.succ_lt_succ hlt, s.semicolon_not_mem hform⟩

end Written

theorem mem_mentions {text : List Char} {m : Mention} :
    m ∈ mentions text ↔ ∃ form : Form, m ∈ form.mentions text := by
  simp only [mentions, List.mem_append]
  constructor
  · rintro (((h | h) | h) | h)
    · exact ⟨_, h⟩
    · exact ⟨_, h⟩
    · exact ⟨_, h⟩
    · exact ⟨_, h⟩
  · rintro ⟨form, h⟩
    cases form with
    | clause => exact .inl (.inl (.inl h))
    | bare => exact .inl (.inl (.inr h))
    | call => exact .inl (.inr h)
    | rule => exact .inr h

theorem specifierStart_eq {t : Token (List Char)} {head tail : List Char} {opening closing : Char}
    (htext : t.text = head ++ opening :: (t.value ++ closing :: tail))
    (hcloses : isQuote closing = true) (htail : ∀ c ∈ tail, isQuote c = false) :
    specifierStart t = t.start + head.length + 1 := by
  have hreverse : t.text.reverse =
      tail.reverse ++ closing :: (head ++ opening :: t.value).reverse := by
    rw [htext]
    simp only [List.reverse_append, List.reverse_cons, List.append_assoc, List.cons_append,
      List.nil_append]
  have hplain : ∀ c ∈ tail.reverse, (!isQuote c) = true := by
    intro c hc
    rw [htail c (List.mem_reverse.mp hc)]
    rfl
  have hlast : t.text.reverse.takeWhile (!isQuote ·) = tail.reverse := by
    rw [hreverse, List.takeWhile_append_of_pos hplain,
      List.takeWhile_cons_of_neg (by rw [hcloses]; decide), List.append_nil]
  rw [specifierStart, hlast, Token.stop, htext]
  simp only [List.length_append, List.length_cons, List.length_reverse]
  omega

theorem exists_written {text : List Char} {m : Mention} (h : m ∈ mentions text) :
    ∃ s : Written text, s.mention = m := by
  obtain ⟨form, h⟩ := mem_mentions.mp h
  obtain ⟨t, ht, rfl⟩ := List.mem_map.mp h
  obtain ⟨before, whole, left, htext, hstart, htaken, htoken⟩ := taken_of_mem_tokens ht
  obtain ⟨head, quoted, tail, rfl, hhead, hquoted, htail⟩ := recognizer_shape htaken
  obtain ⟨opening, closing, rfl, hopens, hcloses, hplain⟩ := takeQuoted?_shape hquoted
  have hpiece : head ++ opening :: (t.value ++ closing :: (tail ++ left)) =
      (head ++ opening :: (t.value ++ closing :: tail)) ++ left := by
    simp only [List.append_assoc, List.cons_append]
  rw [hpiece, consumed_append, List.take_left] at htoken
  refine ⟨⟨form, before, head, opening, t.value, closing, tail ++ left, htext, hopens, hcloses,
    hplain, hhead⟩, ?_⟩
  rw [specifierStart_eq htoken hcloses htail, hstart]
  rfl

/-! ## The order of the files -/

/-- The first statement for each file. -/
def firstMentions (text : List Char) : List Mention :=
  distinctBy (fun m => m.edge.key) ((orderedMentions text).filter fun m => m.edge.specifier ≠ [])

theorem map_edge_firstMentions (text : List Char) :
    (firstMentions text).map (·.edge) = edges text := by
  rw [firstMentions, edges, ← map_edge_orderedMentions, List.filter_map]
  exact (distinctBy_map Edge.key Mention.edge _).symm

theorem firstMention?_of_mem {text : List Char} {m : Mention} (h : m ∈ firstMentions text) :
    firstMention? text m.edge = some m := by
  have hfind := find?_of_mem_distinctBy h
  have hfilter := List.mem_filter.mp ((distinctBy_sublist _ _).mem h)
  have hspecifier : m.edge.specifier ≠ [] := of_decide_eq_true hfilter.2
  -- A statement with this key is not one of those that the filter drops.
  have hkept : ∀ n : Mention, n.edge.key = m.edge.key → n.edge.specifier ≠ [] := by
    intro n hkey
    rwa [(Prod.mk.inj hkey).2]
  rw [List.find?_filter] at hfind
  rw [firstMention?, ← hfind]
  congr 1
  funext n
  by_cases hkey : n.edge.key = m.edge.key
  · simp [hkey, hkept n hkey]
  · simp [hkey]

theorem mem_mentions_of_mem {text : List Char} {m : Mention} (h : m ∈ firstMentions text) :
    m ∈ mentions text := by
  have hordered := List.mem_of_mem_filter ((distinctBy_sublist _ _).mem h)
  exact List.mem_mergeSort.mp hordered

theorem firstMentions_pairwise (text : List Char) :
    (firstMentions text).Pairwise fun m n =>
      m.edge.offset ≤ n.edge.offset ∧ m.edge.key ≠ n.edge.key := by
  have hsorted : (orderedMentions text).Pairwise fun m n => m.edge.offset ≤ n.edge.offset :=
    mergeSort_key_sorted (·.edge.offset) (mentions text)
  exact ((hsorted.sublist List.filter_sublist).sublist (distinctBy_sublist _ _)).and
    (pairwise_distinctBy _ _)

/-- The files that a text imports come in the order in which their specifiers are first written,
except where the clause of the earlier one runs over the specifier of the later one. -/
theorem edges_pairwise_place (text : List Char) :
    (edges text).Pairwise fun e f => ∃ m n, firstMention? text e = some m ∧
      firstMention? text f = some n ∧ (m.place < n.place ∨ m.RunsOver text n) := by
  rw [← map_edge_firstMentions, List.pairwise_map]
  refine (List.Pairwise.and_mem.mp (firstMentions_pairwise text)).imp ?_
  rintro m n ⟨hm, hn, hoffset, hkey⟩
  refine ⟨m, n, firstMention?_of_mem hm, firstMention?_of_mem hn, ?_⟩
  obtain ⟨s, rfl⟩ := exists_written (mem_mentions_of_mem hm)
  obtain ⟨u, rfl⟩ := exists_written (mem_mentions_of_mem hn)
  exact Written.place_lt_or_runsOver hoffset hkey

/-- Two statements without a semicolon. -/
def unended : List Char := "import './a'\nimport x from './b'".toList

theorem orderedMentions_unended :
    orderedMentions unended =
      [⟨.clause, ⟨"./b".toList, .code, 0⟩, 28⟩, ⟨.bare, ⟨"./a".toList, .code, 0⟩, 8⟩] := by
  have hmentions : mentions unended =
      [⟨.clause, ⟨"./b".toList, .code, 0⟩, 28⟩, ⟨.bare, ⟨"./a".toList, .code, 0⟩, 8⟩] := by
    decide +kernel
  rw [orderedMentions, hmentions]
  exact mergeSort_key_eq_self (by decide)

/-- The file that is written first comes last. -/
theorem edges_out_of_order :
    edges unended = [⟨"./b".toList, .code, 0⟩, ⟨"./a".toList, .code, 0⟩] ∧
      (firstMention? unended ⟨"./b".toList, .code, 0⟩).map (·.place) = some 28 ∧
      (firstMention? unended ⟨"./a".toList, .code, 0⟩).map (·.place) = some 8 := by
  rw [← map_edge_firstMentions, firstMentions, firstMention?, firstMention?,
    orderedMentions_unended]
  decide

end ColorCensus.Import
