import ColorCensus.Context.Markup
import ColorCensus.Proofs.Cuts
import ColorCensus.Proofs.Pieces
import Mathlib.Data.List.Induction

/-!
# Terminators at the end of a line

The text of a line is told without the terminators at its end, so in front of an offset a carriage
return is told or not, depending on what stands behind the offset. What is looked for in markup
does not show the difference: no name, key or tag has a terminator in it, and the end of a word is
one in front of a terminator as well.

For a recogniser this means that it takes from a text with a terminator at the end what it takes
from the text without, and leaves the terminator (`LeavesTerminator`). Pieces that take no
terminator do the same (`Keeps`). A piece that takes blanks may take the terminator along, but then
it has come to the end of the text, and it is enough that what is behind it takes nothing there
(`Passes`).
-/

namespace ColorCensus.Text

/-- The characters that are dropped from the end of a line. -/
def terminators : List Char := ['\r', '\n']

theorem forall_mem_terminators {P : Char → Prop} : (∀ c ∈ terminators, P c) ↔ P '\r' ∧ P '\n' := by
  rw [terminators, List.forall_mem_cons, List.forall_mem_singleton]

-- There is an instance for statements about all characters, and it goes through every one of them.
instance {P : Char → Prop} [DecidablePred P] : Decidable (∀ c ∈ terminators, P c) :=
  decidable_of_iff _ forall_mem_terminators.symm

theorem isBlank_of_mem_terminators : ∀ c ∈ terminators, isBlank c = true := by decide

theorem not_isWord_of_mem_terminators : ∀ c ∈ terminators, isWord c = false := by decide

variable {α β : Type} {p : Char → Bool}

/-! ## Pieces of recognisers -/

/-- What is taken from a text with a terminator at the end is what is taken without, and the
terminator is left. -/
def LeavesTerminator (f : List Char → Option (α × List Char)) : Prop :=
  ∀ c ∈ terminators, ∀ cs, f (cs ++ [c]) = (f cs).map fun (value, left) => (value, left ++ [c])

/-- A piece leaves a terminator at the end. -/
def Keeps (piece : List Char → Option (List Char)) : Prop :=
  ∀ c ∈ terminators, ∀ cs, piece (cs ++ [c]) = (piece cs).map (· ++ [c])

/-- A piece leaves a terminator at the end, or it comes to the end with and without it. -/
def Passes (piece : List Char → Option (List Char)) : Prop :=
  ∀ c ∈ terminators, ∀ cs, piece (cs ++ [c]) = (piece cs).map (· ++ [c]) ∨
    (∀ left ∈ piece (cs ++ [c]), left = []) ∧ ∀ left ∈ piece cs, left = []

theorem Keeps.bind {piece : List Char → Option (List Char)}
    {f : List Char → Option (α × List Char)} (hpiece : Keeps piece) (hf : LeavesTerminator f) :
    LeavesTerminator fun cs => (piece cs).bind f := by
  intro c hc cs
  simp only [hpiece c hc cs]
  cases piece cs with
  | none => rfl
  | some left => exact hf c hc left

theorem bind_eq_none_of_nil {piece : Option (List Char)} {f : List Char → Option β}
    (hnil : f [] = none) (h : ∀ left ∈ piece, left = []) : piece.bind f = none := by
  cases piece with
  | none => rfl
  | some left => rw [Option.bind_some, h left rfl, hnil]

theorem Passes.bind {piece : List Char → Option (List Char)}
    {f : List Char → Option (α × List Char)} (hpiece : Passes piece) (hnil : f [] = none)
    (hf : LeavesTerminator f) : LeavesTerminator fun cs => (piece cs).bind f := by
  intro c hc cs
  rcases hpiece c hc cs with h | ⟨hend, hend'⟩
  · simp only [h]
    cases piece cs with
    | none => rfl
    | some left => exact hf c hc left
  · simp only [bind_eq_none_of_nil hnil hend, bind_eq_none_of_nil hnil hend', Option.map_none]

theorem LeavesTerminator.bind {f : List Char → Option (β × List Char)}
    {g : β → List Char → Option (α × List Char)} (hf : LeavesTerminator f)
    (hg : ∀ value, LeavesTerminator (g value)) :
    LeavesTerminator fun cs => (f cs).bind fun (value, left) => g value left := by
  intro c hc cs
  simp only [hf c hc cs]
  cases f cs with
  | none => rfl
  | some taken => exact hg taken.1 c hc taken.2

theorem LeavesTerminator.or {f g : List Char → Option (α × List Char)} (hf : LeavesTerminator f)
    (hg : LeavesTerminator g) : LeavesTerminator fun cs => (f cs).or (g cs) := by
  intro c hc cs
  simp only [hf c hc cs, hg c hc cs, Option.map_or]

theorem LeavesTerminator.none : LeavesTerminator fun _ => (none : Option (α × List Char)) :=
  fun _ _ _ => rfl

theorem LeavesTerminator.pure (value : α) : LeavesTerminator fun cs => some (value, cs) :=
  fun _ _ _ => rfl

theorem dropLiteral?_keeps {lit : List Char} (h : ∀ c ∈ terminators, c ∉ lit) :
    Keeps (dropLiteral? lit) := fun c hc cs => dropLiteral?_append_stop (h c hc) cs []

theorem dropOneOf?_keeps {spellings : List String}
    (h : ∀ s ∈ spellings, ∀ c ∈ terminators, c ∉ s.toList) : Keeps (dropOneOf? spellings) :=
  fun c hc cs => dropOneOf?_append_stop (fun s hs => h s hs c hc) cs []

theorem dropOne?_keeps (h : ∀ c ∈ terminators, p c = false) : Keeps (dropOne? p) := by
  intro c hc cs
  cases cs with
  | nil => exact if_neg (by simp [h c hc])
  | cons d cs =>
      rw [List.cons_append, dropOne?, dropOne?]
      split
      · rfl
      · rfl

theorem dropOne?_passes : Passes (dropOne? p) := by
  intro c hc cs
  cases cs with
  | nil =>
      refine .inr ⟨fun left hleft => ?_, nofun⟩
      obtain ⟨d, hd, -⟩ := dropOne?_eq_some_iff.mp hleft
      exact (List.cons.inj hd).2.symm
  | cons d cs =>
      left
      rw [List.cons_append, dropOne?, dropOne?]
      split
      · rfl
      · rfl

/-- A run is the same and the terminator is left, or the run goes to the end. -/
theorem takeRun?_concat (p : Char → Bool) (c : Char) (cs : List Char) :
    takeRun? p (cs ++ [c]) = (takeRun? p cs).map (fun (run, left) => (run, left ++ [c])) ∨
      (∀ taken ∈ takeRun? p (cs ++ [c]), taken.2 = []) ∧ ∀ taken ∈ takeRun? p cs, taken.2 = [] := by
  cases hstop : p c with
  | false => exact .inl (takeRun?_append_stop hstop cs [])
  | true =>
      by_cases hrest : cs.dropWhile p = []
      · right
        have hend : (cs ++ [c]).dropWhile p = [] := by
          rw [List.dropWhile_append, hrest, List.dropWhile_cons_of_pos hstop]
          rfl
        refine ⟨fun taken h => ?_, fun taken h => ?_⟩
        · rw [(takeRun?_eq_some_iff.mp h).2.2, hend]
        · rw [(takeRun?_eq_some_iff.mp h).2.2, hrest]
      · left
        obtain ⟨d, rest, hd⟩ := List.exists_cons_of_ne_nil hrest
        have hne : ¬ (cs.takeWhile p).length = cs.length := by
          intro hlength
          have hsplit := congrArg List.length (List.takeWhile_append_dropWhile (p := p) (l := cs))
          rw [List.length_append, hlength, hd, List.length_cons] at hsplit
          omega
        rw [takeRun?, takeRun?, List.takeWhile_append, if_neg hne, List.dropWhile_append, hd]
        cases cs.takeWhile p with
        | nil => rfl
        | cons _ _ => rfl

theorem takeRun?_leaves (h : ∀ c ∈ terminators, p c = false) : LeavesTerminator (takeRun? p) :=
  fun c hc cs => takeRun?_append_stop (h c hc) cs []

theorem takeRun?_bind_leaves {g : List Char → List Char → Option (α × List Char)}
    (hnil : ∀ run, g run [] = none) (hg : ∀ run, LeavesTerminator (g run)) :
    LeavesTerminator fun cs => (takeRun? p cs).bind fun (run, left) => g run left := by
  have hnone : ∀ taken : Option (List Char × List Char), (∀ pair ∈ taken, pair.2 = []) →
      (taken.bind fun (run, left) => g run left) = none := by
    intro taken h
    cases taken with
    | none => rfl
    | some pair =>
        obtain ⟨run, left⟩ := pair
        obtain rfl : left = [] := h _ rfl
        exact hnil run
  intro c hc cs
  rcases takeRun?_concat p c cs with h | ⟨hend, hend'⟩
  · simp only [h]
    cases takeRun? p cs with
    | none => rfl
    | some taken => exact hg taken.1 c hc taken.2
  · simp only [hnone _ hend, hnone _ hend', Option.map_none]

theorem dropRun?_cons (d : Char) (cs : List Char) :
    dropRun? p (d :: cs) = if p d then some (cs.dropWhile p) else none := by
  cases hd : p d with
  | true =>
      rw [dropRun?, takeRun?, List.takeWhile_cons_of_pos hd, List.dropWhile_cons_of_pos hd]
      rfl
  | false =>
      rw [dropRun?, takeRun?, List.takeWhile_cons_of_neg (by simp [hd])]
      rfl

theorem dropWhile_passes (p : Char → Bool) : Passes fun cs => some (cs.dropWhile p) := by
  intro c _ cs
  cases hstop : p c with
  | false => exact .inl (congrArg some (dropWhile_append_stop hstop cs []))
  | true =>
      simp only [List.dropWhile_append, List.dropWhile_cons_of_pos hstop]
      cases cs.dropWhile p with
      | nil => exact .inr ⟨fun left h => (Option.some.inj h).symm,
          fun left h => (Option.some.inj h).symm⟩
      | cons d rest => exact .inl rfl

theorem trimLeft_passes : Passes fun cs => some (trimLeft cs) := dropWhile_passes isBlank

theorem dropRun?_passes : Passes (dropRun? p) := by
  intro c hc cs
  cases cs with
  | nil =>
      refine .inr ⟨fun left hleft => ?_, nofun⟩
      rw [List.nil_append, dropRun?_cons] at hleft
      obtain ⟨-, h⟩ := Option.ite_none_right_eq_some.mp hleft
      exact (Option.some.inj h).symm
  | cons d cs =>
      rw [List.cons_append, dropRun?_cons, dropRun?_cons]
      split
      · exact dropWhile_passes p c hc cs
      · exact .inl rfl

theorem endsWord_concat {c : Char} (hc : c ∈ terminators) (cs : List Char) :
    endsWord (cs ++ [c]) = endsWord cs := by
  cases cs with
  | nil => exact congrArg (!·) (not_isWord_of_mem_terminators c hc)
  | cons d cs => rfl

theorem isPrefixOf_concat {lit : List Char} {c : Char} (h : c ∉ lit) (cs : List Char) :
    lit.isPrefixOf (cs ++ [c]) = lit.isPrefixOf cs := by
  rw [Bool.eq_iff_iff, List.isPrefixOf_iff_prefix, List.isPrefixOf_iff_prefix,
    List.prefix_concat_iff]
  refine or_iff_right ?_
  rintro rfl
  exact h List.mem_concat_self

theorem takeQuoted?_leaves : LeavesTerminator takeQuoted? :=
  (dropOne?_keeps (by decide)).bind <| takeRun?_bind_leaves (fun _ => rfl) fun run =>
    (dropOne?_keeps (by decide)).bind (.pure run)

/-! ## Lines without their terminators -/

theorem dropTerminator_concat {c : Char} (hc : c ∈ terminators) (cs : List Char) :
    dropTerminator (cs ++ [c]) = dropTerminator cs := by
  have hterminator : (c == '\r' || c == '\n') = true := by simpa [terminators] using hc
  exact dropEndWhile_concat hterminator cs

/-- What one terminator at the end of a text makes no difference to, all of them make none to. -/
theorem eq_dropTerminator {f : List Char → α} (h : ∀ c ∈ terminators, ∀ cs, f (cs ++ [c]) = f cs)
    (cs : List Char) : f (dropTerminator cs) = f cs := by
  induction cs using List.reverseRecOn with
  | nil => rfl
  | append_singleton cs c ih =>
      by_cases hc : c ∈ terminators
      · rw [dropTerminator_concat hc, h c hc, ih]
      · have hstop : (c == '\r' || c == '\n') = false := by simpa [terminators] using hc
        rw [dropTerminator, dropEndWhile_append_stop hstop]
        rfl

theorem dropTerminator_take (n : Nat) (cs : List Char) :
    dropTerminator ((dropTerminator cs).take n) = dropTerminator (cs.take n) := by
  refine eq_dropTerminator (f := fun cs => dropTerminator (cs.take n)) (fun c hc cs => ?_) cs
  rcases Nat.lt_or_ge cs.length n with hn | hn
  · have hwhole : (cs ++ [c]).length ≤ n := by
      rw [List.length_append, List.length_singleton]
      exact hn
    rw [List.take_of_length_le hwhole, List.take_of_length_le (Nat.le_of_lt hn),
      dropTerminator_concat hc]
  · rw [List.take_append_of_le_length hn]

/-! ## The walk -/

theorem tokens_concat {r : Recognizer α} (hr : ∀ before, LeavesTerminator (r before))
    (hnil : ∀ before, r before [] = none) {c : Char} (hc : c ∈ terminators) (text : List Char) :
    tokens r (text ++ [c]) = tokens r text := by
  have hnone : r text.getLast? [c] = none := by
    have h := hr text.getLast? c hc []
    rwa [hnil, Option.map_none, List.nil_append] at h
  have hlast : tokensFrom r 0 text.length text.getLast? [c] = [] := by
    rw [tokensFrom_none hnone]
    rfl
  rw [Leaves.tokens_append fun before cs _ _ => hr before c hc cs, hlast, List.append_nil]

end ColorCensus.Text

namespace ColorCensus.Context.Markup

open Text

/-! ## What a line may hold -/

theorem takeCapitalised?_leaves {p : Char → Bool} (h : ∀ c ∈ terminators, p c = false) :
    LeavesTerminator (takeCapitalised? p) := by
  intro c hc cs
  have hupper : ∀ c ∈ terminators, isAsciiUpper c = false := by decide
  unfold takeCapitalised?
  rw [dropOne?_keeps hupper c hc, takeRun?_leaves h c hc]
  cases dropOne? isAsciiUpper cs with
  | none => rfl
  | some _ =>
      cases takeRun? p cs with
      | none => rfl
      | some taken =>
          simp only [Option.map_some, Option.bind_eq_bind, Option.bind_some, endsWord_concat hc]
          split
          · rfl
          · rfl

theorem takeCapitalised?_nil (p : Char → Bool) : takeCapitalised? p [] = none := rfl

theorem takeName?_leaves : LeavesTerminator (takeCapitalised? isNameChar) :=
  takeCapitalised?_leaves (by decide)

theorem takeDeclared?_leaves : LeavesTerminator takeDeclared? :=
  (dropOneOf?_keeps (by decide)).bind <|
    dropRun?_passes.bind (takeCapitalised?_nil _) takeName?_leaves

theorem declaration_leaves (before : Option Char) : LeavesTerminator (declaration before) := by
  have hbehind : LeavesTerminator fun cs => (dropOne? isBlank cs).bind takeDeclared? :=
    dropOne?_passes.bind rfl takeDeclared?_leaves
  cases before with
  | none => exact takeDeclared?_leaves.or hbehind
  | some _ => exact LeavesTerminator.none.or hbehind

/-- A word at the end of the text is dropped with a terminator behind it only, but the word itself
is nothing that could be taken. -/
theorem dropWord_leaves {word : String} (hword : ∀ c ∈ terminators, c ∉ word.toList)
    {α : Type} {f : List Char → Option (α × List Char)} (hnil : f [] = none)
    (hself : f word.toList = none) (hf : LeavesTerminator f) :
    LeavesTerminator fun cs => f (dropWord word cs) := by
  intro c hc cs
  simp only [dropWord, dropLiteral?_keeps hword c hc cs]
  cases hdrop : dropLiteral? word.toList cs with
  | none => exact hf c hc cs
  | some rest =>
      obtain rfl := dropLiteral?_eq_some_iff.mp hdrop
      simp only [Option.map_some, Option.bind_some]
      cases rest with
      | nil =>
          rw [List.nil_append, dropRun?_cons, if_pos (isBlank_of_mem_terminators c hc)]
          change f [] = (f (word.toList ++ [])).map _
          rw [List.append_nil, hnil, hself]
          rfl
      | cons d rest =>
          rw [List.cons_append, dropRun?_cons, dropRun?_cons]
          split
          · exact trimLeft_passes.bind hnil hf c hc rest
          · exact hf c hc (word.toList ++ d :: rest)

theorem exportedDeclaration_leaves (before : Option Char) :
    LeavesTerminator (exportedDeclaration before) := by
  have hfunction : LeavesTerminator fun cs =>
      takeCapitalised? isNameChar (dropWord "function" cs) :=
    dropWord_leaves (by decide) rfl rfl takeName?_leaves
  have hdefault : LeavesTerminator fun cs =>
      takeCapitalised? isNameChar (dropWord "function" (dropWord "default" cs)) :=
    dropWord_leaves (by decide) rfl rfl hfunction
  exact (dropLiteral?_keeps (by decide)).bind (dropRun?_passes.bind rfl hdefault)

theorem classAttribute_leaves (before : Option Char) :
    LeavesTerminator (classAttribute before) := by
  unfold classAttribute
  split
  · have hvalue : LeavesTerminator fun cs => takeQuoted? (trimLeft cs) :=
      trimLeft_passes.bind rfl takeQuoted?_leaves
    have hassigned : LeavesTerminator fun cs => (dropLiteral? ['='] (trimLeft cs)).bind fun cs =>
        takeQuoted? (trimLeft cs) :=
      trimLeft_passes.bind rfl ((dropLiteral?_keeps (by decide)).bind hvalue)
    exact (dropOneOf?_keeps (by decide)).bind hassigned
  · exact .none

theorem componentTag_leaves (before : Option Char) : LeavesTerminator (componentTag before) :=
  (dropLiteral?_keeps (by decide)).bind (takeCapitalised?_leaves (by decide))

theorem backToBoundary_leaves (reversed : List Char) :
    LeavesTerminator (backToBoundary reversed) := by
  intro c hc left
  induction reversed generalizing left with
  | nil => rfl
  | cons d reversed ih =>
      have hhead : (left ++ [c]).head?.any isWord = left.head?.any isWord := by
        cases left with
        | nil => exact not_isWord_of_mem_terminators c hc
        | cons e left => rfl
      rw [backToBoundary, backToBoundary, hhead]
      split
      · rfl
      · exact ih (d :: left)

theorem elementTag_leaves (before : Option Char) : LeavesTerminator (elementTag before) := by
  have hname : LeavesTerminator fun cs =>
      (takeRun? (fun c => isAsciiAlnum c || c == '-') cs).bind fun (name, left) =>
        backToBoundary name.reverse left :=
    (takeRun?_leaves (by decide)).bind fun name => backToBoundary_leaves name.reverse
  refine (dropLiteral?_keeps (by decide)).bind fun c hc cs => ?_
  have hlower : ∀ c ∈ terminators, isAsciiLower c = false := by decide
  rw [dropOne?_keeps hlower c hc]
  cases dropOne? isAsciiLower cs with
  | none => rfl
  | some _ => exact hname c hc cs

theorem takeQuotedKey?_leaves : LeavesTerminator takeQuotedKey? := by
  intro c hc cs
  cases cs with
  | nil =>
      revert c
      decide
  | cons quote cs =>
      rw [List.cons_append, takeQuotedKey?, takeQuotedKey?]
      split
      · next hquote =>
          have hlit : ∀ c ∈ terminators, c ∉ [quote] := by
            intro c hc hmem
            have hnone : ∀ c ∈ terminators, isQuote c = false := by decide
            rw [← List.mem_singleton.mp hmem, hnone c hc] at hquote
            cases hquote
          exact takeRun?_bind_leaves (fun _ => rfl)
            (fun run => (dropLiteral?_keeps hlit).bind (.pure run)) c hc cs
      · rfl

theorem takeBareKey?_leaves : LeavesTerminator takeBareKey? := by
  intro c hc cs
  have hdashes : (dropLiteral? ['-', '-'] (cs ++ [c])).getD (cs ++ [c]) =
      (dropLiteral? ['-', '-'] cs).getD cs ++ [c] := by
    rw [dropLiteral?_keeps (by decide) c hc]
    cases dropLiteral? ['-', '-'] cs with
    | none => rfl
    | some left => rfl
  have hfirst : ∀ c ∈ terminators, (isAsciiLetter c || c == '_' || c == '$') = false := by decide
  have hlater : ∀ c ∈ terminators, (isWord c || c == '$' || c == '-') = false := by decide
  have hleft : ∀ ds : List Char, (ds ++ [c]).dropWhile (fun c => isWord c || c == '$' || c == '-') =
      ds.dropWhile (fun c => isWord c || c == '$' || c == '-') ++ [c] :=
    fun ds => dropWhile_append_stop (hlater c hc) ds []
  have htake : ∀ left : List Char,
      (cs ++ [c]).take (consumed (cs ++ [c]) (left ++ [c])) = cs.take (consumed cs left) := by
    intro left
    have hle : consumed cs left ≤ cs.length := Nat.sub_le _ _
    rw [consumed_append_append, List.take_append_of_le_length hle]
  unfold takeBareKey?
  simp only [hdashes, hleft, htake]
  rw [dropOne?_keeps hfirst c hc]
  cases dropOne? (fun c => isAsciiLetter c || c == '_' || c == '$')
      ((dropLiteral? ['-', '-'] cs).getD cs) with
  | none => rfl
  | some _ => rfl

theorem takeKey?_leaves : LeavesTerminator takeKey? := by
  have hend : ∀ key : List Char, LeavesTerminator fun cs =>
      if ":".toList.isPrefixOf cs || "//".toList.isPrefixOf cs then none else some (key, cs) := by
    intro key c hc cs
    have hlits : ∀ c ∈ terminators, c ∉ ":".toList ∧ c ∉ "//".toList := by decide
    simp only [isPrefixOf_concat (hlits c hc).1, isPrefixOf_concat (hlits c hc).2]
    split
    · rfl
    · rfl
  have hcolon : ∀ key : List Char, LeavesTerminator fun cs =>
      (dropLiteral? [':'] (trimLeft cs)).bind fun cs =>
        if ":".toList.isPrefixOf cs || "//".toList.isPrefixOf cs then none else some (key, cs) :=
    fun key => trimLeft_passes.bind rfl ((dropLiteral?_keeps (by decide)).bind (hend key))
  exact trimLeft_passes.bind rfl ((takeQuotedKey?_leaves.or takeBareKey?_leaves).bind hcolon)

theorem objectKey_leaves (before : Option Char) : LeavesTerminator (objectKey before) := by
  have hbehind : LeavesTerminator fun cs => (dropOne? opensKey cs).bind takeKey? :=
    dropOne?_passes.bind rfl takeKey?_leaves
  cases before with
  | none => exact takeKey?_leaves.or hbehind
  | some _ => exact LeavesTerminator.none.or hbehind

/-! ## A line -/

variable {c : Char}

theorem declarationIn?_concat (hc : c ∈ terminators) (line : List Char) :
    declarationIn? (line ++ [c]) = declarationIn? line := by
  rw [declarationIn?, declarationIn?, firstToken?, firstToken?, firstToken?, firstToken?,
    tokens_concat declaration_leaves (by rintro (_ | _) <;> rfl) hc,
    tokens_concat exportedDeclaration_leaves (fun _ => rfl) hc]

theorem inLine_concat (hc : c ∈ terminators) (line : List Char) :
    Found.inLine (line ++ [c]) = Found.inLine line := by
  have hclass : ∀ before, classAttribute before [] = none := by
    intro before
    rw [classAttribute, ite_eq_right_iff]
    exact fun _ => rfl
  rw [Found.inLine, Found.inLine, lastToken?, lastToken?, lastToken?, lastToken?, lastToken?,
    lastToken?, tokens_concat classAttribute_leaves hclass hc,
    tokens_concat componentTag_leaves (fun _ => rfl) hc,
    tokens_concat elementTag_leaves (fun _ => rfl) hc]

theorem elementContext_concat (hc : c ∈ terminators) (line : List Char) (above : List (List Char)) :
    elementContext ((line ++ [c]) :: above) = elementContext (line :: above) := by
  rw [elementContext, elementContext, declarationIn?_concat hc, inLine_concat hc]
  cases hd : declarationIn? line with
  | none => rfl
  | some d =>
      have hstop : d.stop ≤ line.length := by
        rcases Option.or_eq_some_iff.mp hd with hd | ⟨-, hd⟩
        · exact stop_le_length_of_mem_tokens (List.mem_of_head? hd)
        · exact stop_le_length_of_mem_tokens (List.mem_of_head? hd)
      dsimp only
      rw [List.drop_append_of_le_length hstop, inLine_concat hc]

theorem enclosingComponent?_concat (hc : c ∈ terminators) (line : List Char)
    (above : List (List Char)) :
    enclosingComponent? ((line ++ [c]) :: above) = enclosingComponent? (line :: above) := by
  rw [enclosingComponent?, enclosingComponent?, List.findSome?_cons, List.findSome?_cons,
    declarationIn?_concat hc]

theorem lastKey_concat (hc : c ∈ terminators) (line : List Char) :
    lastToken? objectKey (line ++ [c]) = lastToken? objectKey line := by
  rw [lastToken?, lastToken?, tokens_concat objectKey_leaves (by rintro (_ | _) <;> rfl) hc]

end ColorCensus.Context.Markup
