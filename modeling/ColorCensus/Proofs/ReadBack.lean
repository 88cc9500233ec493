import ColorCensus.Json
import ColorCensus.Text.Token

/-!
# Documents read back

A reader of JSON, strict but for its numbers, which are integers only, and its strings, in which
surrogates have to come in pairs. It reads a document back from its written form, so two
documents that are written alike are the same.

The reader goes down one level of `fuel` for each value, each item and each field, and every one
of these takes at least one character of the text.
-/

namespace ColorCensus.Json

open Text

/-! ## The reader -/

namespace Reader

def isBlank (c : Char) : Bool := c == ' ' || c == '\n' || c == '\r' || c == '\t'

def skipBlanks (cs : List Char) : List Char := cs.dropWhile isBlank

def hexDigit? (c : Char) : Option Nat :=
  if '0' ≤ c && c ≤ '9' then some (c.toNat - '0'.toNat)
  else if 'a' ≤ c && c ≤ 'f' then some (c.toNat - 'a'.toNat + 10)
  else if 'A' ≤ c && c ≤ 'F' then some (c.toNat - 'A'.toNat + 10)
  else none

/-- A UTF-16 unit in four hexadecimal digits. -/
def unit? : List Char → Option (Nat × List Char)
  | a :: b :: c :: d :: rest => do
      let a ← hexDigit? a
      let b ← hexDigit? b
      let c ← hexDigit? c
      let d ← hexDigit? d
      pure (0x1000 * a + 0x100 * b + 0x10 * c + d, rest)
  | _ => none

/-- The character of one UTF-16 unit or of two, after the first `\u`. -/
def units? (cs : List Char) : Option (Char × List Char) := do
  let (n, rest) ← unit? cs
  if n < 0xD800 || 0xE000 ≤ n then pure (Char.ofNat n, rest)
  else match rest with
    | '\\' :: 'u' :: rest => do
        let (m, rest) ← unit? rest
        if n < 0xDC00 && 0xDC00 ≤ m && m < 0xE000 then
          pure (Char.ofNat (0x10000 + 0x400 * (n - 0xD800) + (m - 0xDC00)), rest)
        else none
    | _ => none

/-- The characters that a single letter after a backslash stands for. -/
def escapes : List (Char × Char) :=
  [('"', '"'), ('\\', '\\'), ('/', '/'), ('b', '\x08'), ('f', '\x0c'), ('n', '\n'), ('r', '\r'),
    ('t', '\t')]

/-- A character of a string. -/
def char? : List Char → Option (Char × List Char)
  | [] => none
  | c :: rest =>
      if c ≠ '\\' then if c.toNat < 0x20 then none else some (c, rest)
      else match rest with
        | [] => none
        | 'u' :: rest => units? rest
        | letter :: rest => (escapes.lookup letter).map (·, rest)

/-- The rest of a string, and what follows its closing quote. -/
def chars? : Nat → List Char → Option (List Char × List Char)
  | 0, _ => none
  | fuel + 1, cs =>
      match cs with
      | '"' :: rest => some ([], rest)
      | cs => do
          let (c, rest) ← char? cs
          let (s, rest) ← chars? fuel rest
          pure (c :: s, rest)

def string? (cs : List Char) : Option (String × List Char) :=
  match cs with
  | '"' :: rest => (chars? (rest.length + 1) rest).map fun (s, rest) => (String.ofList s, rest)
  | _ => none

/-- Decimal digits; a number of several does not start with a zero. -/
def natural? (cs : List Char) : Option (Nat × List Char) :=
  let digits := cs.takeWhile Char.isDigit
  if digits = [] ∨ digits.head? = some '0' ∧ digits ≠ ['0'] then none
  else some (Nat.ofDigitChars 10 digits 0, cs.drop digits.length)

def integer? : List Char → Option (Int × List Char)
  | '-' :: cs => (natural? cs).map fun (n, rest) => (-(n : Int), rest)
  | cs => (natural? cs).map fun (n, rest) => ((n : Int), rest)

/-- A punctuation mark, with blanks in front of it, and what follows it. -/
def mark? (mark : Char) (cs : List Char) : Option (List Char) :=
  match skipBlanks cs with
  | [] => none
  | c :: rest => if c = mark then some rest else none

mutual

def value? : Nat → List Char → Option (Json × List Char)
  | 0, _ => none
  | fuel + 1, cs =>
      match skipBlanks cs with
      | [] => none
      | c :: rest =>
          if c = '"' then (string? (c :: rest)).map fun (s, rest) => (str s, rest)
          else if c = '[' then
            match mark? ']' rest with
            | some rest => some (arr [], rest)
            | none => do
                let (item, rest) ← value? fuel rest
                let (items, rest) ← items? fuel rest
                pure (arr (item :: items), rest)
          else if c = '\x7b' then
            match mark? '\x7d' rest with
            | some rest => some (obj [], rest)
            | none => do
                let (field, rest) ← field? fuel rest
                let (fields, rest) ← fields? fuel rest
                pure (obj (field :: fields), rest)
          else if c = 'n' then (dropLiteral? "ull".toList rest).map (null, ·)
          else if c = 't' then (dropLiteral? "rue".toList rest).map (bool true, ·)
          else if c = 'f' then (dropLiteral? "alse".toList rest).map (bool false, ·)
          else (integer? (c :: rest)).map fun (i, rest) => (int i, rest)

/-- The items after the first one, up to the end of the array. -/
def items? : Nat → List Char → Option (List Json × List Char)
  | 0, _ => none
  | fuel + 1, cs =>
      match mark? ']' cs with
      | some rest => some ([], rest)
      | none => do
          let rest ← mark? ',' cs
          let (item, rest) ← value? fuel rest
          let (items, rest) ← items? fuel rest
          pure (item :: items, rest)

def field? : Nat → List Char → Option ((String × Json) × List Char)
  | 0, _ => none
  | fuel + 1, cs => do
      let (key, rest) ← string? (skipBlanks cs)
      let rest ← mark? ':' rest
      let (value, rest) ← value? fuel rest
      pure ((key, value), rest)

/-- The fields after the first one, up to the end of the object. -/
def fields? : Nat → List Char → Option (List (String × Json) × List Char)
  | 0, _ => none
  | fuel + 1, cs =>
      match mark? '\x7d' cs with
      | some rest => some ([], rest)
      | none => do
          let rest ← mark? ',' cs
          let (field, rest) ← field? fuel rest
          let (fields, rest) ← fields? fuel rest
          pure (field :: fields, rest)

end

end Reader

/-- The document that a text spells. -/
def read? (text : String) : Option Json :=
  match Reader.value? (text.toList.length + 1) text.toList with
  | some (j, rest) => if Reader.skipBlanks rest = [] then some j else none
  | none => none

namespace Reader

/-! ## Numbers -/

theorem head?_toDigits {n : Nat} (h : (Nat.toDigits 10 n).head? = some '0') : n = 0 := by
  induction n using Nat.strongRecOn with
  | ind n ih =>
      rw [Nat.toDigits_eq_if (by decide)] at h
      split at h
      · next hn =>
          have hall : ∀ d < 10, Nat.digitChar d = '0' → d = 0 := by decide
          exact hall n hn (Option.some.inj h)
      · next hn =>
          obtain ⟨c, cs, hcs⟩ := List.exists_cons_of_ne_nil (Nat.toDigits_ne_nil (n := n / 10))
          rw [hcs] at h
          have := ih (n / 10) (by omega) (by rw [hcs]; exact h)
          omega

/-- What follows a number does not go on with a digit. -/
def EndsNumber (rest : List Char) : Prop := ∀ c ∈ rest.head?, c.isDigit = false

theorem takeWhile_isDigit {digits rest : List Char} (hdigits : ∀ c ∈ digits, c.isDigit = true)
    (hrest : EndsNumber rest) : (digits ++ rest).takeWhile Char.isDigit = digits := by
  rw [List.takeWhile_append_of_pos hdigits]
  cases rest with
  | nil => simp
  | cons c rest =>
      have hc : c.isDigit = false := hrest c rfl
      simp [hc]

theorem natural?_toDigits (n : Nat) {rest : List Char} (hrest : EndsNumber rest) :
    natural? (Nat.toDigits 10 n ++ rest) = some (n, rest) := by
  have hdigits : (Nat.toDigits 10 n ++ rest).takeWhile Char.isDigit = Nat.toDigits 10 n :=
    takeWhile_isDigit (fun c hc => Nat.isDigit_of_mem_toDigits (by decide) (by decide) hc) hrest
  have hzero : ¬ ((Nat.toDigits 10 n).head? = some '0' ∧ Nat.toDigits 10 n ≠ ['0']) := by
    rintro ⟨hhead, hne⟩
    obtain rfl := head?_toDigits hhead
    exact hne rfl
  unfold natural?
  dsimp only
  rw [hdigits, if_neg (not_or.mpr ⟨Nat.toDigits_ne_nil, hzero⟩),
    Nat.ofDigitChars_toDigits (by decide) (by decide), List.drop_left]

theorem toList_toString (i : Int) :
    (toString i).toList =
      if 0 ≤ i then Nat.toDigits 10 i.toNat else '-' :: Nat.toDigits 10 (-i).toNat := by
  rw [Int.toString_eq_repr, Int.repr_eq_if, Nat.repr_eq_ofList_toDigits,
    Nat.repr_eq_ofList_toDigits]
  split
  · exact String.toList_ofList
  · exact (String.toList_append ..).trans (congrArg _ String.toList_ofList)

theorem toString_head (i : Int) :
    ∃ c cs, (toString i).toList = c :: cs ∧
      ((0 ≤ i ∧ c.isDigit = true) ∨ (¬ 0 ≤ i ∧ c = '-' ∧ cs = Nat.toDigits 10 (-i).toNat)) := by
  rw [toList_toString]
  split
  · next hi =>
      obtain ⟨c, digits, hdigits⟩ := List.exists_cons_of_ne_nil (Nat.toDigits_ne_nil (n := i.toNat))
      have hc : c ∈ Nat.toDigits 10 i.toNat := by
        rw [hdigits]
        exact List.mem_cons_self
      exact ⟨c, digits, hdigits, .inl ⟨hi, Nat.isDigit_of_mem_toDigits (by decide) (by decide) hc⟩⟩
  · next hi => exact ⟨_, _, rfl, .inr ⟨hi, rfl, rfl⟩⟩

theorem numberHead_ne {c : Char} (h : c.isDigit = true ∨ c = '-') :
    isBlank c = false ∧ ∀ d ∈ ['"', '[', ']', '\x7b', 'n', 't', 'f'], c ≠ d := by
  have hblank : ∀ d, isBlank d = true → d.isDigit = false ∧ d ≠ '-' := by
    intro d hd
    simp only [isBlank, Bool.or_eq_true, beq_iff_eq] at hd
    obtain ((rfl | rfl) | rfl) | rfl := hd <;> exact ⟨rfl, by decide⟩
  have hmarks : ∀ d ∈ ['"', '[', ']', '\x7b', 'n', 't', 'f'], d.isDigit = false ∧ d ≠ '-' := by
    simp
  have hne (d : Char) (hd : d.isDigit = false ∧ d ≠ '-') : c ≠ d := by
    rintro rfl
    obtain h | h := h
    · rw [hd.1] at h
      cases h
    · exact hd.2 h
  exact ⟨Bool.eq_false_iff.mpr fun hc => hne c (hblank c hc) rfl, fun d hd => hne d (hmarks d hd)⟩

theorem integer?_toString (i : Int) {rest : List Char} (hrest : EndsNumber rest) :
    integer? ((toString i).toList ++ rest) = some (i, rest) := by
  obtain ⟨c, cs, hhead, ⟨hi, hc⟩ | ⟨hi, rfl, rfl⟩⟩ := toString_head i
  · have hdigits : (toString i).toList = Nat.toDigits 10 i.toNat := by
      rw [toList_toString, if_pos hi]
    have hread := natural?_toDigits i.toNat hrest
    rw [← hdigits, hhead] at hread
    rw [hhead]
    unfold integer?
    split
    · next heq =>
        rw [(List.cons.inj heq).1] at hc
        cases hc
    · rw [hread, Option.map_some]
      dsimp only
      rw [Int.toNat_of_nonneg hi]
  · rw [hhead]
    change (natural? (Nat.toDigits 10 (-i).toNat ++ rest)).map _ = _
    rw [natural?_toDigits _ hrest, Option.map_some]
    dsimp only
    rw [Int.toNat_of_nonneg (by omega), Int.neg_neg]

/-! ## Strings -/

theorem hexDigit?_digitChar {n : Nat} (h : n < 16) : hexDigit? (Nat.digitChar n) = some n := by
  have hall : ∀ n < 16, hexDigit? (Nat.digitChar n) = some n := by decide
  exact hall n h

theorem unit?_unitEscape {n : Nat} (h : n < 0x10000) (rest : List Char) :
    ∃ digits, unitEscape n = '\\' :: 'u' :: digits ∧ unit? (digits ++ rest) = some (n, rest) := by
  refine ⟨_, rfl, ?_⟩
  have hdigit (k : Nat) : hexDigit? (Nat.digitChar (k % 16)) = some (k % 16) :=
    hexDigit?_digitChar (Nat.mod_lt _ (by decide))
  simp only [List.cons_append, List.nil_append, unit?, hdigit, Option.bind_eq_bind,
    Option.bind_some, Option.pure_def]
  congr 2
  omega

theorem toNat_valid (c : Char) : c.toNat < 0xD800 ∨ 0xDFFF < c.toNat ∧ c.toNat < 0x110000 := c.valid

theorem units?_basic {c : Char} (h : c.toNat < 0x10000) (rest : List Char) :
    char? (unitEscape c.toNat ++ rest) = some (c, rest) := by
  obtain ⟨digits, hdigits, hunit⟩ := unit?_unitEscape h rest
  have hvalid : (c.toNat < 0xD800 || 0xE000 ≤ c.toNat) = true := by
    have := toNat_valid c
    rw [Bool.or_eq_true, decide_eq_true_iff, decide_eq_true_iff]
    omega
  rw [hdigits]
  change units? (digits ++ rest) = _
  rw [units?, hunit]
  simp only [Option.bind_eq_bind, Option.bind_some, hvalid, if_true, Char.ofNat_toNat,
    Option.pure_def]

theorem units?_pair {c : Char} (h : 0x10000 ≤ c.toNat) (rest : List Char) :
    char? (unitEscape (0xD800 + (c.toNat - 0x10000) / 0x400) ++
      unitEscape (0xDC00 + (c.toNat - 0x10000) % 0x400) ++ rest) = some (c, rest) := by
  have hc := toNat_valid c
  obtain ⟨low, hlow, hlowunit⟩ :=
    unit?_unitEscape (n := 0xDC00 + (c.toNat - 0x10000) % 0x400) (by omega) rest
  obtain ⟨high, hhigh, hhighunit⟩ :=
    unit?_unitEscape (n := 0xD800 + (c.toNat - 0x10000) / 0x400) (by omega)
      ('\\' :: 'u' :: (low ++ rest))
  rw [hhigh, hlow]
  change units? ((high ++ '\\' :: 'u' :: low) ++ rest) = _
  rw [List.append_assoc, units?]
  change (unit? (high ++ '\\' :: 'u' :: (low ++ rest))).bind _ = _
  rw [hhighunit, Option.bind_some]
  dsimp only
  rw [if_neg (by simp; omega)]
  change (unit? (low ++ rest)).bind _ = _
  rw [hlowunit, Option.bind_some]
  dsimp only
  rw [if_pos (by simp; omega)]
  have hsum : 0x10000 + 0x400 * (0xD800 + (c.toNat - 0x10000) / 0x400 - 0xD800) +
      (0xDC00 + (c.toNat - 0x10000) % 0x400 - 0xDC00) = c.toNat := by omega
  rw [hsum, Char.ofNat_toNat]
  rfl

/-- The characters that are written as a backslash and a single letter. -/
def short : List Char := ['"', '\\', '\n', '\r', '\t', '\x08', '\x0c']

theorem char?_escapeChar (c : Char) (rest : List Char) :
    char? (escapeChar c ++ rest) = some (c, rest) := by
  by_cases hc : c ∈ short
  · have hall : ∀ d ∈ short, char? (escapeChar d ++ rest) = some (d, rest) := by
      simp only [short, List.forall_mem_cons]
      exact ⟨rfl, rfl, rfl, rfl, rfl, rfl, rfl, fun _ h => absurd h List.not_mem_nil⟩
    exact hall c hc
  · have hne : ∀ d ∈ short, (c == d) = false := fun d hd =>
      beq_eq_false_iff_ne.mpr fun h => hc (h ▸ hd)
    simp only [short, List.forall_mem_cons] at hne
    obtain ⟨hquote, hslash, hn, hr, ht, hb, hf, -⟩ := hne
    simp only [escapeChar, hquote, hslash, hn, hr, ht, hb, hf, Bool.false_eq_true, if_false]
    split
    · exact units?_basic (by omega) rest
    split
    · next hlow _ =>
        rw [List.singleton_append, char?.eq_def]
        dsimp only
        rw [if_pos (beq_eq_false_iff_ne.mp hslash), if_neg hlow]
    split
    · next h => exact units?_basic h rest
    · next h => exact units?_pair (Nat.le_of_not_lt h) rest

/-- No character is written with a quote in front, which would end the string. -/
theorem escapeChar_ne_quote (c : Char) : ∃ d ds, escapeChar c = d :: ds ∧ d ≠ '"' := by
  have hchar := char?_escapeChar c []
  cases h : escapeChar c with
  | nil =>
      rw [h] at hchar
      cases hchar
  | cons d ds =>
      refine ⟨d, ds, rfl, ?_⟩
      rintro rfl
      rw [h] at hchar
      obtain ⟨rfl, -⟩ := Prod.mk.inj (Option.some.inj hchar)
      cases h

theorem chars?_escaped (cs rest : List Char) {fuel : Nat} (hfuel : cs.length < fuel) :
    chars? fuel (cs.flatMap escapeChar ++ '"' :: rest) = some (cs, rest) := by
  induction cs generalizing fuel with
  | nil =>
      cases fuel with
      | zero => cases hfuel
      | succ fuel => rfl
  | cons c cs ih =>
      cases fuel with
      | zero => cases hfuel
      | succ fuel =>
          obtain ⟨d, ds, hd, hquote⟩ := escapeChar_ne_quote c
          have hchar := char?_escapeChar c (cs.flatMap escapeChar ++ '"' :: rest)
          rw [List.flatMap_cons, List.append_assoc]
          rw [hd, List.cons_append] at hchar ⊢
          rw [chars?.eq_def]
          dsimp only
          split
          · next heq => exact absurd (List.cons.inj heq).1 hquote
          · rw [hchar, Option.bind_eq_bind, Option.bind_some]
            dsimp only
            rw [ih (Nat.lt_of_succ_lt_succ hfuel)]
            rfl

theorem length_le_escaped (cs : List Char) : cs.length ≤ (cs.flatMap escapeChar).length := by
  induction cs with
  | nil => exact Nat.zero_le _
  | cons c cs ih =>
      obtain ⟨d, ds, hd, -⟩ := escapeChar_ne_quote c
      rw [List.flatMap_cons, hd, List.length_append, List.length_cons, List.length_cons]
      omega

theorem string?_quote (s : String) (rest : List Char) :
    string? (quote s ++ rest) = some (s, rest) := by
  have hquote : quote s ++ rest = '"' :: (s.toList.flatMap escapeChar ++ '"' :: rest) := by
    simp [quote]
  have hfuel : s.toList.length < (s.toList.flatMap escapeChar ++ '"' :: rest).length + 1 := by
    have := length_le_escaped s.toList
    rw [List.length_append]
    omega
  rw [hquote]
  change (chars? ((s.toList.flatMap escapeChar ++ '"' :: rest).length + 1) _).map _ = _
  rw [chars?_escaped _ _ hfuel, Option.map_some]
  dsimp only
  rw [String.ofList_toList]

/-! ## Documents -/

theorem skipBlanks_newline (depth : Nat) (cs : List Char) :
    skipBlanks (newline depth ++ cs) = skipBlanks cs := by
  have hblank : ∀ c ∈ newline depth, isBlank c = true := by
    intro c hc
    obtain rfl | hc := List.mem_cons.mp hc
    · rfl
    · rw [List.eq_of_mem_replicate hc]
      rfl
  exact List.dropWhile_append_of_pos hblank

theorem skipBlanks_cons {c : Char} (hc : isBlank c = false) (cs : List Char) :
    skipBlanks (c :: cs) = c :: cs := by
  rw [skipBlanks, List.dropWhile_cons_of_neg (by rw [hc]; decide)]

theorem mark?_newline (mark : Char) (depth : Nat) (cs : List Char) :
    mark? mark (newline depth ++ cs) = mark? mark cs := by
  rw [mark?, skipBlanks_newline, mark?]

theorem mark?_cons {c : Char} (mark : Char) (hc : isBlank c = false) (cs : List Char) :
    mark? mark (c :: cs) = if c = mark then some cs else none := by
  rw [mark?, skipBlanks_cons hc]

theorem write_head (depth : Nat) (j : Json) :
    ∃ c cs, write depth j = c :: cs ∧ isBlank c = false ∧ c ≠ ']' := by
  cases j with
  | null => exact ⟨_, _, rfl, by decide, by decide⟩
  | bool b => cases b <;> exact ⟨_, _, rfl, by decide, by decide⟩
  | int i =>
      obtain ⟨c, cs, hhead, h⟩ := toString_head i
      obtain ⟨hblank, hne⟩ := numberHead_ne (h.imp And.right fun h => h.2.1)
      exact ⟨c, cs, hhead, hblank, hne _ (by decide)⟩
  | str s => exact ⟨_, _, rfl, by decide, by decide⟩
  | arr items => cases items <;> exact ⟨_, _, rfl, by decide, by decide⟩
  | obj fields =>
      cases fields with
      | nil => exact ⟨_, _, rfl, by decide, by decide⟩
      | cons field fields => exact ⟨_, _, rfl, by decide, by decide⟩

theorem skipBlanks_write (depth : Nat) (j : Json) (rest : List Char) :
    skipBlanks (write depth j ++ rest) = write depth j ++ rest := by
  obtain ⟨c, cs, hwrite, hc, -⟩ := write_head depth j
  rw [hwrite, List.cons_append, skipBlanks_cons hc]

theorem skipBlanks_newline_write (outer depth : Nat) (j : Json) (rest : List Char) :
    skipBlanks (newline outer ++ (write depth j ++ rest)) = write depth j ++ rest := by
  rw [skipBlanks_newline, skipBlanks_write]

theorem skipBlanks_newline_quote (depth : Nat) (s : String) (rest : List Char) :
    skipBlanks (newline depth ++ (quote s ++ rest)) = quote s ++ rest := by
  rw [skipBlanks_newline]
  exact skipBlanks_cons (by decide) _

theorem mark?_quote {mark : Char} (hmark : mark ≠ '"') (s : String) (rest : List Char) :
    mark? mark (quote s ++ rest) = none :=
  (mark?_cons mark (by decide) _).trans (if_neg hmark.symm)

theorem endsNumber_newline (depth : Nat) (cs : List Char) : EndsNumber (newline depth ++ cs) := by
  intro c hc
  cases hc
  rfl

theorem endsNumber_writeItems (depth outer : Nat) (items : List Json) (rest : List Char) :
    EndsNumber (writeItems depth items ++ (newline outer ++ rest)) := by
  cases items with
  | nil => exact endsNumber_newline outer rest
  | cons item items =>
      intro c hc
      cases hc
      rfl

theorem endsNumber_writeFields (depth outer : Nat) (fields : List (String × Json))
    (rest : List Char) : EndsNumber (writeFields depth fields ++ (newline outer ++ rest)) := by
  cases fields with
  | nil => exact endsNumber_newline outer rest
  | cons field fields =>
      intro c hc
      cases hc
      rfl

/-! One step of the reader for each kind of document that holds others, with what it reads
further on given: the induction below only has to say how the written form is split. -/

section Steps

variable {fuel : Nat} {cs tail rest rest' : List Char}

theorem value?_int {i : Int} (hcs : skipBlanks cs = (toString i).toList ++ rest)
    (hrest : EndsNumber rest) : value? (fuel + 1) cs = some (int i, rest) := by
  obtain ⟨c, cs', hhead, h⟩ := toString_head i
  obtain ⟨-, hne⟩ := numberHead_ne (h.imp And.right fun h => h.2.1)
  simp only [List.forall_mem_cons] at hne
  obtain ⟨hquote, hbracket, -, hbrace, hn, ht, hf, -⟩ := hne
  have hread := integer?_toString i hrest
  rw [hhead, List.cons_append] at hread
  rw [value?, hcs, hhead, List.cons_append]
  dsimp only
  rw [if_neg hquote, if_neg hbracket, if_neg hbrace, if_neg hn, if_neg ht, if_neg hf, hread]
  rfl

theorem value?_array {item : Json} {items : List Json} (hcs : skipBlanks cs = '[' :: tail)
    (hmark : mark? ']' tail = none) (hitem : value? fuel tail = some (item, rest))
    (hitems : items? fuel rest = some (items, rest')) :
    value? (fuel + 1) cs = some (arr (item :: items), rest') := by
  rw [value?, hcs]
  dsimp only
  rw [if_neg (by decide), if_pos rfl, hmark]
  dsimp only
  rw [hitem, Option.bind_eq_bind, Option.bind_some]
  dsimp only
  rw [hitems]
  rfl

theorem value?_object {field : String × Json} {fields : List (String × Json)}
    (hcs : skipBlanks cs = '\x7b' :: tail) (hmark : mark? '\x7d' tail = none)
    (hfield : field? fuel tail = some (field, rest))
    (hfields : fields? fuel rest = some (fields, rest')) :
    value? (fuel + 1) cs = some (obj (field :: fields), rest') := by
  rw [value?, hcs]
  dsimp only
  rw [if_neg (by decide), if_neg (by decide), if_pos rfl, hmark]
  dsimp only
  rw [hfield, Option.bind_eq_bind, Option.bind_some]
  dsimp only
  rw [hfields]
  rfl

theorem items?_cons {item : Json} {items : List Json}
    (hitem : value? fuel tail = some (item, rest))
    (hitems : items? fuel rest = some (items, rest')) :
    items? (fuel + 1) (',' :: tail) = some (item :: items, rest') := by
  rw [items?, mark?_cons _ (by decide), if_neg (by decide), mark?_cons _ (by decide), if_pos rfl]
  dsimp only
  rw [Option.bind_eq_bind, Option.bind_some, hitem, Option.bind_eq_bind, Option.bind_some]
  dsimp only
  rw [hitems]
  rfl

theorem fields?_cons {field : String × Json} {fields : List (String × Json)}
    (hfield : field? fuel tail = some (field, rest))
    (hfields : fields? fuel rest = some (fields, rest')) :
    fields? (fuel + 1) (',' :: tail) = some (field :: fields, rest') := by
  rw [fields?, mark?_cons _ (by decide), if_neg (by decide), mark?_cons _ (by decide), if_pos rfl]
  dsimp only
  rw [Option.bind_eq_bind, Option.bind_some, hfield, Option.bind_eq_bind, Option.bind_some]
  dsimp only
  rw [hfields]
  rfl

end Steps

mutual

/-- A document is read back from its written form, whatever follows it. -/
theorem value?_write (j : Json) {depth fuel : Nat} {cs rest : List Char}
    (hcs : skipBlanks cs = write depth j ++ rest) (hfuel : (write depth j).length ≤ fuel)
    (hrest : EndsNumber rest) : value? fuel cs = some (j, rest) := by
  obtain ⟨c, cs', hwrite, -⟩ := write_head depth j
  cases fuel with
  | zero => rw [hwrite] at hfuel; cases hfuel
  | succ fuel =>
      match j with
      | .null | .bool true | .bool false | .arr [] | .obj [] =>
          rw [value?, hcs]
          rfl
      | .int i => exact value?_int hcs hrest
      | .str s =>
          rw [value?, hcs]
          change (string? (quote s ++ rest)).map _ = _
          rw [string?_quote]
          rfl
      | .arr (item :: items) =>
          have hlength : (write (depth + 1) item).length ≤ fuel ∧
              (writeItems (depth + 1) items).length < fuel := by
            simp [write, newline] at hfuel
            omega
          have hsplit : write depth (.arr (item :: items)) ++ rest =
              '[' :: (newline (depth + 1) ++ (write (depth + 1) item ++
                (writeItems (depth + 1) items ++ (newline depth ++ ']' :: rest)))) := by
            simp [write]
          obtain ⟨c, cs, hhead, hc, hne⟩ := write_head (depth + 1) item
          have hmark : mark? ']' (newline (depth + 1) ++ (write (depth + 1) item ++
              (writeItems (depth + 1) items ++ (newline depth ++ ']' :: rest)))) = none := by
            rw [mark?_newline, hhead, List.cons_append, mark?_cons _ hc, if_neg hne]
          exact value?_array (hcs.trans hsplit) hmark
            (value?_write item (skipBlanks_newline_write ..) hlength.1
              (endsNumber_writeItems _ _ _ _))
            (items?_writeItems items hlength.2)
      | .obj ((key, value) :: fields) =>
          have hlength : (write (depth + 1) value).length < fuel ∧
              (writeFields (depth + 1) fields).length < fuel := by
            simp [write, newline] at hfuel
            omega
          have hsplit : write depth (.obj ((key, value) :: fields)) ++ rest =
              '\x7b' :: (newline (depth + 1) ++ (quote key ++ ':' :: ' ' ::
                (write (depth + 1) value ++
                  (writeFields (depth + 1) fields ++ (newline depth ++ '\x7d' :: rest))))) := by
            simp [write]
          exact value?_object (hcs.trans hsplit)
            ((mark?_newline ..).trans (mark?_quote (by decide) ..))
            (field?_write key value (skipBlanks_newline_quote ..) hlength.1
              (endsNumber_writeFields _ _ _ _))
            (fields?_writeFields fields hlength.2)
termination_by fuel

theorem items?_writeItems (items : List Json) {depth outer fuel : Nat} {rest : List Char}
    (hfuel : (writeItems depth items).length < fuel) :
    items? fuel (writeItems depth items ++ (newline outer ++ ']' :: rest)) =
      some (items, rest) := by
  cases fuel with
  | zero => cases hfuel
  | succ fuel =>
      match items with
      | [] =>
          rw [items?, writeItems, List.nil_append, mark?_newline, mark?_cons _ (by decide),
            if_pos rfl]
      | item :: items =>
          have hlength : (write depth item).length ≤ fuel ∧
              (writeItems depth items).length < fuel := by
            simp [writeItems, newline] at hfuel
            omega
          have hsplit : writeItems depth (item :: items) ++ (newline outer ++ ']' :: rest) =
              ',' :: (newline depth ++ (write depth item ++
                (writeItems depth items ++ (newline outer ++ ']' :: rest)))) := by
            simp [writeItems]
          rw [hsplit]
          exact items?_cons
            (value?_write item (skipBlanks_newline_write ..) hlength.1
              (endsNumber_writeItems _ _ _ _))
            (items?_writeItems items hlength.2)
termination_by fuel

theorem field?_write (key : String) (value : Json) {depth fuel : Nat} {cs rest : List Char}
    (hcs : skipBlanks cs = quote key ++ ':' :: ' ' :: (write depth value ++ rest))
    (hfuel : (write depth value).length < fuel) (hrest : EndsNumber rest) :
    field? fuel cs = some ((key, value), rest) := by
  cases fuel with
  | zero => cases hfuel
  | succ fuel =>
      rw [field?, hcs, string?_quote, Option.bind_eq_bind, Option.bind_some]
      dsimp only
      have hvalue : skipBlanks (' ' :: (write depth value ++ rest)) = write depth value ++ rest :=
        skipBlanks_write depth value rest
      rw [mark?_cons _ (by decide), if_pos rfl, Option.bind_eq_bind, Option.bind_some,
        value?_write value hvalue (Nat.le_of_lt_succ hfuel) hrest]
      rfl
termination_by fuel

theorem fields?_writeFields (fields : List (String × Json)) {depth outer fuel : Nat}
    {rest : List Char} (hfuel : (writeFields depth fields).length < fuel) :
    fields? fuel (writeFields depth fields ++ (newline outer ++ '\x7d' :: rest)) =
      some (fields, rest) := by
  cases fuel with
  | zero => cases hfuel
  | succ fuel =>
      match fields with
      | [] =>
          rw [fields?, writeFields, List.nil_append, mark?_newline, mark?_cons _ (by decide),
            if_pos rfl]
      | (key, value) :: fields =>
          have hlength : (write depth value).length < fuel ∧
              (writeFields depth fields).length < fuel := by
            simp [writeFields, newline] at hfuel
            omega
          have hsplit : writeFields depth ((key, value) :: fields) ++
              (newline outer ++ '\x7d' :: rest) =
              ',' :: (newline depth ++ (quote key ++ ':' :: ' ' :: (write depth value ++
                (writeFields depth fields ++ (newline outer ++ '\x7d' :: rest))))) := by
            simp [writeFields]
          rw [hsplit]
          exact fields?_cons
            (field?_write key value (skipBlanks_newline_quote ..) hlength.1
              (endsNumber_writeFields _ _ _ _))
            (fields?_writeFields fields hlength.2)
termination_by fuel

end

end Reader

theorem read?_render (j : Json) : read? (j.render ++ "\n") = some j := by
  have htext : (j.render ++ "\n").toList = write 0 j ++ ['\n'] := by
    rw [String.toList_append, render, String.toList_ofList]
    rfl
  have hvalue : Reader.value? ((write 0 j ++ ['\n']).length + 1) (write 0 j ++ ['\n']) =
      some (j, ['\n']) :=
    Reader.value?_write j (Reader.skipBlanks_write 0 j _) (by rw [List.length_append]; omega)
      (by intro c hc; cases hc; rfl)
  rw [read?, htext, hvalue]
  rfl

end ColorCensus.Json
