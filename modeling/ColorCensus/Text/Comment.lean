import ColorCensus.Text.Token

/-!
# Comments

Two readings of the same comments. The line reading works on single lines and drops comments:
a block comment has to close on its line, and `//` always opens a comment. The page reading
works on a whole text and blanks comments out: a block comment may span lines, every offset and
every newline stays where it is, and `//` right after a colon, a double or single quote or an
opening parenthesis is taken for part of an address.
-/

namespace ColorCensus.Text

/-- What follows the first `*/`; if `onLine`, a newline before it ends the search. -/
def afterClose? (onLine : Bool) : List Char → Option (List Char)
  | [] => none
  | '*' :: '/' :: rest => some rest
  | c :: rest => if onLine && c == '\n' then none else afterClose? onLine rest

def blockComment (onLine : Bool) : Recognizer Unit := fun _ cs => do
  let cs ← dropLiteral? ['/', '*'] cs
  let cs ← afterClose? onLine cs
  pure ((), cs)

/-- `//` up to the end of the last line; a newline that ends the text stays. -/
def trailingComment : Recognizer Unit := fun _ cs => do
  let cs ← dropLiteral? ['/', '/'] cs
  match cs.dropWhile (· != '\n') with
  | [] => pure ((), [])
  | ['\n'] => pure ((), ['\n'])
  | _ => none

/-- A line without its block comments and without its trailing comment. -/
def stripComments (line : List Char) : List Char :=
  overTokens trailingComment (fun _ => []) (overTokens (blockComment true) (fun _ => []) line)

/-- Characters before `//` that make it part of an address. -/
def opensAddress (c : Char) : Bool := c == ':' || c == '"' || c == '\'' || c == '('

/-- `//` up to the end of its line, unless it continues an address. -/
def lineComment : Recognizer Unit := fun before cs => do
  let cs ← dropLiteral? ['/', '/'] cs
  if before.any opensAddress then none else pure ((), cs.dropWhile (· != '\n'))

def blank (c : Char) : List Char := [if c == '\n' then '\n' else ' ']

/-- A text with its block comments and, if asked for, its line comments blanked out. -/
def maskComments (lineComments : Bool) (text : List Char) : List Char :=
  let masked := overTokens (blockComment false) blank text
  if lineComments then overTokens lineComment blank masked else masked

theorem length_overTokensFrom {α : Type} (r : Recognizer α) {f : Char → List Char}
    (hf : ∀ c, (f c).length = 1) (skip : Nat) (before : Option Char) (text : List Char) :
    (overTokensFrom r f skip before text).length = text.length := by
  fun_induction overTokensFrom r f skip before text with
  | case1 => rfl
  | case2 skip _ c rest ih => simp [hf, ih]; omega
  | case3 before c rest h ih => simp [ih]
  | case4 before c rest _ left h ih => simp [hf, ih]; omega

theorem length_maskComments (lineComments : Bool) (text : List Char) :
    (maskComments lineComments text).length = text.length := by
  have hb : ∀ c, (blank c).length = 1 := fun _ => rfl
  cases lineComments <;> simp [maskComments, overTokens, length_overTokensFrom _ hb]

theorem overTokensFrom_newlines {α : Type} (r : Recognizer α) (skip : Nat) (before : Option Char)
    (text : List Char) :
    (overTokensFrom r blank skip before text).map (· == '\n') = text.map (· == '\n') := by
  have hblank : ∀ c, (blank c).map (· == '\n') = [c == '\n'] := by
    intro c
    rw [blank]
    cases hc : c == '\n' with
    | true => rfl
    | false => rfl
  fun_induction overTokensFrom r blank skip before text with
  | case1 => rfl
  | case2 _ _ c rest ih => rw [List.map_append, ih, hblank, List.map_cons, List.singleton_append]
  | case3 before c rest _ ih => rw [List.map_cons, List.map_cons, ih]
  | case4 before c rest _ left _ ih =>
      rw [List.map_append, ih, hblank, List.map_cons, List.singleton_append]

theorem maskComments_newlines (lineComments : Bool) (text : List Char) :
    (maskComments lineComments text).map (· == '\n') = text.map (· == '\n') := by
  cases lineComments with
  | false => exact overTokensFrom_newlines _ 0 none text
  | true => exact (overTokensFrom_newlines _ 0 none _).trans (overTokensFrom_newlines _ 0 none text)

end ColorCensus.Text
