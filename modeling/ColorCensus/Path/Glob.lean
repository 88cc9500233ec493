import ColorCensus.Text.Token

/-!
# Glob patterns

A pattern is matched against a whole text: `*` stands for any run of characters, `?` for any
one, and `[…]` for one of a set. A set is a list of closed intervals and may be negated by `!`;
a `]` right after the opening is a member, an interval whose ends are out of order is empty, and
a `[` that is never closed stands for itself.
-/

namespace ColorCensus.Path.Glob

open Text

inductive Piece where
  | star
  | any
  | one (c : Char)
  | oneOf (negated : Bool) (intervals : List (Char × Char))
deriving Repr

def Piece.accepts (c : Char) : Piece → Bool
  | star => false
  | any => true
  | one d => c == d
  | oneOf negated intervals => (intervals.any fun i => i.1 ≤ c && c ≤ i.2) != negated

/-- The members of a set; a dash between two characters makes an interval. -/
def intervals : List Char → List (Char × Char)
  | a :: '-' :: b :: rest => (a, b) :: intervals rest
  | a :: rest => (a, a) :: intervals rest
  | [] => []

/-- The text up to the next `]`, and what follows it. -/
def upToBracket? (cs : List Char) : Option (List Char × List Char) :=
  match cs.dropWhile (· != ']') with
  | [] => none
  | _ :: after => some (cs.takeWhile (· != ']'), after)

/-- The members of the set at hand, and what follows its closing `]`. -/
def takeMembers? : List Char → Option (List Char × List Char)
  | ']' :: rest => (upToBracket? rest).map fun (members, after) => (']' :: members, after)
  | cs => upToBracket? cs

/-- The set that starts after a `[`, and what follows it. -/
def takeSet? : List Char → Option (Piece × List Char)
  | '!' :: rest =>
      (takeMembers? rest).map fun (members, after) => (.oneOf true (intervals members), after)
  | cs => (takeMembers? cs).map fun (members, after) => (.oneOf false (intervals members), after)

/-- The pieces of a pattern, whose first `skip` characters belong to a set already taken. -/
def piecesFrom : Nat → List Char → List Piece
  | _, [] => []
  | skip + 1, _ :: rest => piecesFrom skip rest
  | 0, c :: rest =>
      if c == '*' then .star :: piecesFrom 0 rest
      else if c == '?' then .any :: piecesFrom 0 rest
      else if c == '[' then
        match takeSet? rest with
        | some (set, after) => set :: piecesFrom (consumed rest after) rest
        | none => .one c :: piecesFrom 0 rest
      else .one c :: piecesFrom 0 rest

def pieces (pattern : List Char) : List Piece := piecesFrom 0 pattern

/-- Whether the pieces match a whole text. -/
def accepts : List Piece → List Char → Bool
  | [], cs => cs.isEmpty
  | .star :: ps, cs => anywhere (accepts ps) cs
  | p :: ps, cs =>
      match cs with
      | [] => false
      | c :: rest => p.accepts c && accepts ps rest

/-- Whether a text matches a pattern. -/
def isMatch (pattern cs : List Char) : Bool := accepts (pieces pattern) cs

end ColorCensus.Path.Glob
