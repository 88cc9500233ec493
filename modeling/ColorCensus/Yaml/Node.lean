import ColorCensus.Yaml.Token

/-!
# Nodes of a YAML text

The tree that a sequence of tokens spells: scalars, sequences and mappings, each with the tag it
was given, if any. Names are gone from the tree: an alias is the node it stands for, and where a
collection contains itself, copies of it stand in it for a few levels (`unroll`). The readers go
down one level of `fuel` for each node and each item, and every one of these has a token of its
own or stands in front of one, so three levels for each token are enough.
-/

namespace ColorCensus.Yaml

/-- What the tags of the common kinds of values begin with. -/
def coreTag : List Char := "tag:yaml.org,2002:".toList

inductive Node where
  /-- A scalar; one without a tag means what its content looks like if it is plain. -/
  | scalar (tag : Option (List Char)) (content : List Char) (plain : Bool)
  | sequence (tag : Option (List Char)) (items : List Node)
  | mapping (tag : Option (List Char)) (pairs : List (Node × Node))
  /-- A collection referred to from inside itself, by its name. -/
  | enclosing (name : List Char)

namespace Node

def empty : Node := scalar none [] true

/-- What is written in front of a node. -/
structure Properties where
  anchor : Option (List Char) := none
  /-- The tag in full. -/
  tag : Option (List Char) := none
  /-- Whether the node is to be taken by its looks, even in quotes. -/
  nonSpecific : Bool := false

namespace Properties

def isNone (p : Properties) : Bool := p.anchor.isNone && p.tag.isNone && !p.nonSpecific

def withTag (p : Properties) (handle : Option (List Char)) (suffix : List Char) :
    Except Problem Properties :=
  match handle with
  | none =>
      .ok (if suffix == ['!'] then { p with nonSpecific := true } else { p with tag := suffix })
  | some handle =>
      if handle == ['!'] then .ok { p with tag := some ('!' :: suffix) }
      else if handle == ['!', '!'] then .ok { p with tag := coreTag ++ suffix }
      else .error .unknownTag

/-- An anchor and a tag, in either order. -/
def take : List Token → Except Problem (Properties × List Token)
  | .anchor name :: .tag handle suffix :: rest
  | .tag handle suffix :: .anchor name :: rest =>
      (withTag { anchor := some name } handle suffix).map (·, rest)
  | .tag handle suffix :: rest => (withTag {} handle suffix).map (·, rest)
  | .anchor name :: rest => .ok ({ anchor := some name }, rest)
  | rest => .ok ({}, rest)

end Properties

/-- The tokens still to be read and the nodes named so far. -/
structure State where
  tokens : List Token
  named : List (List Char × Node) := []

namespace State

def name (s : State) (anchor : Option (List Char)) (n : Node) : State :=
  match anchor with
  | some a => { s with named := (a, n) :: s.named }
  | none => s

end State

def endsEntry : Token → Bool
  | .entry | .blockEnd => true
  | _ => false

def endsBlockPart : Token → Bool
  | .key | .value | .blockEnd => true
  | _ => false

def endsFlowPart : Token → Bool
  | .value | .comma | .flowSequenceEnd | .flowMappingEnd => true
  | _ => false

/-- A node read by `read`, or the empty one where a token comes that ends the place for it. -/
def orEmpty (ends : Token → Bool) (read : State → Except Problem (Node × State)) (s : State) :
    Except Problem (Node × State) :=
  if s.tokens.head?.any ends then .ok (empty, s) else read s

/-- The value of a pair, if there is one. -/
def valueOrEmpty (ends : Token → Bool) (read : State → Except Problem (Node × State))
    (s : State) : Except Problem (Node × State) :=
  match s.tokens with
  | .value :: rest => orEmpty ends read { s with tokens := rest }
  | _ => .ok (empty, s)

/-- The tokens after the comma that parts an item in brackets from the one before it; no comma
is due in front of the first item and of the closing bracket. -/
def afterComma (first : Bool) : List Token → Option (List Token)
  | .comma :: rest => some (if first then .comma :: rest else rest)
  | .flowSequenceEnd :: rest => some (.flowSequenceEnd :: rest)
  | .flowMappingEnd :: rest => some (.flowMappingEnd :: rest)
  | tokens => if first then some tokens else none

mutual

/-- A node. In a block it may be a block collection, and as part of a mapping also a sequence
that is not indented. -/
def read : Nat → (inBlock : Bool) → (inMapping : Bool) → State → Except Problem (Node × State)
  | 0, _, _, _ => .error .stuck
  | fuel + 1, inBlock, inMapping, s =>
      match s.tokens with
      | .alias name :: rest =>
          match s.named.lookup name with
          | some n => .ok (n, { s with tokens := rest })
          | none => .error .unknownAlias
      | tokens => do
          let (p, tokens) ← Properties.take tokens
          if p.anchor.any fun a => s.named.any (·.1 == a) then throw .repeatedAnchor
          let inside (rest : List Token) := { s with tokens := rest }.name p.anchor
            (.enclosing (p.anchor.getD []))
          let sequence (r : List Node × State) := (Node.sequence p.tag r.1, r.2)
          let mapping (r : List (Node × Node) × State) := (Node.mapping p.tag r.1, r.2)
          let (n, s) ← match tokens, inBlock, inMapping with
            | .scalar content plain :: rest, _, _ =>
                pure (.scalar p.tag content (plain || p.nonSpecific), { s with tokens := rest })
            | .flowSequence :: rest, _, _ => (flowItems fuel true (inside rest)).map sequence
            | .flowMapping :: rest, _, _ => (flowPairs fuel true (inside rest)).map mapping
            | .blockSequence :: rest, true, _ => (blockItems fuel (inside rest)).map sequence
            | .blockMapping :: rest, true, _ => (blockPairs fuel (inside rest)).map mapping
            | .entry :: _, _, true => (openItems fuel (inside tokens)).map sequence
            | _, _, _ =>
                if p.isNone then .error .unexpectedToken
                else pure (.scalar p.tag [] true, { s with tokens := tokens })
          pure (n, s.name p.anchor n)

/-- The items of an indented sequence. -/
def blockItems : Nat → State → Except Problem (List Node × State)
  | 0, _ => .error .stuck
  | fuel + 1, s =>
      match s.tokens with
      | .entry :: rest => do
          let (item, s) ← orEmpty endsEntry (read fuel true false) { s with tokens := rest }
          let (items, s) ← blockItems fuel s
          pure (item :: items, s)
      | .blockEnd :: rest => .ok ([], { s with tokens := rest })
      | _ => .error .unexpectedToken

/-- The items of a sequence that is not indented and ends where its entries end. -/
def openItems : Nat → State → Except Problem (List Node × State)
  | 0, _ => .error .stuck
  | fuel + 1, s =>
      match s.tokens with
      | .entry :: rest => do
          let (item, s) ← orEmpty (fun t => endsEntry t || endsBlockPart t) (read fuel true false)
            { s with tokens := rest }
          let (items, s) ← openItems fuel s
          pure (item :: items, s)
      | _ => .ok ([], s)

/-- The pairs of an indented mapping. -/
def blockPairs : Nat → State → Except Problem (List (Node × Node) × State)
  | 0, _ => .error .stuck
  | fuel + 1, s =>
      match s.tokens with
      | .key :: rest => do
          let (key, s) ← orEmpty endsBlockPart (read fuel true true) { s with tokens := rest }
          let (value, s) ← valueOrEmpty endsBlockPart (read fuel true true) s
          let (pairs, s) ← blockPairs fuel s
          pure ((key, value) :: pairs, s)
      | .blockEnd :: rest => .ok ([], { s with tokens := rest })
      | _ => .error .unexpectedToken

/-- The items of a sequence in brackets; a pair among them is a mapping of its own. -/
def flowItems : Nat → (first : Bool) → State → Except Problem (List Node × State)
  | 0, _, _ => .error .stuck
  | fuel + 1, first, s =>
      match afterComma first s.tokens with
      | none => .error .unexpectedToken
      | some (.flowSequenceEnd :: rest) => .ok ([], { s with tokens := rest })
      | some (.key :: rest) => do
          let (key, s) ← orEmpty endsFlowPart (read fuel false false) { s with tokens := rest }
          let (value, s) ← valueOrEmpty endsFlowPart (read fuel false false) s
          let (items, s) ← flowItems fuel false s
          pure (.mapping none [(key, value)] :: items, s)
      | some tokens => do
          let (item, s) ← read fuel false false { s with tokens }
          let (items, s) ← flowItems fuel false s
          pure (item :: items, s)

/-- The pairs of a mapping in braces; a node without a key's mark is a key without a value. -/
def flowPairs : Nat → (first : Bool) → State → Except Problem (List (Node × Node) × State)
  | 0, _, _ => .error .stuck
  | fuel + 1, first, s =>
      match afterComma first s.tokens with
      | none => .error .unexpectedToken
      | some (.flowMappingEnd :: rest) => .ok ([], { s with tokens := rest })
      | some (.key :: rest) => do
          let (key, s) ← orEmpty endsFlowPart (read fuel false false) { s with tokens := rest }
          let (value, s) ← valueOrEmpty endsFlowPart (read fuel false false) s
          let (pairs, s) ← flowPairs fuel false s
          pure ((key, value) :: pairs, s)
      | some tokens => do
          let (key, s) ← read fuel false false { s with tokens }
          let (pairs, s) ← flowPairs fuel false s
          pure ((key, empty) :: pairs, s)

end

/-! ## Collections that contain themselves -/

mutual

/-- Puts a node in place of each reference from inside. -/
def substitute (f : List Char → Node) : Node → Node
  | .scalar tag content plain => .scalar tag content plain
  | .sequence tag items => .sequence tag (substituteItems f items)
  | .mapping tag pairs => .mapping tag (substitutePairs f pairs)
  | .enclosing name => f name

def substituteItems (f : List Char → Node) : List Node → List Node
  | [] => []
  | n :: rest => substitute f n :: substituteItems f rest

def substitutePairs (f : List Char → Node) : List (Node × Node) → List (Node × Node)
  | [] => []
  | (k, v) :: rest => (substitute f k, substitute f v) :: substitutePairs f rest

end

/-- Puts copies of the collections in place of the references to them from inside, and in place of
those in the copies, as many times as there are `levels`. -/
def unroll (named : List (List Char × Node)) : (levels : Nat) → Node → Node
  | 0, n => n
  | levels + 1, n => n.substitute fun name =>
      ((named.lookup name).map (unroll named levels)).getD (.enclosing name)

/-- How far down collections that contain themselves are followed. Settings are three levels deep:
a section, a field of it, and the parts of the field, of which only scalars count; a reference from
inside is at least one level down to begin with. -/
def levels : Nat := 2

/-- The root of the document in a text; nothing if there is no document. -/
def ofTokens? (tokens : List Token) : Except Problem (Option Node) :=
  let document (tokens : List Token) : Except Problem (Option Node) := do
    let (root, s) ← read (3 * tokens.length + 3) true false { tokens }
    if s.tokens.all (· == .documentEnd) then pure (some (root.unroll s.named levels))
    else .error .secondDocument
  match tokens with
  | [] => .ok none
  | .documentStart :: rest =>
      match rest with
      | .documentStart :: _ => .error .secondDocument
      | [] | .documentEnd :: _ =>
          if rest.all (· == .documentEnd) then .ok (some empty) else .error .secondDocument
      | _ => document rest
  | _ => document tokens

/-- The root of the document in a text; nothing if there is no document. -/
def ofText? (cs : List Char) : Except Problem (Option Node) := do ofTokens? (← Token.ofText cs)

end Node

end ColorCensus.Yaml
