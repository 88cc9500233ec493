import ColorCensus.Disk.Basic

/-!
# Trees of files

A disk given by its files and its directories, all by their canonical paths; whatever is above
one of them is a directory too. A path is followed step by step: every step but the last has to
reach a directory, also one that is left again by the next step. No directory can be asked for a
name of more than 255 bytes, and no path of more than 4095 bytes is followed at all.
-/

namespace ColorCensus

structure Tree where
  files : List (Path × List UInt8) := []
  directories : List Path := []

namespace Tree

inductive Place where
  | file (bytes : List UInt8)
  | directory

def Place.kind : Place → Disk.Kind
  | file _ => .file
  | directory => .directory

def isAbove (p q : Path) : Bool := (p.below? q).isSome

/-- What stands at a canonical path. -/
def placeAt? (t : Tree) (p : Path) : Option Place :=
  match t.files.lookup p with
  | some bytes => some (.file bytes)
  | none =>
      if p.names.isEmpty || t.directories.any (isAbove p) || t.files.any (isAbove p ·.1) then
        some .directory
      else none

def nameLimit : Nat := 255

def pathLimit : Nat := 4095

/-- What is reached from a canonical path by some steps; nothing can be told if one of them is too
long for the directory in which it is taken. -/
def follow (t : Tree) (here : Path) : List Path.Name → Except Unit (Option Place)
  | [] => .ok (t.placeAt? here)
  | n :: rest =>
      match t.placeAt? here with
      | some .directory =>
          if nameLimit < Text.Utf8.size n.text then .error ()
          else follow t (if n.isParent then here.parent else ⟨here.root, here.names ++ [n]⟩) rest
      | _ => .ok none

def place (t : Tree) (current p : Path) : Except Disk.Fault (Option Place) :=
  let whole := current.join p
  if pathLimit < Text.Utf8.size p.text then .error (.tooLong p)
  else (t.follow ⟨whole.root, []⟩ whole.names).mapError fun _ => .tooLong p

def bytes (t : Tree) (current p : Path) : Except Disk.Fault (List UInt8) := do
  match ← t.place current p with
  | some (.file bytes) => .ok bytes
  | some .directory => .error (.notFile p)
  | none => .error (.missing p)

/-- Writes a file, in place of what it held before. -/
def write (t : Tree) (p : Path) (bytes : List UInt8) : Tree :=
  { files := t.files.filter (·.1 ≠ p) ++ [(p, bytes)], directories := p.parent :: t.directories }

/-- Removes a file; the directory it was in stays. -/
def remove (t : Tree) (p : Path) : Tree :=
  { files := t.files.filter (·.1 ≠ p), directories := p.parent :: t.directories }

/-- The disk that a tree is, at the moment of each question. -/
def disk {m : Type → Type} [Monad m] (tree : m Tree) (current : Path)
    (home? : List Char → Option Path) : Disk m where
  kind? p := ExceptT.mk do return ((← tree).place current p).map (·.map Place.kind)
  bytes p := ExceptT.mk do return (← tree).bytes current p
  current := current
  home? := home?

end Tree

end ColorCensus
