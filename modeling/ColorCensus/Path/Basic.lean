import ColorCensus.Text.Split

/-!
# Paths

A path is what it starts with and the names on the way. A path never holds an empty name or a
`.`, so two spellings that differ in repeated slashes or dots are one path; `..` stays, because
only an absolute path may drop it. A path that starts with exactly two slashes is not the one
that starts with a single slash; three or more slashes count as one.
-/

namespace ColorCensus

/-- A step of a path. -/
structure Path.Name where
  text : List Char
  ne_nil : text ≠ []
  ne_dot : text ≠ ['.']
  no_slash : '/' ∉ text
deriving DecidableEq

inductive Path.Root where
  | relative
  | slash
  | twoSlashes
deriving DecidableEq

structure Path where
  root : Path.Root
  names : List Path.Name
deriving DecidableEq

namespace Path

open Text

namespace Name

/-- The name spelled by a piece between slashes, unless it is a step to nowhere. -/
def ofPiece? (piece : List Char) : Option Name :=
  if h : piece ≠ [] ∧ piece ≠ ['.'] ∧ '/' ∉ piece then some ⟨piece, h.1, h.2.1, h.2.2⟩ else none

def isParent (n : Name) : Bool := n.text == ['.', '.']

/-- The last dot and what follows it, unless the dot is the first or the last character. -/
def suffix (n : Name) : List Char :=
  let tail := (n.text.reverse.takeWhile (· != '.')).reverse
  if tail.length + 1 < n.text.length ∧ tail ≠ [] then '.' :: tail else []

theorem ofPiece?_text (n : Name) : ofPiece? n.text = some n := by
  have h : n.text ≠ [] ∧ n.text ≠ ['.'] ∧ '/' ∉ n.text := ⟨n.ne_nil, n.ne_dot, n.no_slash⟩
  simp [ofPiece?, h]

end Name

def Root.text : Root → List Char
  | relative => []
  | slash => ['/']
  | twoSlashes => ['/', '/']

def Root.ofText (cs : List Char) : Root :=
  match (cs.takeWhile (· == '/')).length with
  | 0 => relative
  | 2 => twoSlashes
  | _ => slash

def ofText (cs : List Char) : Path := ⟨.ofText cs, (splitOn '/' cs).filterMap Name.ofPiece?⟩

def ofString (s : String) : Path := ofText s.toList

/-- The shortest spelling of a path; that of no steps at all is `.`. -/
def text (p : Path) : List Char :=
  match p.root, p.names with
  | .relative, [] => ['.']
  | root, names => root.text ++ joinWith '/' (names.map Name.text)

def toString (p : Path) : String := String.ofList p.text

def isAbsolute (p : Path) : Bool := p.root != .relative

/-- A path seen from another: an absolute one stays what it is. -/
def join (base p : Path) : Path := if p.isAbsolute then p else ⟨base.root, base.names ++ p.names⟩

def parent (p : Path) : Path := ⟨p.root, p.names.dropLast⟩

/-- A path and all paths above it, nearest first. -/
def selfAndAbove (p : Path) : List Path :=
  (List.range (p.names.length + 1)).map fun k => ⟨p.root, p.names.take (p.names.length - k)⟩

def name (p : Path) : List Char := (p.names.getLast?.map Name.text).getD []

def suffix (p : Path) : List Char := (p.names.getLast?.map Name.suffix).getD []

/-- The path whose spelling continues that of `p`. -/
def continued (p : Path) (tail : String) : Path := ofText (p.text ++ tail.toList)

/-- Steps up are taken back together with the step before; above the root they vanish. -/
def settle (done : List Name) : List Name → List Name
  | [] => done.reverse
  | n :: names => if n.isParent then settle done.tail names else settle (n :: done) names

/-- The canonical form of an absolute path: its steps without any step up. -/
def canonical (p : Path) : Path := ⟨p.root, settle [] p.names⟩

/-- The steps from a directory down to a path, if the path is the directory or below it. -/
def below? (directory p : Path) : Option (List Name) :=
  if directory.root = p.root ∧ directory.names <+: p.names then
    some (p.names.drop directory.names.length)
  else none

/-- How a path is named in reports: from the workspace, or in full when it is outside. -/
def label (workspace p : Path) : String :=
  match workspace.below? p with
  | some names => toString ⟨.relative, names⟩
  | none => p.toString

theorem isParent_of_mem_settle {done names : List Name} (hdone : ∀ n ∈ done, n.isParent = false)
    {n : Name} (h : n ∈ settle done names) : n.isParent = false := by
  induction names generalizing done with
  | nil => exact hdone n (by simpa [settle] using h)
  | cons m ms ih =>
      rw [settle] at h
      split at h
      · exact ih (fun k hk => hdone k (List.mem_of_mem_tail hk)) h
      · next hm =>
          refine ih (fun k hk => ?_) h
          rcases List.mem_cons.mp hk with rfl | hk
          · simpa using hm
          · exact hdone k hk

theorem settle_eq_append {done names : List Name} (h : ∀ n ∈ names, n.isParent = false) :
    settle done names = done.reverse ++ names := by
  induction names generalizing done with
  | nil => simp [settle]
  | cons m ms ih =>
      have hm : m.isParent = false := h m List.mem_cons_self
      rw [settle, if_neg (by simp [hm]), ih fun n hn => h n (List.mem_cons_of_mem _ hn)]
      simp

theorem canonical_canonical (p : Path) : p.canonical.canonical = p.canonical := by
  have h : ∀ n ∈ settle [] p.names, n.isParent = false :=
    fun n hn => isParent_of_mem_settle (by simp) hn
  simp [canonical, settle_eq_append h]

end Path

end ColorCensus
