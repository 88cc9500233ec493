import ColorCensus.Command.Run

/-!
# The arguments of a scan

What the program makes of a root and a workspace in full and, perhaps, a cap: a scan of just
these. A cap of more than 4300 digits is no integer to it, so it is told as a misuse.
-/

namespace ColorCensus

open Text

/-! ## Caps -/

namespace Number

theorem toNat_of_isDigit {c : Char} (h : c.isDigit = true) : 48 ≤ c.toNat ∧ c.toNat ≤ 57 := by
  rw [Char.isDigit, Bool.and_eq_true, decide_eq_true_iff, decide_eq_true_iff] at h
  exact h

theorem digit?_of_isDigit {c : Char} (h : c.isDigit = true) :
    digit? c = some (c.toNat - '0'.toNat) := by
  have hbounds := toNat_of_isDigit h
  rw [digit?, if_pos (by omega), if_pos (by omega)]
  rfl

theorem isPadding_of_isDigit {c : Char} (h : c.isDigit = true) : isPadding c = false := by
  have hbounds := toNat_of_isDigit h
  have hblank : isBlank c = false := by
    rw [isBlank, if_pos (by omega)]
    simp
    omega
  rw [isPadding, hblank, Bool.false_and]

theorem mapM_digit? {cs : List Char} (h : ∀ c ∈ cs, c.isDigit = true) :
    cs.mapM digit? = some (cs.map fun c => c.toNat - '0'.toNat) := by
  induction cs with
  | nil => rfl
  | cons c cs ih =>
      obtain ⟨hc, hcs⟩ := List.forall_mem_cons.mp h
      rw [List.mapM_cons, digit?_of_isDigit hc, ih hcs]
      rfl

theorem ofDigits_map (cs : List Char) :
    ofDigits 10 (cs.map fun c => c.toNat - '0'.toNat) = Nat.ofDigitChars 10 cs 0 := by
  rw [ofDigits, List.foldl_map, Nat.ofDigitChars_eq_foldl]
  congr 1
  funext n c
  rw [Nat.mul_comm]

theorem natural?_digits {cs : List Char} (hdigit : ∀ c ∈ cs, c.isDigit = true) (hne : cs ≠ []) :
    natural? cs = if cs.length ≤ maxDigits then some (Nat.ofDigitChars 10 cs 0) else none := by
  have hsplit : splitOn '_' cs = [cs] := splitOn_of_not_mem fun h => by cases hdigit '_' h
  have hempty : cs.isEmpty = false := Bool.eq_false_iff.mpr fun h => hne (List.isEmpty_iff.mp h)
  rw [natural?, hsplit]
  simp only [List.any_cons, hempty, List.any_nil, Bool.or_self, Bool.false_eq_true, if_false,
    List.flatten_cons, List.flatten_nil, List.append_nil, mapM_digit? hdigit,
    Option.bind_eq_bind, Option.bind_some, List.length_map, ofDigits_map]
  rfl

theorem dropWhile_isPadding {cs : List Char} (hdigit : ∀ c ∈ cs, c.isDigit = true) :
    cs.dropWhile isPadding = cs := by
  cases cs with
  | nil => rfl
  | cons c cs =>
      have hc := isPadding_of_isDigit (hdigit c List.mem_cons_self)
      rw [List.dropWhile_cons_of_neg (by rw [hc]; decide)]

theorem dropPadding {cs : List Char} (hdigit : ∀ c ∈ cs, c.isDigit = true) :
    dropEndWhile isPadding (cs.dropWhile isPadding) = cs := by
  rw [dropWhile_isPadding hdigit, dropEndWhile,
    dropWhile_isPadding fun c hc => hdigit c (List.mem_reverse.mp hc), List.reverse_reverse]

theorem length_toDigits_le_iff (n : Nat) :
    (Nat.toDigits 10 n).length ≤ maxDigits ↔ n < tooLong := by
  have hlength {k : Nat} (hk : 0 < k) : (Nat.toDigits 10 n).length ≤ k ↔ n < Nat.pow 10 k :=
    Nat.length_toDigits_le_iff (by decide) hk
  unfold tooLong
  exact @hlength maxDigits (by decide)

theorem integer?_toString (n : Nat) :
    integer? (toString n).toList = if n < tooLong then some (n : Int) else none := by
  have hdigit : ∀ c ∈ Nat.toDigits 10 n, c.isDigit = true := fun c hc =>
    Nat.isDigit_of_mem_toDigits (by decide) (by decide) hc
  have hne : Nat.toDigits 10 n ≠ [] := Nat.toDigits_ne_nil
  have hpadding : dropEndWhile isPadding ((Nat.toDigits 10 n).dropWhile isPadding) =
      Nat.toDigits 10 n := dropPadding hdigit
  rw [Nat.toString_eq_ofList_toDigits, String.toList_ofList, integer?, hpadding]
  split
  · next heq => cases hdigit '-' (by rw [heq]; exact List.mem_cons_self)
  · next heq => cases hdigit '+' (by rw [heq]; exact List.mem_cons_self)
  · have hlength := length_toDigits_le_iff n
    rw [natural?_digits hdigit hne, Nat.ofDigitChars_toDigits (by decide) (by decide)]
    cases Nat.lt_or_ge n tooLong with
    | inl h =>
        rw [if_pos (hlength.mpr h), if_pos h]
        rfl
    | inr h =>
        rw [if_neg (mt hlength.mp (Nat.not_lt.mpr h)), if_neg (Nat.not_lt.mpr h)]
        rfl

end Number

/-! ## Arguments -/

namespace Command

namespace Grammar

variable {g : Grammar} {arg : List Char} {args : List (List Char)}

theorem looks_operand {c : Char} {cs : List Char} (hc : c ≠ '-') :
    g.looks (c :: cs) = .ok .operand := by
  unfold looks
  split
  · next heq => exact absurd (List.cons.inj heq).1 hc
  · rfl

theorem pieces_cons {piece : Piece} {rest : List (List Char × Piece)} (harg : arg ≠ ['-', '-'])
    (hlooks : g.looks arg = .ok piece) (hrest : g.pieces args = .ok rest) :
    g.pieces (arg :: args) = .ok ((arg, piece) :: rest) := by
  rw [pieces, if_neg (by simpa using harg), hlooks, hrest]
  rfl

theorem exists_pieces (h : ∀ arg ∈ args, arg ≠ ['-', '-'] ∧ ∃ piece, g.looks arg = .ok piece) :
    ∃ rest, g.pieces args = .ok rest ∧ rest.map (·.1) = args := by
  induction args with
  | nil => exact ⟨[], rfl, rfl⟩
  | cons arg args ih =>
      obtain ⟨⟨harg, piece, hlooks⟩, hargs⟩ := List.forall_mem_cons.mp h
      obtain ⟨rest, hrest, hmap⟩ := ih hargs
      exact ⟨_, pieces_cons harg hlooks hrest, by rw [List.map_cons, hmap]⟩

variable {σ : Type} {take : σ → Found → Except Stop σ} {s : σ} {due : Operands} {f : Flag}
  {value : List Char} {rest : List (List Char × Piece)}

theorem walk_value (hf : f.takesValue = true) :
    g.walk take due s ((arg, .flag (some ⟨f, false, none⟩)) :: (value, .operand) :: rest) =
      (take s (.value f value)).bind fun s => g.walk take due s rest := by
  have hread : g.readFlag ⟨f, false, none⟩ ((value, .operand) :: rest) =
      .ok (([.value f value], []), rest) := by
    unfold readFlag
    rw [if_pos hf]
  rw [walk]
  split
  · next heq => rw [hread] at heq; cases heq
  · next heq =>
      rw [hread] at heq
      cases heq
      rw [List.foldlM_cons]
      cases take s (.value f value) with
      | error e => rfl
      | ok s =>
          change Except.map _ (g.walk take due s rest) = g.walk take due s rest
          cases g.walk take due s rest <;> rfl

theorem walk_operand :
    g.walk take .one s ((arg, .operand) :: rest) =
      (take s (.operand arg [])).bind fun s => g.walk take .none s (dropSeparator rest) := by
  rw [walk]
  cases take s (.operand arg []) <;> rfl

theorem walk_command :
    g.walk take .command s ((arg, .operand) :: rest) =
      (take s (.operand arg (rest.map (·.1)))).map fun s => ((s, .none), []) := by
  rw [walk]

end Grammar

/-- A scan gets everything after its name for itself, as long as all of it has some look. -/
theorem parse_scan {args : List String}
    (h : ∀ arg ∈ args.map String.toList, arg ≠ ['-', '-'] ∧
      ∃ piece, grammar.looks arg = .ok piece) {read : Except Stop Options}
    (hread : Verb.scan.grammar.read (Options.take Verb.scan.grammar) {} (args.map String.toList) =
      read.map fun o => ((o, .none), [])) :
    parse ("scan" :: args) = read.map fun o => ⟨o.verbose, false, .scan o.target⟩ := by
  obtain ⟨rest, hrest, hmap⟩ := Grammar.exists_pieces h
  have houter : grammar.read (Options.take grammar) {} (("scan" :: args).map String.toList) =
      .ok (({ operand := some "scan".toList, more := args.map String.toList }, .none), []) := by
    have hpieces : grammar.pieces (("scan" :: args).map String.toList) =
        .ok (("scan".toList, .operand) :: rest) := Grammar.pieces_cons (by decide) rfl hrest
    rw [Grammar.read, hpieces]
    change grammar.walk _ .command _ _ = _
    rw [Grammar.walk_command, hmap]
    rfl
  have hverb : Verb.ofName? (String.ofList "scan".toList) = some .scan := rfl
  rw [parse, houter]
  dsimp only [bind, Except.bind]
  rw [hverb]
  dsimp only
  rw [hread]
  cases read <;> rfl

/-- The arguments of a scan that answers in JSON. -/
def scanArguments (root workspace : String) (cap : Option Nat) : List String :=
  ["scan", root, "--workspace", workspace] ++
    (cap.map fun n => ["--max-files", toString n]).getD [] ++ ["--format", "json"]

def IsSlashed (s : String) : Prop := s.toList.head? = some '/'

/-- What a cap is on the command line. -/
def capOf (cap : Option Nat) : Except Stop (Option Int) :=
  match cap with
  | none => .ok none
  | some n => (Options.integer Verb.scan.grammar .maxFiles (toString n).toList).map some

/-- An argument that is a flag to no grammar. -/
def IsPlain (arg : List Char) : Prop := ∃ c cs, arg = c :: cs ∧ c ≠ '-'

theorem IsPlain.looks {arg : List Char} (h : IsPlain arg) (g : Grammar) :
    g.looks arg = .ok .operand := by
  obtain ⟨c, cs, rfl, hc⟩ := h
  exact Grammar.looks_operand hc

theorem IsPlain.ne_separator {arg : List Char} (h : IsPlain arg) : arg ≠ ['-', '-'] := by
  obtain ⟨c, cs, rfl, hc⟩ := h
  exact fun heq => hc (List.cons.inj heq).1

theorem isPlain_of_slashed {s : String} (h : IsSlashed s) : IsPlain s.toList := by
  unfold IsSlashed at h
  cases hs : s.toList with
  | nil => rw [hs] at h; cases h
  | cons c cs =>
      rw [hs] at h
      cases h
      exact ⟨_, _, rfl, by decide⟩

theorem isPlain_toString (n : Nat) : IsPlain (toString n).toList := by
  rw [Nat.toString_eq_ofList_toDigits, String.toList_ofList]
  obtain ⟨c, cs, hcs⟩ := List.exists_cons_of_ne_nil (Nat.toDigits_ne_nil (b := 10) (n := n))
  refine ⟨c, cs, hcs, ?_⟩
  rintro rfl
  cases Nat.isDigit_of_mem_toDigits (b := 10) (n := n) (c := '-') (by decide) (by decide)
    (by rw [hcs]; exact List.mem_cons_self)

/-- The options of a scan in JSON. -/
def scanOptions (root workspace : String) (cap : Option Int) : Options :=
  { operand := some root.toList, workspace := some workspace.toList, maxFiles := cap
    format := some .json }

theorem take_maxFiles (g : Grammar) (o : Options) (text : List Char) :
    Options.take g o (.value .maxFiles text) =
      (Options.integer g .maxFiles text).map fun i => { o with maxFiles := some i } := by
  change Options.integer g .maxFiles text >>= _ = _
  cases Options.integer g .maxFiles text <;> rfl

theorem pieces_format : Verb.scan.grammar.pieces ["--format".toList, "json".toList] =
    .ok [("--format".toList, .flag (some ⟨.format, false, none⟩)), ("json".toList, .operand)] :=
  rfl

theorem walk_format (o : Options) : Verb.scan.grammar.walk (Options.take Verb.scan.grammar) .none o
      [("--format".toList, .flag (some ⟨.format, false, none⟩)), ("json".toList, .operand)] =
    .ok (({ o with format := some .json }, .none), []) := by
  rw [Grammar.walk_value rfl]
  change Grammar.walk _ _ _ { o with format := some .json } [] = _
  rw [Grammar.walk]

section Scan

variable {root workspace : String}

theorem read_root (hroot : IsSlashed root) (hworkspace : IsSlashed workspace)
    {args : List (List Char)} {rest : List (List Char × Piece)}
    (hrest : Verb.scan.grammar.pieces args = .ok rest) :
    Verb.scan.grammar.read (Options.take Verb.scan.grammar) {}
        (root.toList :: "--workspace".toList :: workspace.toList :: args) =
      Verb.scan.grammar.walk (Options.take Verb.scan.grammar) .none
        { operand := some root.toList, workspace := some workspace.toList } rest := by
  have hrootPlain := isPlain_of_slashed hroot
  have hworkspacePlain := isPlain_of_slashed hworkspace
  rw [Grammar.read, Grammar.pieces_cons hrootPlain.ne_separator (hrootPlain.looks _)
    (Grammar.pieces_cons (by decide) rfl
      (Grammar.pieces_cons hworkspacePlain.ne_separator (hworkspacePlain.looks _) hrest))]
  change Grammar.walk _ _ .one _ _ = _
  rw [Grammar.walk_operand]
  change Grammar.walk _ _ .none ({ operand := some root.toList } : Options)
    (("--workspace".toList, .flag (some ⟨.workspace, false, none⟩)) ::
      (workspace.toList, .operand) :: rest) = _
  rw [Grammar.walk_value rfl]
  rfl

theorem read_scanArguments (hroot : IsSlashed root) (hworkspace : IsSlashed workspace)
    (cap : Option Nat) :
    Verb.scan.grammar.read (Options.take Verb.scan.grammar) {}
        ((scanArguments root workspace cap).tail.map String.toList) =
      ((capOf cap).map (scanOptions root workspace)).map fun o => ((o, .none), []) := by
  cases cap with
  | none =>
      change Verb.scan.grammar.read _ _ (root.toList :: "--workspace".toList :: workspace.toList ::
        ["--format".toList, "json".toList]) = _
      rw [read_root hroot hworkspace pieces_format, walk_format]
      rfl
  | some n =>
      have hn := isPlain_toString n
      have hcap : Verb.scan.grammar.looks "--max-files".toList =
        .ok (.flag (some ⟨.maxFiles, false, none⟩)) := rfl
      change Verb.scan.grammar.read _ _ (root.toList :: "--workspace".toList :: workspace.toList ::
        "--max-files".toList :: (toString n).toList :: ["--format".toList, "json".toList]) = _
      rw [read_root hroot hworkspace (Grammar.pieces_cons (by decide) hcap
        (Grammar.pieces_cons hn.ne_separator (hn.looks _) pieces_format)), Grammar.walk_value rfl,
        take_maxFiles, capOf]
      cases Options.integer Verb.scan.grammar .maxFiles (toString n).toList with
      | error stop => rfl
      | ok i => exact walk_format _

theorem looks_scanArguments (hroot : IsSlashed root) (hworkspace : IsSlashed workspace)
    (cap : Option Nat) :
    ∀ arg ∈ (scanArguments root workspace cap).tail.map String.toList,
      arg ≠ ['-', '-'] ∧ ∃ piece, grammar.looks arg = .ok piece := by
  have hplain {arg : List Char} (h : IsPlain arg) :
      arg ≠ ['-', '-'] ∧ ∃ piece, grammar.looks arg = .ok piece :=
    ⟨h.ne_separator, _, h.looks _⟩
  have hrootLooks := hplain (isPlain_of_slashed hroot)
  have hworkspaceLooks := hplain (isPlain_of_slashed hworkspace)
  cases cap with
  | none =>
      change ∀ arg ∈ [root.toList, "--workspace".toList, workspace.toList, "--format".toList,
        "json".toList], _
      simp only [List.forall_mem_cons]
      exact ⟨hrootLooks, ⟨by decide, _, rfl⟩, hworkspaceLooks, ⟨by decide, _, rfl⟩,
        ⟨by decide, _, rfl⟩, fun _ h => absurd h List.not_mem_nil⟩
  | some n =>
      change ∀ arg ∈ [root.toList, "--workspace".toList, workspace.toList,
        "--max-files".toList, (toString n).toList, "--format".toList, "json".toList], _
      simp only [List.forall_mem_cons]
      exact ⟨hrootLooks, ⟨by decide, _, rfl⟩, hworkspaceLooks, ⟨by decide, _, rfl⟩,
        hplain (isPlain_toString n), ⟨by decide, _, rfl⟩, ⟨by decide, _, rfl⟩,
        fun _ h => absurd h List.not_mem_nil⟩

theorem parse_scanArguments (hroot : IsSlashed root) (hworkspace : IsSlashed workspace)
    (cap : Option Nat) :
    parse (scanArguments root workspace cap) =
      (capOf cap).map fun cap =>
        ⟨false, false, .scan ⟨root, some workspace, cap, some .json⟩⟩ := by
  change parse ("scan" :: (scanArguments root workspace cap).tail) = _
  rw [parse_scan (looks_scanArguments hroot hworkspace cap)
    (read_scanArguments hroot hworkspace cap)]
  cases capOf cap with
  | error stop => rfl
  | ok cap =>
      change Except.ok _ = Except.ok _
      simp [scanOptions, Options.target]

theorem parse_scan_root (hroot : IsSlashed root) :
    parse ["scan", root] = .ok ⟨false, false, .scan ⟨root, none, none, none⟩⟩ := by
  have hplain := isPlain_of_slashed hroot
  have hread : Verb.scan.grammar.read (Options.take Verb.scan.grammar) {} [root.toList] =
      .ok (({ operand := some root.toList }, .none), []) := by
    rw [Grammar.read, Grammar.pieces_cons hplain.ne_separator (hplain.looks _) rfl]
    change Grammar.walk _ _ .one _ _ = _
    rw [Grammar.walk_operand]
    change Grammar.walk _ _ .none ({ operand := some root.toList } : Options) [] = _
    rw [Grammar.walk]
  have hlooks : ∀ arg ∈ [root].map String.toList, arg ≠ ['-', '-'] ∧
      ∃ piece, grammar.looks arg = .ok piece :=
    List.forall_mem_singleton.mpr ⟨hplain.ne_separator, _, hplain.looks _⟩
  rw [@parse_scan [root] hlooks (.ok { operand := some root.toList }) hread]
  change Except.ok _ = Except.ok _
  simp [Options.target]

end Scan

end Command

end ColorCensus
