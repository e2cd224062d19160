import Argand.Evaluation.Machine
import Argand.Proofs.LineTokens
import Argand.Proofs.LiteralLines

/-!
# Lines that take operands

A line takes values off the stack if it is an operation on its own or an assignment.  Such a
line is neither a literal nor an expression, and it fails if there are too few values.

## Main definitions

* `TakesOperands raw count` — the line is an operation on its own or an assignment, and takes
  so many values off.
* `IsSentence raw` — the lexemes of the line are a sentence of the grammar.

## Main results

* `Stack.apply_eq_error`, `Stack.exists_apply_eq_ok` — an operation fails for want of operands
  only, never because they are of the wrong number.
* `TakesOperands.not_isSentence` — **a line that takes operands is no expression.**
-/

namespace Argand

open Text Formula

/-! ### Lines that take operands -/

/-- A line is an operation on its own or an assignment, and takes so many values off. -/
def TakesOperands (raw : List Char) (count : Nat) : Prop :=
  (String.ofList (trim raw) ∈ Operation.symbols ∧ Literal.read? (trim raw) = none ∧
    ∃ op, Operation.ofSymbol? (String.ofList (trim raw)) = some op ∧ op.arity = count) ∨
  ((trim raw).head? = some assignmentSign ∧ count = 1)

theorem Operation.mem_symbols_of_ofSymbol? {s : String} {op : Operation}
    (h : ofSymbol? s = some op) : s ∈ symbols := by
  rw [ofSymbol?] at h
  split at h
  · next hs => exact List.mem_append_right _ (List.mem_singleton.mpr hs)
  · have hs : op.symbol = s := by simpa using List.find?_some h
    exact List.mem_append_left _ (List.mem_map.mpr ⟨op, op.mem_all, hs⟩)

/-- What stands alone on a line. -/
theorem Reader.loneKind?_cases {text : List Char} {kind : Token.Kind}
    (h : loneKind? text = some kind) :
    (∃ z, kind = .number z) ∨ kind = .input ∨
      ∃ op, kind = .operation op ∧ Literal.read? text = none ∧
        Operation.ofSymbol? (String.ofList text) = some op := by
  rw [loneKind?] at h
  split at h
  · next z hz => exact .inl ⟨z, (Option.some.inj h).symm⟩
  · next hliteral =>
    split at h
    · next op hop => exact .inr (.inr ⟨op, (Option.some.inj h).symm, hliteral, hop⟩)
    · split at h
      · exact .inr (.inl (Option.some.inj h).symm)
      · cases h

/-- An operation fails for want of operands only. -/
theorem Stack.apply_eq_error {s : Stack} {op : Operation} {line : Int} {e : EvalError}
    (h : s.apply op line = .error e) :
    e = .stackUnderflow line op.arity s.size ∧ s.size < op.arity := by
  obtain ⟨items⟩ := s
  cases op with
  | unary f =>
    match items, h with
    | [], h => exact ⟨(Except.error.inj h).symm, Nat.zero_lt_one⟩
  | binary f =>
    match items, h with
    | [], h => exact ⟨(Except.error.inj h).symm, Nat.zero_lt_two⟩
    | [_], h => exact ⟨(Except.error.inj h).symm, Nat.one_lt_two⟩

/-- An operation can be applied to as many values as it takes. -/
theorem Stack.exists_apply_eq_ok {s rest : Stack} {op : Operation} {line : Int}
    {args : List (ComplexNumber Float)} (h : s.popMany op.arity line = .ok (args, rest)) :
    ∃ z, op.apply args = .ok z := by
  have happly := s.apply_eq_popMany op line
  rw [h] at happly
  cases hargs : op.apply args with
  | ok z => exact ⟨z, rfl⟩
  | error e =>
    -- then the stack would be too small, but that many values were taken off
    dsimp only at happly
    rw [hargs] at happly
    obtain ⟨-, hlt⟩ := apply_eq_error happly
    rw [popMany, if_pos (Int.ofNat_lt.mpr hlt)] at h
    cases h

/-! ### Lines that are no expressions -/

/-- The lexemes of a line are a sentence of the grammar. -/
def IsSentence (raw : List Char) : Prop :=
  ∃ lexemes, Lexer.scan 0 raw = .ok lexemes ∧
    ∃ d : Derivation .expression, d.lexemes = lexemes.map (·.kind)

/-- A lexeme is no sentence if it is not read as one. -/
theorem Formula.Derivation.lexemes_ne_singleton {k : Lexeme.Kind}
    (h : (readLexemes ⟨0, 0⟩ ⟨[⟨k, 0, 0⟩], #[]⟩).toOption = none) (d : Derivation .expression) :
    d.lexemes ≠ [k] := by
  intro hd
  have hkinds : d.lexemes = [(⟨k, 0, 0⟩ : Lexeme)].map (·.kind) := hd
  obtain ⟨c, hc⟩ := d.exists_readLexemes_eq_ok ⟨0, 0⟩ hkinds
  rw [hc] at h
  cases h

namespace Lexer

/-- A text is read like what is left of it without the blanks around it. -/
theorem exists_reads_of_trim (cs : List Char) : ∃ bs, (∀ c ∈ bs.head?, isBlank c = true) ∧
    ∀ ks, Reads (trim cs ++ bs) ks bs → Reads cs ks [] := by
  obtain ⟨bs, hbs, htrim⟩ := exists_trimEnd_append (trimStart cs)
  refine ⟨bs, fun c hc => hbs c (List.mem_of_mem_head? hc), fun ks hcontent => ?_⟩
  have hbefore := Literal.reads_trimStart cs []
  have hbehind := Reads.blanks hbs []
  rw [List.append_nil, List.append_nil] at hbefore
  rw [List.append_nil] at hbehind
  rw [trim, htrim] at hcontent
  have hall := (hbefore.trans hcontent).trans hbehind
  rwa [List.nil_append, List.append_nil] at hall

/-- A star that no second star follows is a lexeme of its own. -/
theorem longest?_star {cs : List Char} (h : ∀ c ∈ cs.head?, isBlank c = true) :
    longest? ('*' :: cs) = some (.mark .star, 1) := by
  rw [longest?, number?_eq_none (by decide) (by decide)]
  cases cs with
  | nil => rfl
  | cons c cs =>
    have hc : c ≠ '*' := by
      rintro rfl
      exact absurd (h '*' rfl) (by decide)
    simp [name?, isNameStart, mark?, hc]

variable {bs : List Char}

/-- An operator is a mark, and no sentence. -/
theorem exists_reads_operator (op : BinaryOperation) (hbs : ∀ c ∈ bs.head?, isBlank c = true) :
    ∃ k, Reads (op.symbol.toList ++ bs) [k] bs ∧ ∀ d : Derivation .expression, d.lexemes ≠ [k] := by
  cases op with
  | add => exact ⟨_, .plus bs, Derivation.lexemes_ne_singleton (by decide +kernel)⟩
  | sub => exact ⟨_, .minus bs, Derivation.lexemes_ne_singleton (by decide +kernel)⟩
  | mul =>
    exact ⟨_, .lexeme (Numeral.forall_head?_cons.mpr (by decide)) (longest?_star hbs),
      Derivation.lexemes_ne_singleton (by decide +kernel)⟩
  | div =>
    have hslash : longest? ('/' :: bs) = some (.mark .slash, 1) := by
      rw [longest?, number?_eq_none (by decide) (by decide)]
      rfl
    exact ⟨_, .lexeme (Numeral.forall_head?_cons.mpr (by decide)) hslash,
      Derivation.lexemes_ne_singleton (by decide +kernel)⟩
  | pow =>
    have hcaret : longest? ('^' :: bs) = some (.mark .caret, 1) := by
      rw [longest?, number?_eq_none (by decide) (by decide)]
      rfl
    exact ⟨_, .lexeme (Numeral.forall_head?_cons.mpr (by decide)) hcaret,
      Derivation.lexemes_ne_singleton (by decide +kernel)⟩

/-- A symbol is a single lexeme, and no sentence. -/
theorem exists_reads_symbol {s : String} (hs : s ∈ Operation.symbols)
    (hbs : ∀ c ∈ bs.head?, isBlank c = true) :
    ∃ k, Reads (s.toList ++ bs) [k] bs ∧ ∀ d : Derivation .expression, d.lexemes ≠ [k] := by
  rcases List.mem_append.mp hs with hs | hs
  · obtain ⟨op, -, rfl⟩ := List.mem_map.mp hs
    cases op with
    | binary op => exact exists_reads_operator op hbs
    | unary f =>
      have hname := Reader.reads_function f fun c hc => isNameChar_of_isBlank (hbs c hc)
      refine ⟨_, hname, Derivation.lexemes_ne_singleton ?_⟩
      cases f <;> decide +kernel
  · obtain rfl := List.mem_singleton.mp hs
    have hdouble : longest? ('*' :: '*' :: bs) = some (.mark .doubleStar, 2) := by
      rw [longest?, number?_eq_none (by decide) (by decide)]
      rfl
    exact ⟨_, .lexeme (Numeral.forall_head?_cons.mpr (by decide)) hdouble,
      Derivation.lexemes_ne_singleton (by decide +kernel)⟩

end Lexer

/-- A symbol with blanks around it is no expression. -/
theorem not_isSentence_of_symbol {raw : List Char}
    (h : String.ofList (trim raw) ∈ Operation.symbols) : ¬IsSentence raw := by
  rintro ⟨lexemes, hscan, d, hd⟩
  obtain ⟨bs, hbs, hreads⟩ := Lexer.exists_reads_of_trim raw
  obtain ⟨k, hsymbol, hne⟩ := Lexer.exists_reads_symbol h hbs
  rw [String.toList_ofList] at hsymbol
  obtain ⟨lexemes', hscan', hkinds⟩ := (hreads [k] hsymbol).exists_scan
  obtain rfl := Except.ok.inj (hscan'.symm.trans hscan)
  exact hne d (hd.trans hkinds)

/-- No lexeme starts with the sign of an assignment. -/
theorem not_isSentence_of_assignment {raw : List Char}
    (h : (trim raw).head? = some assignmentSign) : ¬IsSentence raw := by
  rintro ⟨lexemes, hscan, -⟩
  obtain ⟨bs, -, htrim⟩ := exists_trimEnd_append (trimStart raw)
  obtain ⟨cs, hcs⟩ := List.head?_eq_some_iff.mp h
  rw [← trim, hcs] at htrim
  have hlongest : Lexer.longest? ('=' :: (cs ++ bs)) = none := by
    rw [Lexer.longest?, Lexer.number?_eq_none (by decide) (by decide)]
    rfl
  rw [Lexer.scan_eq, ← htrim, List.cons_append, assignmentSign] at hscan
  dsimp only at hscan
  rw [hlongest] at hscan
  cases hscan

/-- **A line that takes operands is no expression.** -/
theorem TakesOperands.not_isSentence {raw : List Char} {count : Nat}
    (h : TakesOperands raw count) : ¬IsSentence raw :=
  h.elim (fun h => not_isSentence_of_symbol h.1) (fun h => not_isSentence_of_assignment h.1)

end Argand
