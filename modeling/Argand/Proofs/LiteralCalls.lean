import Argand.Proofs.LineTokens
import Argand.Proofs.LiteralLines
import Argand.Proofs.LiteralValues

/-!
# Functions of literals

A function can stand in front of a literal in parentheses, or on the line after the literal.
The first literal is read as an expression, the second as a whole.

## Main definitions

* `UnaryOperation.callText`, `UnaryOperation.postfixText` — the two formulas.
* `ComplexNumber.Matches z w` — part by part equal or both undefined.

## Main results

* `parse_postfixText`, `parse_callText_of_tight`, `parse_callText_of_loose` — what becomes of the
  two formulas.
* `UnaryOperation.call_literal` — **when the two agree.**
-/

namespace Argand

open Text
open Formula (Derivation Tree Nonterminal)

/-! ### The two formulas -/

namespace UnaryOperation

/-- The function in front of an operand in parentheses. -/
def callText (f : UnaryOperation) (operand : String) : String :=
  f.symbol ++ "(" ++ operand ++ ")"

/-- The function on the line after its operand. -/
def postfixText (f : UnaryOperation) (operand : String) : String := operand ++ "\n" ++ f.symbol

theorem toList_callText (f : UnaryOperation) (t : String) :
    (f.callText t).toList = f.symbol.toList ++ '(' :: (t.toList ++ [')']) := by
  simp [callText]

theorem toList_postfixText (f : UnaryOperation) (t : String) :
    (f.postfixText t).toList = t.toList ++ '\n' :: f.symbol.toList := by
  simp [postfixText]

theorem isLineBreak_symbol (f : UnaryOperation) : ∀ c ∈ f.symbol.toList, isLineBreak c = false := by
  obtain ⟨c, name, hsymbol, -, hstart, hname, -, -⟩ := Reader.exists_symbol_eq_cons f
  intro d hd
  have hd : isNameChar d = true := by
    rw [hsymbol] at hd
    rcases List.mem_cons.mp hd with rfl | hd
    · exact isNameChar_of_isNameStart hstart
    · exact hname d hd
  have hblank := isBlank_of_isNameChar hd
  rw [Bool.eq_false_iff]
  intro hbreak
  rw [isBlank_of_isLineBreak hbreak] at hblank
  cases hblank

variable {f : UnaryOperation} {t : String}

/-- A literal and a function on the next line are two steps. -/
theorem parse_postfixText (hline : ∀ c ∈ t.toList, isLineBreak c = false)
    {z : ComplexNumber Float} (hread : Literal.read? t.toList = some z) :
    Program.parse (f.postfixText t) =
      .ok ⟨[⟨.number z, 1⟩, ⟨.operation (.unary f), 2⟩], f.postfixText t⟩ := by
  have hsymbol : f.symbol.toList ≠ [] := by cases f <;> decide
  have hlines : lines (f.postfixText t).toList = [t.toList, f.symbol.toList] := by
    rw [toList_postfixText, lines_append_newline hline,
      lines_of_forall hsymbol f.isLineBreak_symbol]
  rw [Program.parse_eq, hlines]
  simp only [linesTokens, lineTokens, Reader.readAnyLine_literal _ hread,
    Reader.readAnyLine_function]
  rfl

/-- A function of a literal in parentheses is an expression. -/
theorem parse_callText (hline : ∀ c ∈ t.toList, isLineBreak c = false) :
    Program.parse (f.callText t) =
      (sentenceTokens (f.callText t).toList 1).map (⟨·, f.callText t⟩) := by
  have hne : (f.callText t).toList ≠ [] := by
    rw [toList_callText]
    simp
  have hbreaks : ∀ c ∈ (f.callText t).toList, isLineBreak c = false := by
    intro c hc
    rw [toList_callText, List.mem_append, List.mem_cons, List.mem_append, List.mem_singleton] at hc
    rcases hc with hc | rfl | hc | rfl
    · exact f.isLineBreak_symbol c hc
    · decide
    · exact hline c hc
    · decide
  have hcall : Reader.new.readAnyLine (f.callText t).toList 1 =
      Reader.new.readExpression (f.callText t).toList 1 := by
    rw [toList_callText]
    exact Reader.readAnyLine_call .new f t.toList 1
  rw [Program.parse_eq, lines_of_forall hne hbreaks, linesTokens_singleton, lineTokens, hcall,
    readExpression_fst_eq]

/-- The lexemes in front of the literal. -/
theorem reads_callText (f : UnaryOperation) (cs : List Char) :
    Lexer.Reads (f.symbol.toList ++ '(' :: cs) [.name f.symbol, .mark .leftParen] cs := by
  have hopen : ∀ d ∈ ('(' :: cs).head?, isNameChar d = false :=
    Numeral.forall_head?_cons.mpr (by decide)
  exact (Reader.reads_function f hopen).trans (.leftParen cs)

/-! ### Functions among the sentences -/

/-- The derivation of a function with an expression in parentheses behind it. -/
def callDerivation (f : UnaryOperation) (inner : Derivation .expression) :
    Derivation .expression :=
  .expression (.term (.unsigned (.plain (.call f (.parentheses inner)))) .noMoreFactors)
    .noMoreTerms

theorem lexemes_callDerivation (f : UnaryOperation) (inner : Derivation .expression) :
    (callDerivation f inner).lexemes =
      .name f.symbol :: .mark .leftParen :: (inner.lexemes ++ [.mark .rightParen]) := by
  change (Lexeme.Kind.name f.symbol :: Lexeme.Kind.mark .leftParen ::
    (inner.lexemes ++ [Lexeme.Kind.mark .rightParen])) ++ [] ++ [] = _
  rw [List.append_nil, List.append_nil]

/-- A sentence that starts with a name starts with an atom that does. -/
theorem exists_atom_of_name {d : Derivation .expression} {name : String}
    {ks : List Lexeme.Kind} (h : d.lexemes = .name name :: ks) :
    ∃ (a : Derivation .atom) (rest : List Lexeme.Kind), d.lexemes = a.lexemes ++ rest := by
  cases d with
  | expression first more =>
    cases first with
    | term factor factors =>
      cases factor with
      | sign s operand =>
        -- a sign is no name
        have hhead : s.kind = .name name := (List.cons.inj h).1
        cases s <;> cases hhead
      | unsigned power =>
        cases power with
        | plain base =>
          exact ⟨base, factors.lexemes ++ more.lexemes, List.append_assoc ..⟩
        | raised base s exponent =>
          refine ⟨base, s.kind :: exponent.lexemes ++ factors.lexemes ++ more.lexemes, ?_⟩
          change base.lexemes ++ s.kind :: exponent.lexemes ++ factors.lexemes ++ more.lexemes = _
          simp

/-- Where a name follows an expression in parentheses, the line is no sentence. -/
theorem not_sentence_of_name (f : UnaryOperation) (inner : Derivation .expression) (name : String)
    (ks : List Lexeme.Kind) (d : Derivation .expression) :
    d.lexemes ≠ .name f.symbol :: .mark .leftParen :: (inner.lexemes ++ .name name :: ks) := by
  intro h
  obtain ⟨a, rest, ha⟩ := exists_atom_of_name h
  rw [ha] at h
  cases a with
  | number z => cases (List.cons.inj h).1
  | parentheses inner' => cases (List.cons.inj h).1
  | name text hf =>
    have htext : text = f.symbol := Lexeme.Kind.name.inj (List.cons.inj h).1
    exact hf f htext.symm
  | call f' operand =>
    have hoperand := (List.cons.inj h).2
    cases operand with
    | number z => cases (List.cons.inj hoperand).1
    | call f'' operand' => cases (List.cons.inj hoperand).1
    | name text hf => cases (List.cons.inj hoperand).1
    | parentheses inner' =>
      -- the two expressions end at the same place, one at a parenthesis and one at the name
      have hinner : inner'.lexemes ++ .mark .rightParen :: rest =
          inner.lexemes ++ .name name :: ks := by
        have htail := (List.cons.inj hoperand).2
        rwa [List.append_eq, List.append_assoc, List.singleton_append] at htail
      have hrest := (Derivation.lexemes_append_inj inner' inner _ _ hinner
        (Nonterminal.stopsBefore_cons.mpr (Nat.lt_succ_self 3))
        (Nonterminal.stopsBefore_cons.mpr (Nat.lt_succ_self 3))).2
      cases (List.cons.inj hrest).1

/-! ### Both formulas of a literal -/

section Literals

open Literal (Row BelowAxis sumOfOperands tightExponents)

variable {ts : List Literal.Term} {first : Literal.Term} {more : List Literal.Term}

/-- The parenthesis stands behind the last term. -/
theorem breaks_rightParen : Literal.Breaks [')'] :=
  Numeral.forall_head?_cons.mpr (.inr (.inr rfl))

/-- With no blank beside the sign of a power of ten, the function is applied to the sum of the
terms. -/
theorem parse_callText_of_tight (hline : ∀ c ∈ t.toList, isLineBreak c = false)
    (hrow : Row false first more)
    (hread : Lexer.Reads (t.toList ++ [')']) ((first :: more).flatMap Literal.Term.kinds) [')']) :
    ∃ p, Program.parse (f.callText t) = .ok p ∧ ∀ resolve x,
      p.evaluate resolve x = .ok [f.eval (sumOfOperands first more)] := by
  obtain ⟨inner, hinner, hvalue⟩ := hrow.exists_expression
  have hreads : Lexer.Reads (f.callText t).toList (callDerivation f inner).lexemes [] := by
    rw [toList_callText, lexemes_callDerivation, hinner]
    exact (reads_callText f _).trans (hread.trans (.rightParen []))
  obtain ⟨lexemes, hscan, hkinds⟩ := hreads.exists_scan
  have hexpression : sentenceTokens (f.callText t).toList 1 =
      .ok ((callDerivation f inner).tree.tokens 1) :=
    sentenceTokens_eq_ok_iff.mpr ⟨lexemes, hscan, callDerivation f inner, hkinds.symm, rfl⟩
  refine ⟨⟨(callDerivation f inner).tree.tokens 1, f.callText t⟩, ?_, fun resolve x => ?_⟩
  · rw [parse_callText hline, hexpression]
    rfl
  · have hcall (known : Resolver) : (callDerivation f inner).tree.value? known x =
        some (f.eval (sumOfOperands first more)) :=
      Tree.value?_function_eq_some.mpr ⟨_, hvalue known x, rfl⟩
    rw [Program.evaluate, Tree.run_tokens_of_value? (hcall _)]
    rfl

/-- With a blank beside the sign of a power of ten, the formula is not read. -/
theorem parse_callText_of_loose (hline : ∀ c ∈ t.toList, isLineBreak c = false)
    (hcut : Literal.CutOff false (t.toList ++ [')'])) (p : Program) :
    Program.parse (f.callText t) ≠ .ok p := by
  intro hparse
  obtain ⟨first, more, name, after, hrow, hread⟩ := hcut
  obtain ⟨inner, hinner, -⟩ := hrow.exists_expression
  rw [parse_callText hline] at hparse
  cases hexpression : sentenceTokens (f.callText t).toList 1 with
  | error e =>
    rw [hexpression] at hparse
    cases hparse
  | ok tokens =>
    obtain ⟨lexemes, hscan, d, hd, -⟩ := sentenceTokens_eq_ok_iff.mp hexpression
    have hreads : Lexer.Reads (f.callText t).toList
        ([.name f.symbol, .mark .leftParen] ++ (inner.lexemes ++ [.name name])) after := by
      rw [toList_callText, hinner]
      exact (reads_callText f _).trans hread
    obtain ⟨others, hkinds⟩ := hreads.exists_append hscan
    refine not_sentence_of_name f inner name others d ?_
    rw [hd, hkinds]
    simp

end Literals

end UnaryOperation

/-! ### When the two agree -/

/-- Part by part equal, or both undefined. -/
def ComplexNumber.Matches (z w : ComplexNumber Float) : Prop :=
  ((z.re == w.re) = true ∨ z.re.isNaN = true ∧ w.re.isNaN = true) ∧
    ((z.im == w.im) = true ∨ z.im.isNaN = true ∧ w.im.isNaN = true)

theorem ComplexNumber.Alike.matches {z w : ComplexNumber Float} (h : ComplexNumber.Alike z w) :
    z.Matches w :=
  ⟨h.re.beq_or_isNaN, h.im.beq_or_isNaN⟩

/-- The logarithms on the two edges of the cut do not match. -/
theorem ComplexNumber.not_matches_conj_ln {z : ComplexNumber Float} (hneg : z.re < 0)
    (him : z.im = 0) : ¬(conj z.ln).Matches z.ln := by
  have hz : z = ⟨z.re, 0⟩ := eq_of_parts rfl him
  have hangle : z.ln.im = Binary64.halfTurn := by
    rw [hz]
    exact (angle_upperEdge_of_neg hneg).1
  rintro ⟨-, hmatch⟩
  change (-z.ln.im == z.ln.im) = true ∨ (-z.ln.im).isNaN = true ∧ z.ln.im.isNaN = true at hmatch
  rw [hangle] at hmatch
  exact absurd hmatch (by decide)

/-- **A function in front of a literal and after it.**  After the literal, on the next line, it
is always its value at the literal.  In front of the literal in parentheses it is read if no
blank stands beside the sign of a power of ten.  It then is the same, except for the logarithm
and the square root of a negative literal of which every term has a minus sign: the values are
mirror images, as a minus sign in front of the first term makes its imaginary part a negative
zero. -/
theorem UnaryOperation.call_literal (f : UnaryOperation) (t : String)
    (hline : ∀ c ∈ t.toList, isLineBreak c = false) (hnumber : isNumber t.toList = true) :
    ∃ ts, Literal.terms? (Literal.normalize t.toList) = some ts ∧
      (∃ p, Program.parse (f.postfixText t) = .ok p ∧
        ∀ resolve x, p.evaluate resolve x = .ok [f.eval (Literal.value ts)]) ∧
      ((∃ p, Program.parse (f.callText t) = .ok p) ↔
        Literal.tightExponents (trim t.toList) = true) ∧
      ∀ p, Program.parse (f.callText t) = .ok p →
        ∃ w, (∀ resolve x, p.evaluate resolve x = .ok [w]) ∧
          (¬Literal.CutBetween f ts → w.Matches (f.eval (Literal.value ts))) ∧
          (Literal.CutBetween f ts → w = ComplexNumber.conj (f.eval (Literal.value ts)) ∧
            (f = .ln → ¬w.Matches (f.eval (Literal.value ts)))) := by
  obtain ⟨z, hread⟩ := Option.isSome_iff_exists.mp hnumber
  obtain ⟨ts, hts, rfl⟩ := Option.map_eq_some_iff.mp hread
  obtain ⟨first, more, rfl, hrow⟩ := Literal.row_of_termsFrom? false _ ts hts
  refine ⟨first :: more, hts, ⟨_, parse_postfixText hline hread, fun resolve x => rfl⟩, ?_⟩
  rcases Literal.reads_literal hts breaks_rightParen with ⟨htight, hreads⟩ | ⟨hloose, hcut⟩
  · -- the function is applied to the sum of the terms
    obtain ⟨q, hq, hvalue⟩ := parse_callText_of_tight (f := f) hline hrow hreads
    refine ⟨iff_of_true ⟨q, hq⟩ htight, fun p hp => ?_⟩
    obtain rfl : q = p := Except.ok.inj (hq.symm.trans hp)
    refine ⟨_, hvalue, fun hcut => (hrow.eval_alike f hcut).matches, fun hcut => ?_⟩
    have hconj := hrow.eval_eq_conj hcut
    refine ⟨hconj, ?_⟩
    rintro rfl
    obtain ⟨-, hneg, hbelow⟩ := hcut
    rw [hconj]
    exact ComplexNumber.not_matches_conj_ln hneg (hrow.im_value_eq_zero hbelow)
  · -- the mark of an exponent is left as a name
    have hnone := parse_callText_of_loose (f := f) hline hcut
    refine ⟨iff_of_false (fun ⟨p, hp⟩ => hnone p hp) (by rw [hloose]; exact Bool.false_ne_true),
      fun p hp => absurd hp (hnone p)⟩

/-- The logarithm of `-1` is on the cut: in front of the literal it is not what it is after
it. -/
theorem UnaryOperation.call_literal_neg_one :
    (∀ c ∈ "-1".toList, isLineBreak c = false) ∧ isNumber "-1".toList = true ∧
      ∃ p q w v, Program.parse (UnaryOperation.ln.callText "-1") = .ok p ∧
        Program.parse (UnaryOperation.ln.postfixText "-1") = .ok q ∧
        (∀ resolve x, p.evaluate resolve x = .ok [w]) ∧
        (∀ resolve x, q.evaluate resolve x = .ok [v]) ∧
        w = ComplexNumber.conj v ∧ ¬w.Matches v := by
  have hline : ∀ c ∈ "-1".toList, isLineBreak c = false :=
    List.forall_mem_cons.mpr ⟨by decide, List.forall_mem_singleton.mpr (by decide)⟩
  have hnumber : isNumber "-1".toList = true := by decide +kernel
  refine ⟨hline, hnumber, ?_⟩
  obtain ⟨ts, hts, ⟨q, hq, hqValue⟩, hparse, hcall⟩ :=
    UnaryOperation.call_literal .ln "-1" hline hnumber
  have hterms : Literal.terms? (Literal.normalize "-1".toList) = some [⟨['-'], ['1'], []⟩] := by
    decide +kernel
  obtain rfl := Option.some.inj (hterms.symm.trans hts)
  have hcut : Literal.CutBetween .ln [⟨['-'], ['1'], []⟩] := by
    refine ⟨.inl rfl, by decide +kernel, fun t ht => ?_⟩
    obtain rfl := List.mem_singleton.mp ht
    exact ⟨rfl, rfl⟩
  obtain ⟨p, hp⟩ := hparse.mpr (by decide)
  obtain ⟨w, hw, -, hedge⟩ := hcall p hp
  obtain ⟨hconj, hdiffer⟩ := hedge hcut
  exact ⟨p, q, w, _, hp, hq, hw, hqValue, hconj, hdiffer rfl⟩

/-- `ln(-1)` is `-πi` where `-1` and then `ln` is `πi`, and `ln(1e + 5)` is not read although
`1e + 5` is a literal. -/
theorem UnaryOperation.call_differs_from_postfix :
    (isNumber "-1".toList = true ∧ ∃ p q w v, Program.parse "ln(-1)" = .ok p ∧
      Program.parse "-1\nln" = .ok q ∧ p.evaluate (fun _ => none) ⟨0, 0⟩ = .ok [w] ∧
      q.evaluate (fun _ => none) ⟨0, 0⟩ = .ok [v] ∧ w.im = -Binary64.pi ∧
      v.im = Binary64.pi ∧ ¬w.Matches v) ∧
    (isNumber "1e + 5".toList = true ∧ (∃ q, Program.parse "1e + 5\nln" = .ok q) ∧
      ∃ e, Program.parse "ln(1e + 5)" = .error e) := by
  constructor
  · refine ⟨by decide +kernel, ⟨[⟨.number ⟨-1, -0.0⟩, 1⟩, ⟨.operation (.unary .ln), 1⟩], "ln(-1)"⟩,
      ⟨[⟨.number ⟨-1, 0⟩, 1⟩, ⟨.operation (.unary .ln), 2⟩], "-1\nln"⟩,
      ComplexNumber.ln ⟨-1, -0.0⟩, ComplexNumber.ln ⟨-1, 0⟩, by decide +kernel, by decide +kernel,
      rfl, rfl, by decide +kernel, by decide +kernel, fun hmatch => ?_⟩
    exact absurd hmatch.2 (by decide +kernel)
  · refine ⟨by decide +kernel, ⟨⟨[⟨.number ⟨100000, 0⟩, 1⟩, ⟨.operation (.unary .ln), 2⟩],
      "1e + 5\nln"⟩, by decide +kernel⟩, ⟨1, 2, .unmatchedOpen⟩, by decide +kernel⟩

end Argand
