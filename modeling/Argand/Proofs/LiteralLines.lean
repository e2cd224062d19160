import Argand.Formula.Reader
import Argand.Proofs.LiteralLexemes

/-!
# Literals and functions on lines

A literal that has a line to itself is read as a whole, and the name of a function that has a
line to itself is an operation on the values before it.  A line that starts with a letter
other than a unit and ends in a parenthesis is neither; it is read as an expression.

## Main definitions

* `Literal.startsTerm c` — a sign, a digit, a point or a unit.

## Main results

* `Reader.readAnyLine_literal`, `Reader.readAnyLine_function`, `Reader.readAnyLine_call` — what
  is read off such lines.
-/

namespace Argand

open Text Numeral

namespace Literal

/-- Whether a term can start with a character. -/
def startsTerm (c : Char) : Bool := isSign c || isDigit c || isPoint c || isUnit c

theorem leadingTerm_not_complete {c : Char} (hc : startsTerm c = false) (cs : List Char) :
    (leadingTerm (c :: cs)).isComplete = false := by
  simp only [startsTerm, Bool.or_eq_false_iff] at hc
  obtain ⟨⟨⟨hsign, hdigit⟩, hpoint⟩, hunit⟩ := hc
  have hnoSign : signPart (c :: cs) = [] := by
    rw [signPart, hsign]
    rfl
  have hnoDigits : leading (c :: cs) = [] := Lexer.leading_eq_nil hdigit hpoint cs
  have hnoUnit : unitPart (c :: cs) = [] := by
    rw [unitPart, hunit]
    rfl
  simp [leadingTerm, hnoSign, hnoDigits, hnoUnit, Term.isComplete]

/-- A text that does not start like a term is no literal. -/
theorem read?_eq_none {c : Char} {cs rest : List Char} (h : trim cs = c :: rest)
    (hc : startsTerm c = false) : read? cs = none := by
  have hblank : isBlank c = false := head?_trim cs c (by rw [h]; rfl)
  have hcomma : pointForComma c = c := by
    refine pointForComma_of_ne ?_
    rintro rfl
    cases hc
  have hnormal : normalize cs = c :: normalFrom (isSign c) rest := by
    change normalFrom false (trim cs) = _
    rw [h, normalFrom_of_not_blank hblank, hcomma]
  have hfits : ¬(leadingTerm (normalize cs)).fits false = true := by
    rw [fits_iff, hnormal, leadingTerm_not_complete hc]
    exact fun hcomplete => Bool.false_ne_true hcomplete.1
  rw [read?, terms?, termsFrom?, dif_neg hfits]
  rfl

theorem read?_trim (cs : List Char) : read? (trim cs) = read? cs := by
  rw [read?, read?, normalize, normalize, trim_trim]

end Literal

namespace Reader

/-! ### Lines without an expression -/

/-- A literal on a line of its own. -/
theorem readAnyLine_literal (r : Reader) {raw : List Char} {z : ComplexNumber Float}
    (h : Literal.read? raw = some z) (number : Int) :
    r.readAnyLine raw number = (.ok [⟨.number z, number⟩], r) := by
  have hlone : loneKind? (trim raw) = some (.number z) := by
    rw [loneKind?, Literal.read?_trim, h]
  cases htrim : trim raw with
  | nil =>
    have hnone : loneKind? [] = none := by
      rw [loneKind?, Literal.read?, Literal.terms?, Literal.termsFrom?]
      rfl
    rw [htrim, hnone] at hlone
    cases hlone
  | cons c cs =>
    have hstarts : Literal.startsTerm c = true := by
      by_contra hc
      rw [Literal.read?_eq_none htrim (Bool.not_eq_true _ ▸ hc)] at h
      cases h
    have hcomment : c ≠ commentSign := by
      rintro rfl
      exact absurd hstarts (by decide)
    have hassignment : c ≠ assignmentSign := by
      rintro rfl
      exact absurd hstarts (by decide)
    rw [htrim] at hlone
    unfold readAnyLine readLine
    simp only [htrim, if_neg hcomment, if_neg hassignment, hlone]

/-- The first letter of a function starts no term, and the letters make up a name. -/
theorem exists_symbol_eq_cons (f : UnaryOperation) :
    ∃ c cs, f.symbol.toList = c :: cs ∧ Literal.startsTerm c = false ∧ isNameStart c = true ∧
      (∀ d ∈ cs, isNameChar d = true) ∧ c ≠ commentSign ∧ c ≠ assignmentSign := by
  cases f <;> exact ⟨_, _, rfl, by decide, by decide, List.all_eq_true.mp (by decide), by decide,
    by decide⟩

/-- The name of a function is a lexeme in front of what does not go on with it. -/
theorem reads_function (f : UnaryOperation) {rest : List Char}
    (hrest : ∀ d ∈ rest.head?, isNameChar d = false) :
    Lexer.Reads (f.symbol.toList ++ rest) [.name f.symbol] rest := by
  obtain ⟨c, cs, hsymbol, hstarts, hc, hcs, -, -⟩ := exists_symbol_eq_cons f
  simp only [Literal.startsTerm, Bool.or_eq_false_iff] at hstarts
  have hread := Lexer.Reads.name hstarts.1.1.2 hstarts.1.2 hc hcs hrest
  rwa [← List.cons_append, ← hsymbol, String.ofList_toList] at hread

theorem trim_symbol (f : UnaryOperation) : trim f.symbol.toList = f.symbol.toList := by
  cases f <;> decide

/-- The name of a function on a line of its own. -/
theorem readAnyLine_function (r : Reader) (f : UnaryOperation) (number : Int) :
    r.readAnyLine f.symbol.toList number = (.ok [⟨.operation (.unary f), number⟩], r) := by
  obtain ⟨c, cs, hsymbol, hstarts, -, -, hcomment, hassignment⟩ := exists_symbol_eq_cons f
  have htrim := trim_symbol f
  have hname : String.ofList f.symbol.toList = f.symbol := String.ofList_toList
  have hlone : loneKind? f.symbol.toList = some (.operation (.unary f)) := by
    have hread : Literal.read? f.symbol.toList = none :=
      Literal.read?_eq_none (htrim.trans hsymbol) hstarts
    have hoperation : Operation.ofSymbol? f.symbol = some (.unary f) :=
      Operation.ofSymbol?_symbol (.unary f)
    rw [loneKind?, hread, hname]
    dsimp only
    rw [hoperation]
  rw [hsymbol] at htrim hlone ⊢
  unfold readAnyLine readLine
  simp only [htrim, if_neg hcomment, if_neg hassignment, hlone]

/-- What is not a literal and has a parenthesis in it is nothing on its own. -/
theorem loneKind?_eq_none {cs : List Char} (hread : Literal.read? cs = none) (hparen : '(' ∈ cs) :
    loneKind? cs = none := by
  have hne {s : String} (hs : '(' ∉ s.toList) : String.ofList cs ≠ s := by
    rintro rfl
    rw [String.toList_ofList] at hs
    exact hs hparen
  have hsymbol : ∀ op ∈ Operation.all, '(' ∉ op.symbol.toList := by decide
  have hoperation : Operation.ofSymbol? (String.ofList cs) = none := by
    rw [Operation.ofSymbol?, if_neg (hne (by decide)), List.find?_eq_none]
    intro op hop heq
    exact hne (hsymbol op hop) (beq_iff_eq.mp heq).symm
  rw [loneKind?, hread]
  dsimp only
  rw [hoperation]
  exact if_neg (hne (by decide))

/-- The name of a function with something in parentheses behind it is an expression. -/
theorem readAnyLine_call (r : Reader) (f : UnaryOperation) (cs : List Char) (number : Int) :
    r.readAnyLine (f.symbol.toList ++ '(' :: (cs ++ [')'])) number =
      r.readExpression (f.symbol.toList ++ '(' :: (cs ++ [')'])) number := by
  obtain ⟨c, name, hsymbol, hstarts, hstart, -, hcomment, hassignment⟩ := exists_symbol_eq_cons f
  have hblank := isBlank_of_isNameChar (isNameChar_of_isNameStart hstart)
  have hraw : f.symbol.toList ++ '(' :: (cs ++ [')']) = c :: ((name ++ '(' :: cs) ++ [')']) := by
    rw [hsymbol]
    simp
  have htrim : trim (c :: ((name ++ '(' :: cs) ++ [')'])) = c :: ((name ++ '(' :: cs) ++ [')']) :=
    trim_eq_self hblank (by decide)
  rw [hraw]
  have hlone : loneKind? (c :: ((name ++ '(' :: cs) ++ [')'])) = none := by
    have hread := Literal.read?_eq_none htrim hstarts
    exact loneKind?_eq_none hread (by simp)
  unfold readAnyLine readLine
  simp only [htrim, if_neg hcomment, if_neg hassignment, hlone]

end Reader

end Argand
