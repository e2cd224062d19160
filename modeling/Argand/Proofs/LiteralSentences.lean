import Argand.Proofs.LiteralCalls
import Argand.Proofs.LiteralGrammar

/-!
# Literals as sentences

A literal without blanks can also be read as an expression: it is cut into lexemes, and these
are a sentence of the grammar.  The two readers have nothing in common but the numerals, and yet
they find the same number, up to the signs of zeros.

## Main results

* `Literal.readers_agree` — **what is read as a literal without blanks is read as an expression
  too, with the same value.**
-/

namespace Argand.Literal

open Text
open Formula (readLexemes readLexemes_eq_ok_iff)

/-- Without blanks there are none beside the sign of a power of ten. -/
theorem tightExponents_of_forall {cs : List Char} (h : ∀ c ∈ cs, isBlank c = false) :
    tightExponents cs = true := by
  induction cs with
  | nil => rfl
  | cons c cs ih =>
    have hcs : ∀ d ∈ cs, isBlank d = false := fun d hd => h d (List.mem_cons_of_mem c hd)
    have hahead : blankAhead cs = false := by
      rw [Bool.eq_false_iff, ne_eq]
      intro hahead
      obtain ⟨b, ds, hb, hcases⟩ := blankAhead_cases hahead
      have hmem : b ∈ cs := by
        rcases hcases with rfl | ⟨s, -, rfl⟩ <;> simp
      rw [hcs b hmem] at hb
      cases hb
    rw [tightExponents, hahead, Bool.and_false, ih hcs]
    rfl

/-- **The two readers of numbers agree.**  What is read as a literal without blanks is cut into
lexemes, these are read as an expression up to the end, and the program leaves one value, which
is the number of the literal part by part. -/
theorem readers_agree (t : List Char) (line : Int) (hblank : ∀ c ∈ t, isBlank c = false)
    (hnumber : isNumber t = true) :
    ∃ lexemes c w z, Lexer.lexemes t line = .ok lexemes ∧
      readLexemes ⟨line, contentEnd t⟩ ⟨lexemes, #[]⟩ = .ok c ∧ c.unread = [] ∧
      (∀ source resolve x, Program.evaluate ⟨c.output.toList, source⟩ resolve x = .ok [w]) ∧
      parseNumber t line = .ok z ∧ w.Matches z := by
  obtain ⟨ts, hts⟩ := exists_terms_of_isNumber hnumber
  obtain ⟨first, more, rfl, hrow⟩ := row_of_termsFrom? false _ ts hts
  -- the lexemes are those of the terms
  have htrim : ∀ c ∈ trim t, isBlank c = false := by
    obtain ⟨bs, -, hbs⟩ := exists_trimEnd_append (trimStart t)
    intro c hc
    have hstart : c ∈ trimStart t := hbs ▸ List.mem_append_left bs hc
    exact hblank c (takeWhile_append_trimStart t ▸ List.mem_append_right _ hstart)
  have hend : Breaks [] := fun c hc => nomatch hc
  have hreads : Lexer.Reads t ((first :: more).flatMap Term.kinds) [] := by
    rcases reads_literal hts hend with ⟨-, hreads⟩ | ⟨hloose, -⟩
    · rwa [List.append_nil] at hreads
    · rw [tightExponents_of_forall htrim] at hloose
      cases hloose
  obtain ⟨lexemes, hscan, hkinds⟩ := hreads.exists_scan
  have hlexemes : Lexer.lexemes t line = .ok lexemes := by rw [Lexer.lexemes, hscan]; rfl
  -- they are a sentence, and its tree has the sum of the operands as its value
  obtain ⟨d, hd, hsum⟩ := hrow.exists_expression
  obtain ⟨c, hc, hout⟩ := d.exists_readLexemes_output ⟨line, contentEnd t⟩ (hd.trans hkinds.symm)
  refine ⟨lexemes, c, sumOfOperands first more, value (first :: more), hlexemes, hc,
    (readLexemes_eq_ok_iff.mp hc).2, fun source resolve x => ?_, (parseNumber_of_terms hts line).2,
    hrow.alike_sumOfOperands.matches⟩
  rw [Program.evaluate, hout, Formula.Tree.run_tokens_of_value? (hsum _ x)]
  rfl

/-- Infinite terms of opposite signs leave the imaginary part undefined for both readers. -/
theorem readers_agree_undefined :
    let t := "2-1e999i+1e999i".toList
    (∀ c ∈ t, isBlank c = false) ∧ isNumber t = true ∧
      ∃ lexemes c w z, Lexer.lexemes t 1 = .ok lexemes ∧
        readLexemes ⟨1, contentEnd t⟩ ⟨lexemes, #[]⟩ = .ok c ∧ c.unread = [] ∧
        (∀ source resolve x, Program.evaluate ⟨c.output.toList, source⟩ resolve x = .ok [w]) ∧
        parseNumber t 1 = .ok z ∧ w.Matches z ∧ z.re = 2 ∧ z.im.isNaN = true := by
  intro t
  have hblank : ∀ c ∈ t, isBlank c = false := by
    intro c hc
    have hall : (t.all fun c => !isBlank c) = true := by decide +kernel
    simpa using List.all_eq_true.mp hall c hc
  have hnumber : isNumber t = true := by decide +kernel
  have hparts : parseNumber t 1 = .ok ⟨2, 0 / 0⟩ := by decide +kernel
  refine ⟨hblank, hnumber, ?_⟩
  obtain ⟨lexemes, c, w, z, hlexemes, hc, hnil, hw, hz, hmatch⟩ :=
    readers_agree t 1 hblank hnumber
  obtain rfl : ⟨2, 0 / 0⟩ = z := Except.ok.inj (hparts.symm.trans hz)
  exact ⟨lexemes, c, w, _, hlexemes, hc, hnil, hw, hz, hmatch, rfl, by decide +kernel⟩

end Argand.Literal
