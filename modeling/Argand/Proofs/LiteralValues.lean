import Argand.Proofs.AlikeFunctions
import Argand.Proofs.Compilation
import Argand.Proofs.LiteralLexemes

/-!
# Literals as sums

A literal adds up its real and its imaginary terms apart, both from zero.  The same terms in an
expression are operands of a sum: each has a zero for the part that it lacks, and a minus sign
in front of the first changes the signs of both its parts.  The sums differ at most in the signs
of their zeros.  Only a function with a branch cut can tell.

## Main definitions

* `Term.operand t`, `sumOfOperands t more` — the number of a term in an expression, and of terms
  one after the other.
* `BelowAxis ts` — every term has a minus sign, and no imaginary part but zeros.

## Main results

* `Row.exists_expression` — terms make up an expression, whose value is their sum.
* `alike_sumOfOperands`, `im_sumOfOperands_eq_negZero_iff` — **the two sums are the same up to
  the signs of zeros, and the imaginary part is a negative zero in an expression alone, of terms
  below the axis.**
* `eval_sumOfOperands` — a function is the same at both sums, unless they lie on opposite edges
  of its branch cut.
-/

namespace Argand.Literal

open Binary64 (Opposite signed)
open Formula (Derivation Tree)

/-! ### Terms as operands -/

/-- The number of a term without its sign. -/
def Term.operand (t : Term) : ComplexNumber Float :=
  if t.digits.isEmpty then .i
  else if t.unit.isEmpty then .ofReal (Numeral.value t.digits)
  else .ofImaginary (Numeral.value t.digits)

/-- The number of the first term. -/
def Term.first (t : Term) : ComplexNumber Float :=
  if t.sign = ['-'] then t.operand.neg else t.operand

/-- A further term is added or taken away. -/
def Term.addTo (t : Term) (z : ComplexNumber Float) : ComplexNumber Float :=
  if t.sign = ['-'] then z.sub t.operand else z.add t.operand

/-- The number of terms one after the other in an expression. -/
def sumOfOperands (first : Term) (more : List Term) : ComplexNumber Float :=
  more.foldl (fun z t => t.addTo z) first.first

/-- A term without its sign is a number, or the name of the unit. -/
theorem Term.Valid.exists_atom {t : Term} (ht : t.Valid) :
    ∃ d : Derivation .atom, d.lexemes = [t.operandKind] ∧ d.tree = .number t.operand := by
  obtain ⟨sign, digits, unit⟩ := t
  cases digits with
  | cons c cs =>
    exact ⟨.number (if unit.isEmpty then .ofReal (Numeral.value (c :: cs))
      else .ofImaginary (Numeral.value (c :: cs))), rfl, rfl⟩
  | nil =>
    obtain ⟨u, rfl, hu⟩ : ∃ u, unit = [u] ∧ isUnit u = true :=
      ht.unit.resolve_left (ht.complete rfl)
    have hname : ∀ f : UnaryOperation, f.symbol ≠ String.ofList [u] := by
      intro f
      rcases Numeral.isUnit_iff.mp hu with rfl | rfl | rfl | rfl <;> cases f <;> decide
    refine ⟨.name _ hname, rfl, ?_⟩
    rcases Numeral.isUnit_iff.mp hu with rfl | rfl | rfl | rfl <;> rfl

/-- The sign of a further term is that of an operator. -/
theorem Term.Valid.exists_sign {t : Term} (ht : t.Valid) (hsigned : t.sign ≠ []) :
    ∃ s : Formula.AdditiveSign, t.sign.map signKind = [s.kind] ∧
      ∀ z : ComplexNumber Float, s.operation.eval z t.operand = t.addTo z := by
  obtain ⟨s, hs, hsign⟩ := ht.sign.resolve_left hsigned
  rcases Numeral.isSign_iff.mp hsign with rfl | rfl
  · refine ⟨.plus, by rw [hs]; rfl, fun z => ?_⟩
    rw [Term.addTo, hs]
    rfl
  · refine ⟨.minus, by rw [hs]; rfl, fun z => ?_⟩
    rw [Term.addTo, hs]
    rfl

/-- Further terms go on with a sum. -/
theorem exists_moreTerms : ∀ {more : List Term}, (∀ t ∈ more, t.Valid ∧ t.sign ≠ []) →
    ∃ d : Derivation .moreTerms, d.lexemes = more.flatMap Term.kinds ∧
      ∀ (known : Resolver) (x : ComplexNumber Float) (left : Tree) (z : ComplexNumber Float),
        left.value? known x = some z →
          (d.tree left).value? known x = some (more.foldl (fun z t => t.addTo z) z) := by
  intro more
  induction more with
  | nil =>
    intro _
    exact ⟨.noMoreTerms, rfl, fun _ _ _ _ h => h⟩
  | cons t more ih =>
    intro h
    obtain ⟨ht, hsigned⟩ := h t (List.mem_cons_self ..)
    obtain ⟨more', hlexemes, hvalue⟩ := ih fun u hu => h u (List.mem_cons_of_mem _ hu)
    obtain ⟨atom, hatom, htree⟩ := ht.exists_atom
    obtain ⟨s, hkind, hoperation⟩ := ht.exists_sign hsigned
    let term : Derivation .term := .term (.unsigned (.plain atom)) .noMoreFactors
    refine ⟨.nextTerm s term more', ?_, ?_⟩
    · change s.kind :: (atom.lexemes ++ [] ++ more'.lexemes) = _
      rw [hatom, hlexemes, List.append_nil, List.flatMap_cons, Term.kinds, hkind]
      rfl
    · intro known x left z hleft
      have hoperand : term.tree.value? known x = some t.operand := by
        change atom.tree.value? known x = _
        rw [htree]
        rfl
      exact hvalue known x _ _ (Tree.value?_operator_eq_some.mpr
        ⟨z, hleft, t.operand, hoperand, hoperation z⟩)

/-- The first term, with its sign if it has one. -/
theorem Term.Valid.exists_signed {t : Term} (ht : t.Valid) :
    ∃ d : Derivation .signed, d.lexemes = t.kinds ∧
      ∀ (known : Resolver) (x : ComplexNumber Float), d.tree.value? known x = some t.first := by
  obtain ⟨atom, hatom, htree⟩ := ht.exists_atom
  let operand : Derivation .signed := .unsigned (.plain atom)
  have hoperand : operand.lexemes = [t.operandKind] := hatom
  have hvalue (known : Resolver) (x : ComplexNumber Float) :
      operand.tree.value? known x = some t.operand := by
    change atom.tree.value? known x = _
    rw [htree]
    rfl
  rw [Term.kinds, Term.first]
  rcases ht.sign with hs | ⟨s, hs, hsign⟩
  · rw [hs]
    exact ⟨operand, hoperand, hvalue⟩
  · rw [hs]
    rcases Numeral.isSign_iff.mp hsign with rfl | rfl
    · exact ⟨.sign .plus operand, congrArg _ hoperand, hvalue⟩
    · refine ⟨.sign .minus operand, congrArg _ hoperand, fun known x => ?_⟩
      change (operand.tree.value? known x).map ComplexNumber.neg = _
      rw [hvalue]
      rfl

/-- **Terms make up an expression**, whose value is their sum. -/
theorem Row.exists_expression {first : Term} {more : List Term} (h : Row false first more) :
    ∃ d : Derivation .expression, d.lexemes = (first :: more).flatMap Term.kinds ∧
      ∀ (known : Resolver) (x : ComplexNumber Float),
        d.tree.value? known x = some (sumOfOperands first more) := by
  obtain ⟨signed, hsigned, hfirst⟩ := h.valid.exists_signed
  obtain ⟨more', hmore, hvalue⟩ := exists_moreTerms h.more
  refine ⟨.expression (.term signed .noMoreFactors) more', ?_, ?_⟩
  · change signed.lexemes ++ [] ++ more'.lexemes = _
    rw [hsigned, hmore, List.append_nil, List.flatMap_cons]
  · intro known x
    exact hvalue known x _ _ (hfirst known x)

/-! ### The two sums, part by part -/

/-- The imaginary or the real part. -/
def part (imaginary : Bool) (z : ComplexNumber Float) : Float := if imaginary then z.im else z.re

/-- What a term adds to a part of a sum. -/
def Term.part (t : Term) (imaginary : Bool) : Float :=
  signed (t.sign == ['-']) (Literal.part imaginary t.operand)

theorem part_neg (imaginary : Bool) (z : ComplexNumber Float) :
    part imaginary z.neg = -part imaginary z := by
  cases imaginary <;> rfl

theorem part_add (imaginary : Bool) (z w : ComplexNumber Float) :
    part imaginary (z.add w) = part imaginary z + part imaginary w := by
  cases imaginary <;> rfl

theorem part_sub (imaginary : Bool) (z w : ComplexNumber Float) :
    part imaginary (z.sub w) = part imaginary z - part imaginary w := by
  cases imaginary <;> rfl

theorem part_first (t : Term) (imaginary : Bool) : part imaginary t.first = t.part imaginary := by
  by_cases hs : t.sign = ['-']
  · rw [Term.first, Term.part, if_pos hs, part_neg, beq_iff_eq.mpr hs]
    rfl
  · rw [Term.first, Term.part, if_neg hs, beq_eq_false_iff_ne.mpr hs]
    rfl

theorem part_addTo (t : Term) (imaginary : Bool) (z : ComplexNumber Float) :
    part imaginary (t.addTo z) = part imaginary z + t.part imaginary := by
  by_cases hs : t.sign = ['-']
  · rw [Term.addTo, Term.part, if_pos hs, part_sub, beq_iff_eq.mpr hs,
      Binary64.sub_eq_add_neg]
    rfl
  · rw [Term.addTo, Term.part, if_neg hs, part_add, beq_eq_false_iff_ne.mpr hs]
    rfl

theorem part_value (imaginary : Bool) (ts : List Term) :
    part imaginary (value ts) = sum (ts.filter (·.isImaginary == imaginary)) := by
  cases imaginary with
  | true => exact congrArg sum (List.filter_congr fun t _ => (beq_true t.isImaginary).symm)
  | false => exact congrArg sum (List.filter_congr fun t _ => (beq_false t.isImaginary).symm)

/-- A term counts towards one part, and the other gets a zero. -/
theorem Term.Valid.part_eq {t : Term} (ht : t.Valid) (imaginary : Bool) :
    t.isImaginary = imaginary ∧ t.part imaginary = t.value ∨
      t.isImaginary ≠ imaginary ∧ (t.part imaginary == 0) = true := by
  obtain ⟨sign, digits, unit⟩ := t
  have hzero : (signed (sign == ['-']) 0 == 0) = true := by
    cases sign == ['-'] <;> rfl
  cases hunit : unit with
  | nil =>
    -- a real term has digits
    cases digits with
    | nil => exact absurd hunit (ht.complete rfl)
    | cons c cs =>
      cases imaginary with
      | false => exact .inl ⟨rfl, rfl⟩
      | true => exact .inr ⟨Bool.false_ne_true, hzero⟩
  | cons u us =>
    cases imaginary with
    | true => exact .inl ⟨rfl, by cases digits <;> rfl⟩
    | false => exact .inr ⟨Bool.false_ne_true.symm, by cases digits <;> exact hzero⟩

/-- A part of a sum goes on alike from alike numbers. -/
theorem alike_foldl (imaginary : Bool) : ∀ {more : List Term}, (∀ t ∈ more, t.Valid) →
    ∀ {z : ComplexNumber Float} {total : Float}, Binary64.Alike (part imaginary z) total →
      Binary64.Alike (part imaginary (more.foldl (fun z t => t.addTo z) z))
        ((more.filter (·.isImaginary == imaginary)).foldl (fun total t => total + t.value)
          total) := by
  intro more
  -- a term adds the same to both, or a zero to the sum in the expression alone
  induction more with
  | nil =>
    intro _ z total h
    exact h
  | cons t more ih =>
    intro hvalid z total h
    have hmore : ∀ u ∈ more, u.Valid := fun u hu => hvalid u (List.mem_cons_of_mem _ hu)
    rw [List.foldl_cons, List.filter_cons]
    rcases (hvalid t (List.mem_cons_self ..)).part_eq imaginary with ⟨hsame, hpart⟩ |
      ⟨hother, hzero⟩
    · rw [if_pos (beq_iff_eq.mpr hsame), List.foldl_cons]
      refine ih hmore ?_
      rw [part_addTo, hpart]
      exact h.add (.refl _)
    · rw [if_neg fun hsame => hother (beq_iff_eq.mp hsame)]
      refine ih hmore ?_
      rw [part_addTo]
      exact (Binary64.Alike.add_zero _ hzero).trans h

/-- **The two sums are the same up to the signs of zeros.** -/
theorem Row.alike_sumOfOperands {signed : Bool} {first : Term} {more : List Term}
    (h : Row signed first more) :
    ComplexNumber.Alike (sumOfOperands first more) (value (first :: more)) := by
  have hmore : ∀ t ∈ more, t.Valid := fun t ht => (h.more t ht).1
  have hpart (imaginary : Bool) : Binary64.Alike (part imaginary (sumOfOperands first more))
      (part imaginary (value (first :: more))) := by
    have hstart : Binary64.Alike (first.part imaginary) (0 + first.part imaginary) := by
      rw [Binary64.add_comm]
      exact (Binary64.Alike.add_zero _ rfl).symm
    rw [part_value, sum, List.filter_cons]
    rcases h.valid.part_eq imaginary with ⟨hsame, hvalue⟩ | ⟨hother, hzero⟩
    · rw [if_pos (beq_iff_eq.mpr hsame), List.foldl_cons]
      refine alike_foldl imaginary hmore ?_
      rwa [part_first, ← hvalue]
    · rw [if_neg fun hsame => hother (beq_iff_eq.mp hsame)]
      refine alike_foldl imaginary hmore ?_
      rw [part_first]
      exact hstart.trans (Binary64.Alike.add_zero 0 hzero)
  exact ⟨hpart false, hpart true⟩

/-! ### Signs of zeros -/

/-- No numeral is a negative zero. -/
theorem nearest_ne_negZero (r : Ratio) : Binary64.nearest r ≠ -0.0 := by
  rw [Binary64.nearest]
  split
  · exact ComplexNumber.zero_ne_negZero
  · dsimp only
    generalize hbits : min _ Binary64.infinityBits = bits
    have hle : bits ≤ Binary64.infinityBits := by
      rw [← hbits]
      exact Nat.min_le_right _ _
    rcases Nat.eq_zero_or_pos bits with rfl | hpos
    · decide
    · intro h
      have hzero := Binary64.ofBits_beq_zero hle hpos
      rw [h] at hzero
      exact absurd hzero (by decide)

theorem nearestDecimal_ne_negZero (coefficient : Nat) (exponent : Int) :
    Decimal.nearestDecimal coefficient exponent ≠ -0.0 := by
  unfold Decimal.nearestDecimal
  split
  · exact ComplexNumber.zero_ne_negZero
  · split
    · decide
    · split
      · exact ComplexNumber.zero_ne_negZero
      · exact nearest_ne_negZero _

theorem value_ne_negZero (ds : List Char) : Numeral.value ds ≠ -0.0 :=
  nearestDecimal_ne_negZero _ _

/-- A part of a number that lies on one of the axes. -/
theorem part_ofReal (imaginary : Bool) (x : Float) :
    part imaginary (.ofReal x) = if imaginary then 0 else x := by
  cases imaginary <;> rfl

theorem part_ofImaginary (imaginary : Bool) (y : Float) :
    part imaginary (.ofImaginary y) = if imaginary then y else 0 := by
  cases imaginary <;> rfl

/-- A term without its sign has no negative zeros. -/
theorem part_operand_ne_negZero (t : Term) (imaginary : Bool) :
    part imaginary t.operand ≠ -0.0 := by
  have hite {x y : Float} (hx : x ≠ -0.0) (hy : y ≠ -0.0) :
      (if imaginary then x else y) ≠ -0.0 := by
    split
    · exact hx
    · exact hy
  rw [Term.operand]
  split
  · rw [ComplexNumber.i, part_ofImaginary]
    exact hite ComplexNumber.one_ne_negZero ComplexNumber.zero_ne_negZero
  · split
    · rw [part_ofReal]
      exact hite ComplexNumber.zero_ne_negZero (value_ne_negZero _)
    · rw [part_ofImaginary]
      exact hite (value_ne_negZero _) ComplexNumber.zero_ne_negZero

/-- A term adds a negative zero if it takes a zero away. -/
theorem part_eq_negZero_iff (t : Term) (imaginary : Bool) :
    t.part imaginary = -0.0 ↔ t.sign = ['-'] ∧ part imaginary t.operand = 0 := by
  by_cases hs : t.sign = ['-']
  · rw [Term.part, beq_iff_eq.mpr hs, Binary64.signed_true, Binary64.neg_eq_negZero_iff]
    exact (and_iff_right hs).symm
  · rw [Term.part, beq_eq_false_iff_ne.mpr hs, Binary64.signed_false]
    exact iff_of_false (part_operand_ne_negZero t imaginary) fun h => hs h.1

/-- A sum is a negative zero if it starts with one and only negative zeros are added. -/
theorem foldl_eq_negZero_iff (f : Term → Float) : ∀ {ts : List Term} {total : Float},
    ts.foldl (fun total t => total + f t) total = -0.0 ↔ total = -0.0 ∧ ∀ t ∈ ts, f t = -0.0 := by
  intro ts
  induction ts with
  | nil =>
    intro total
    simp
  | cons t ts ih =>
    intro total
    rw [List.foldl_cons, ih, Binary64.add_eq_negZero_iff, List.forall_mem_cons, and_assoc]

/-- No part of a literal is a negative zero. -/
theorem part_value_ne_negZero (imaginary : Bool) (ts : List Term) :
    part imaginary (value ts) ≠ -0.0 := by
  rw [part_value, sum, ne_eq, foldl_eq_negZero_iff Term.value]
  exact fun h => ComplexNumber.zero_ne_negZero h.1

theorem part_foldl (imaginary : Bool) : ∀ (more : List Term) (z : ComplexNumber Float),
    part imaginary (more.foldl (fun z t => t.addTo z) z) =
      more.foldl (fun total t => total + t.part imaginary) (part imaginary z) := by
  intro more
  induction more with
  | nil =>
    intro z
    rfl
  | cons t more ih =>
    intro z
    rw [List.foldl_cons, List.foldl_cons, ih, part_addTo]

/-- Every term has a minus sign, and none has an imaginary part but zeros. -/
def BelowAxis (ts : List Term) : Prop := ∀ t ∈ ts, t.sign = ['-'] ∧ t.operand.im = 0

/-- **The imaginary part is a negative zero in an expression, of terms below the axis.** -/
theorem im_sumOfOperands_eq_negZero_iff (first : Term) (more : List Term) :
    (sumOfOperands first more).im = -0.0 ↔ BelowAxis (first :: more) := by
  change part true (more.foldl (fun z t => t.addTo z) first.first) = -0.0 ↔ _
  rw [part_foldl, part_first, foldl_eq_negZero_iff fun t => t.part true,
    BelowAxis, List.forall_mem_cons, part_eq_negZero_iff]
  exact and_congr_right fun _ =>
    forall₂_congr fun t _ => part_eq_negZero_iff t true

/-! ### Functions of the two sums -/

/-- The branch cut of a function runs between the sum of terms in an expression and the literal:
both are negative, and the sum is on the lower edge. -/
def CutBetween (f : UnaryOperation) (ts : List Term) : Prop :=
  (f = .ln ∨ f = .sqrt) ∧ (value ts).re < 0 ∧ BelowAxis ts

namespace Row

variable {signed : Bool} {first : Term} {more : List Term}

/-- The sums on opposite edges of the real axis: the literal is on the upper one. -/
theorem opposite_im_iff (h : Row signed first more) :
    Opposite (sumOfOperands first more).im (value (first :: more)).im ↔
      BelowAxis (first :: more) := by
  have hvalue : (value (first :: more)).im ≠ -0.0 := part_value_ne_negZero true _
  rw [← im_sumOfOperands_eq_negZero_iff]
  constructor
  · intro hopposite
    rcases hopposite.cases with ⟨-, himpossible⟩ | ⟨hbelow, -⟩
    · exact absurd himpossible hvalue
    · exact hbelow
  · intro hbelow
    rcases h.alike_sumOfOperands.im with hsame | hopposite
    · exact absurd (hsame.symm.trans hbelow) hvalue
    · exact hopposite

/-- A literal of terms below the axis has no imaginary part. -/
theorem im_value_eq_zero (h : Row signed first more) (hbelow : BelowAxis (first :: more)) :
    (value (first :: more)).im = 0 := by
  rcases (h.opposite_im_iff.mpr hbelow).cases with ⟨-, himpossible⟩ | ⟨-, hzero⟩
  · exact absurd himpossible (part_value_ne_negZero true _)
  · exact hzero

/-- A function is alike at both sums, unless its branch cut is between them. -/
theorem eval_alike (h : Row signed first more) (f : UnaryOperation)
    (hcut : ¬CutBetween f (first :: more)) :
    ComplexNumber.Alike (f.eval (sumOfOperands first more)) (f.eval (value (first :: more))) := by
  have halike := h.alike_sumOfOperands
  refine UnaryOperation.eval_alike f halike ?_
  rintro hf ⟨hneg, hopposite⟩
  have hre : (sumOfOperands first more).re = (value (first :: more)).re :=
    halike.re.eq_of_not_zero (Binary64.ne_zero_of_neg hneg).2
  exact hcut ⟨hf, hre ▸ hneg, h.opposite_im_iff.mp hopposite⟩

/-- With the branch cut between the sums, the values are mirror images. -/
theorem eval_eq_conj (h : Row signed first more) {f : UnaryOperation}
    (hcut : CutBetween f (first :: more)) :
    f.eval (sumOfOperands first more) =
      ComplexNumber.conj (f.eval (value (first :: more))) := by
  obtain ⟨hf, hneg, hbelow⟩ := hcut
  have hre : (value (first :: more)).re = (sumOfOperands first more).re :=
    h.alike_sumOfOperands.re.symm.eq_of_not_zero (Binary64.ne_zero_of_neg hneg).2
  have hsum : sumOfOperands first more = ⟨(value (first :: more)).re, -0.0⟩ :=
    ComplexNumber.eq_of_parts hre.symm ((im_sumOfOperands_eq_negZero_iff first more).mpr hbelow)
  have hvalue : value (first :: more) = ⟨(value (first :: more)).re, 0⟩ :=
    ComplexNumber.eq_of_parts rfl (h.im_value_eq_zero hbelow)
  rw [hsum]
  conv => rhs; rw [hvalue]
  exact UnaryOperation.eval_lowerEdge hf hneg

end Row

end Argand.Literal
