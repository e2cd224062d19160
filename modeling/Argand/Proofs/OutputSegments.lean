import Argand.Proofs.CallDepth
import Argand.Proofs.Refusals

/-!
# What an operand appends to the output

All productions write to the end of one row of tokens, whatever it holds already.  A production
that reads an operand leaves what stands there as it is and appends a segment of its own, of at most
one token for each lexeme it uses up.

A minus sign looks at nothing but the last token of that row.  This is enough, as a segment ends in
a number only if it is that number alone: a number at the end is the whole operand of the sign, and
a sign in front of a longer operand finds an operation, a name or the input there.

## Main definitions

* `Nonterminal.readsOperand n` — `n` is none of the loops that go on with an operand.
* `NumbersStandAlone segment` — the segment ends in a number only if it is nothing else.
* `negated line segment` — the segment of an operand with a minus sign in front.

## Main results

* `Derivation.fits` — a phrase has no more tokens than lexemes.
* `Tree.numbersStandAlone_tokens`, `Tree.tokens_minus_eq_negated` — looking at the last token of an
  operand is looking at the operand.
* `production_frame` — **a production appends one segment and changes nothing else.**
-/

namespace Argand.Formula

/-! ### Segments -/

/-- A row of tokens that ends in a number only if it is nothing but that number. -/
def NumbersStandAlone (segment : List Token) : Prop :=
  ∀ z line, segment.getLast? = some ⟨.number z, line⟩ → segment = [⟨.number z, line⟩]

/-- What an operand leaves behind with a minus sign in front of it: a number is negated at once, and
anything else by an operation. -/
def negated (line : Int) : List Token → List Token
  | [⟨.number z, _⟩] => [⟨.number z.neg, line⟩]
  | segment => segment ++ [⟨.operation (.unary .neg), line⟩]

/-- What is no number alone is negated by an operation. -/
theorem negated_concat (line : Int) {k : Token.Kind} (hk : ∀ z, k ≠ .number z)
    (earlier : List Token) (number : Int) :
    negated line (earlier ++ [⟨k, number⟩]) =
      earlier ++ [⟨k, number⟩] ++ [⟨.operation (.unary .neg), line⟩] := by
  unfold negated
  split
  · next z _ h =>
    have hlast := congrArg List.getLast? h
    rw [List.getLast?_concat, List.getLast?_singleton, Option.some.injEq, Token.mk.injEq] at hlast
    exact absurd hlast.1 (hk z)
  · rfl

/-! ### The segment of a tree -/

namespace Tree

theorem numbersStandAlone_tokens (line : Int) (t : Tree) : NumbersStandAlone (t.tokens line) := by
  intro z number hlast
  cases hz : t.literal? with
  | some w =>
    rw [tokens, postorder_of_literal? hz] at hlast ⊢
    rw [List.map_singleton, List.getLast?_singleton, Option.some.injEq] at hlast
    rw [List.map_singleton, hlast]
  | none =>
    obtain ⟨ks, k, hks, hk⟩ := exists_postorder_eq_concat hz
    rw [tokens, hks, List.map_append, List.map_singleton, List.getLast?_concat, Option.some.injEq,
      Token.mk.injEq] at hlast
    exact absurd hlast.1 (hk z)

/-- A minus sign negates the whole segment of its operand. -/
theorem tokens_minus_eq_negated (line : Int) (t : Tree) :
    (minus t).tokens line = negated line (t.tokens line) := by
  cases hz : t.literal? with
  | some z =>
    rw [tokens_minus_of_literal? line hz, tokens, postorder_of_literal? hz]
    rfl
  | none =>
    obtain ⟨ks, k, hks, hk⟩ := exists_postorder_eq_concat hz
    rw [tokens_minus line hz, tokens, hks, List.map_append, List.map_singleton,
      negated_concat line hk]

theorem postorder_ne_nil (t : Tree) : t.postorder ≠ [] := by
  cases hz : t.literal? with
  | some z => simp [postorder_of_literal? hz]
  | none =>
    obtain ⟨ks, k, hks, -⟩ := exists_postorder_eq_concat hz
    simp [hks]

theorem length_postorder_minus_le (t : Tree) :
    (minus t).postorder.length ≤ t.postorder.length + 1 := by
  rw [postorder]
  split
  · exact Nat.succ_le_succ (Nat.zero_le _)
  · exact (List.length_append ..).le

end Tree

/-- A phrase of `n` that means `m` has `k` lexemes, and leaves behind no more tokens; if it goes on
with an operand, no more than that operand and so many. -/
def Nonterminal.Fits (k : Nat) : (n : Nonterminal) → n.Meaning → Prop
  | .expression, t => (Tree.postorder t).length ≤ k
  | .moreTerms, go => ∀ left, (Tree.postorder (go left)).length ≤ left.postorder.length + k
  | .term, t => (Tree.postorder t).length ≤ k
  | .moreFactors, go => ∀ left, (Tree.postorder (go left)).length ≤ left.postorder.length + k
  | .signed, t => (Tree.postorder t).length ≤ k
  | .power, t => (Tree.postorder t).length ≤ k
  | .atom, t => (Tree.postorder t).length ≤ k

/-- **A phrase has no more tokens than lexemes.** -/
theorem Derivation.fits :
    ∀ {n : Nonterminal} (d : Derivation n), n.Fits d.lexemes.length d.tree := by
  intro n d
  induction d with
  | expression first more ihFirst ihMore =>
    have hmore := ihMore first.tree
    simp only [Nonterminal.Fits] at ihFirst
    simp only [Nonterminal.Fits, lexemes, tree, List.length_append]
    omega
  | noMoreTerms => exact fun left => le_rfl
  | nextTerm s next more ihNext ihMore =>
    intro left
    have hmore := ihMore (.operator s.operation left next.tree)
    simp only [Nonterminal.Fits] at ihNext
    simp only [Tree.postorder, List.length_append, List.length_singleton] at hmore
    simp only [lexemes, tree, List.length_append, List.length_cons]
    omega
  | term first more ihFirst ihMore =>
    have hmore := ihMore first.tree
    simp only [Nonterminal.Fits] at ihFirst
    simp only [Nonterminal.Fits, lexemes, tree, List.length_append]
    omega
  | noMoreFactors => exact fun left => le_rfl
  | nextFactor s next more ihNext ihMore =>
    intro left
    have hmore := ihMore (.operator s.operation left next.tree)
    simp only [Nonterminal.Fits] at ihNext
    simp only [Tree.postorder, List.length_append, List.length_singleton] at hmore
    simp only [lexemes, tree, List.length_append, List.length_cons]
    omega
  | sign s operand ih =>
    have hminus := Tree.length_postorder_minus_le operand.tree
    simp only [Nonterminal.Fits] at ih
    cases s with
    | plus => exact Nat.le_succ_of_le ih
    | minus =>
      simp only [Nonterminal.Fits, lexemes, tree, Tree.withSign, List.length_cons]
      omega
  | unsigned power ih => exact ih
  | plain base ih => exact ih
  | raised base s exponent ihBase ihExponent =>
    simp only [Nonterminal.Fits] at ihBase ihExponent
    simp only [Nonterminal.Fits, lexemes, tree, Tree.postorder, List.length_append,
      List.length_cons, List.length_nil]
    omega
  | number z => exact le_rfl
  | parentheses inner ih =>
    simp only [Nonterminal.Fits] at ih
    simp only [Nonterminal.Fits, lexemes, tree, List.length_append, List.length_cons]
    omega
  | call f operand ih =>
    simp only [Nonterminal.Fits] at ih
    simp only [Nonterminal.Fits, lexemes, tree, Tree.postorder, List.length_append,
      List.length_cons, List.length_nil]
    omega
  | name text notFunction =>
    simp only [Nonterminal.Fits, lexemes, tree, Tree.postorder_ofName]
    exact le_rfl

/-! ### The segment of a production -/

namespace Nonterminal

/-- Whether the production of a left side reads an operand, and is no loop that goes on with one. -/
def readsOperand : Nonterminal → Bool
  | .moreTerms => false
  | .moreFactors => false
  | _ => true

variable {n : Nonterminal} {line : Line} {s u : Cursor}

/-- What a production that reads an operand uses up is the sentence of a tree, and it appends the
tokens of that tree. -/
theorem exists_tree_of_read (hn : n.readsOperand = true) (h : n.read line s = .ok u) :
    ∃ (ks : List Lexeme.Kind) (t : Tree), s.kinds = ks ++ u.kinds ∧ u.unread <:+ s.unread ∧
      u.output.toList = s.output.toList ++ t.tokens line.number ∧
      t.postorder.length ≤ ks.length := by
  obtain ⟨d, hks, hout⟩ := n.sound line s u h
  have hfits := d.fits
  have hreports := n.reports line s
  rw [Reports, h] at hreports
  cases n with
  | expression => exact ⟨_, d.tree, hks, (hreports trivial).1, hout, hfits⟩
  | moreTerms => cases hn
  | term => exact ⟨_, d.tree, hks, (hreports trivial).1, hout, hfits⟩
  | moreFactors => cases hn
  | signed => exact ⟨_, d.tree, hks, (hreports trivial).1, hout, hfits⟩
  | power => exact ⟨_, d.tree, hks, (hreports trivial).1, hout, hfits⟩
  | atom => exact ⟨_, d.tree, hks, (hreports trivial).1, hout, hfits⟩

/-- A production that reads an operand uses lexemes up and appends a segment. -/
theorem exists_segment_of_read (hn : n.readsOperand = true) (h : n.read line s = .ok u) :
    ∃ (taken : Nat) (segment : List Token), 0 < taken ∧ taken ≤ s.unread.length ∧
      u = ⟨s.unread.drop taken, s.output ++ segment⟩ ∧ segment ≠ [] ∧
      NumbersStandAlone segment ∧ segment.length ≤ taken := by
  obtain ⟨ks, t, hks, hsuffix, hout, hlength⟩ := exists_tree_of_read hn h
  have hpos := List.length_pos_iff.mpr t.postorder_ne_nil
  have htaken : s.unread.length = ks.length + u.unread.length := by
    simpa [Cursor.kinds] using congrArg List.length hks
  refine ⟨ks.length, t.tokens line.number, by omega, by omega, ?_, ?_,
    t.numbersStandAlone_tokens _, ?_⟩
  · have hunread : u.unread = s.unread.drop ks.length := by
      have hlength : s.unread.length - u.unread.length = ks.length := by omega
      rw [List.suffix_iff_eq_drop.mp hsuffix, hlength]
    have houtput : u.output = s.output ++ t.tokens line.number := by
      rw [← Array.toList_inj, hout, Array.toList_appendList]
    rw [← hunread, ← houtput]
  · simpa [Tree.tokens] using t.postorder_ne_nil
  · simpa [Tree.tokens] using hlength

/-- A minus sign in front of an operand negates the segment of that operand. -/
theorem negateLast_of_read {t : Cursor} {rest : List Lexeme} {out : Array Token}
    (h : signed.read line ⟨rest, out⟩ = .ok t) :
    ∃ segment : List Token, t.output = out ++ segment ∧ segment ≠ [] ∧
      NumbersStandAlone segment ∧
      t.negateLast line = ⟨t.unread, out ++ negated line.number segment⟩ := by
  obtain ⟨ks, tree, -, -, hout, -⟩ := exists_tree_of_read rfl h
  have hnegated := toList_output_negateLast hout
  rw [Tree.tokens_minus_eq_negated, ← Array.toList_appendList, Array.toList_inj] at hnegated
  refine ⟨tree.tokens line.number, ?_, ?_, tree.numbersStandAlone_tokens _, ?_⟩
  · rw [← Array.toList_inj, hout, Array.toList_appendList]
  · simpa [Tree.tokens] using tree.postorder_ne_nil
  · rw [← hnegated, ← Cursor.negateLast_unread t line]

end Nonterminal

/-! ### The frame of a production -/

/-- **A production appends one segment and changes nothing else.**  From any place in a row of
lexemes, and whatever the output holds, a production that reads an operand is refused, or it uses up
one lexeme at least and none behind the last, keeps the output as it was and appends a segment that
is not empty, has no more tokens than lexemes were used up, and ends in a number only if it is that
number alone.  A minus sign in front of an operand negates the whole segment of that operand and
nothing before it.  And the recursion ends: reading does not need more open calls than a bound that
only depends on the number of lexemes. -/
theorem production_frame (line : Line) (lexemes : List Lexeme) (position : Nat)
    (out : Array Token) :
    (∀ n : Nonterminal, n.readsOperand = true →
      (∃ e, n.read line ⟨lexemes.drop position, out⟩ = .error e) ∨
      ∃ (taken : Nat) (segment : List Token), 0 < taken ∧ position + taken ≤ lexemes.length ∧
        n.read line ⟨lexemes.drop position, out⟩ =
          .ok ⟨lexemes.drop (position + taken), out ++ segment⟩ ∧
        segment ≠ [] ∧ NumbersStandAlone segment ∧ segment.length ≤ taken) ∧
    (∀ (sign : Lexeme) (rest : List Lexeme) (t : Cursor), lexemes.drop position = sign :: rest →
      sign.kind = .mark .minus → Nonterminal.signed.read line ⟨rest, out⟩ = .ok t →
      Nonterminal.signed.read line ⟨lexemes.drop position, out⟩ = .ok (t.negateLast line) ∧
      ∃ segment : List Token, t.output = out ++ segment ∧ segment ≠ [] ∧
        NumbersStandAlone segment ∧
        t.negateLast line = ⟨t.unread, out ++ negated line.number segment⟩) ∧
    ∀ (n : Nonterminal) (depth : Nat), 8 * (lexemes.length - position) + 7 ≤ depth →
      Nonterminal.readWithin line depth n ⟨lexemes.drop position, out⟩ =
        (n.read line ⟨lexemes.drop position, out⟩).mapError some := by
  refine ⟨?_, ?_, ?_⟩
  · intro n hn
    cases h : n.read line ⟨lexemes.drop position, out⟩ with
    | error e => exact .inl ⟨e, rfl⟩
    | ok u =>
      obtain ⟨taken, segment, hpos, hle, rfl, hne, halone, hlength⟩ :=
        Nonterminal.exists_segment_of_read hn h
      rw [List.length_drop] at hle
      refine .inr ⟨taken, segment, hpos, by omega, ?_, hne, halone, hlength⟩
      rw [List.drop_drop]
  · intro sign rest t hrest hsign ht
    refine ⟨?_, Nonterminal.negateLast_of_read ht⟩
    rw [hrest]
    exact (Nonterminal.read_signed_sign .minus hsign).mpr ⟨t, ht, rfl⟩
  · intro n depth hdepth
    refine Nonterminal.readWithin_eq n line ?_
    rw [List.length_drop]
    exact hdepth

/-- In `1 * -3 ^ 2` the minus sign negates the power by an operation, and leaves both the exponent
and the factor in front of it alone. -/
theorem production_frame_minus_power :
    let one : Token := ⟨.number ⟨1, 0⟩, 1⟩
    let sign : Lexeme := ⟨.mark .minus, 4, 1⟩
    let rest : List Lexeme := [⟨.number ⟨3, 0⟩, 5, 1⟩, ⟨.mark .caret, 7, 1⟩, ⟨.number ⟨2, 0⟩, 9, 1⟩]
    let lexemes : List Lexeme := ⟨.number ⟨1, 0⟩, 0, 1⟩ :: ⟨.mark .star, 2, 1⟩ :: sign :: rest
    let square : List Token :=
      [⟨.number ⟨3, 0⟩, 1⟩, ⟨.number ⟨2, 0⟩, 1⟩, ⟨.operation (.binary .pow), 1⟩]
    let negatedSquare : List Token := square ++ [⟨.operation (.unary .neg), 1⟩]
    Nonterminal.signed.readsOperand = true ∧
      lexemes.drop 2 = sign :: rest ∧ sign.kind = .mark .minus ∧
      Nonterminal.signed.read ⟨1, 10⟩ ⟨rest, #[one]⟩ = .ok ⟨[], #[one] ++ square⟩ ∧
      Nonterminal.signed.read ⟨1, 10⟩ ⟨lexemes.drop 2, #[one]⟩ =
        .ok ⟨[], #[one] ++ negatedSquare⟩ ∧
      NumbersStandAlone negatedSquare ∧
      8 * (lexemes.length - 2) + 7 ≤ 39 ∧
      Nonterminal.readWithin ⟨1, 10⟩ 39 .signed ⟨lexemes.drop 2, #[one]⟩ =
        .ok ⟨[], #[one] ++ negatedSquare⟩ := by
  intro one sign rest lexemes square negatedSquare
  have hdepth : 8 * (Cursor.mk rest #[one]).unread.length + 7 ≤ 31 := by decide
  have hsquare : Nonterminal.signed.read ⟨1, 10⟩ ⟨rest, #[one]⟩ = .ok ⟨[], #[one] ++ square⟩ :=
    (Nonterminal.readWithin_eq_ok_iff hdepth).mp rfl
  obtain ⟨hframe, hminus, hwithin⟩ := production_frame ⟨1, 10⟩ lexemes 2 #[one]
  obtain ⟨hread, segment, hsegment, -, -, hnegated⟩ := hminus sign rest _ rfl rfl hsquare
  have hsegment : segment = square := by
    have htokens := congrArg Array.toList hsegment
    simpa using htokens.symm
  subst hsegment
  have hread : Nonterminal.signed.read ⟨1, 10⟩ ⟨lexemes.drop 2, #[one]⟩ =
      .ok ⟨[], #[one] ++ negatedSquare⟩ := by
    rw [hread, hnegated]
    rfl
  have halone : NumbersStandAlone negatedSquare := by
    obtain ⟨e, he⟩ | ⟨taken, segment, -, -, htaken, -, halone, -⟩ := hframe .signed rfl
    · rw [hread] at he
      cases he
    · rw [hread, Except.ok.injEq, Cursor.mk.injEq] at htaken
      have htokens := congrArg Array.toList htaken.2
      obtain rfl : segment = negatedSquare := by simpa using htokens.symm
      exact halone
  refine ⟨rfl, rfl, rfl, hsquare, hread, halone, by decide, ?_⟩
  rw [hwithin .signed 39 (by decide), hread]
  rfl

end Argand.Formula
