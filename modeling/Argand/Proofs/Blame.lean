import Argand.Proofs.Compilation
import Argand.Proofs.Concatenation
import Argand.Proofs.OperandLines
import Argand.Registry

/-!
# Which line is to blame

A program that was read from a text can fail in two ways only.  A line that takes operands off
the stack, an operation on its own or an assignment, finds too few of them; or an expression
names something that stands for nothing.  The error carries the number of that line.

## Main definitions

* `NamedIn raw name` — the name is a lexeme of the line.
* `EvalError.Blames text resolve e` — the error is about a line of the text that can cause it.

## Main results

* `Formula.Derivation.names_among` — the names of a tree are among the lexemes of its sentence.
* `ReadAs.error_cases` — **how a line of a formula can fail.**
* `exists_failing_line` — a program fails on one of its lines, after the lines above it.
* `Program.evaluate_blames` — **an error is about a line that can cause it.**
-/

namespace Argand

open Text Formula

/-! ### The names of a tree -/

/-- A name that has no meaning to the productions. -/
def Formula.IsFree (name : String) : Prop :=
  (∀ f : UnaryOperation, f.symbol ≠ name) ∧ name ≠ inputName ∧ unitNames.contains name = false

namespace Formula

/-- The names of a meaning satisfy `P`; further terms and factors add only such names to those
on their left. -/
def Nonterminal.NamesAmong (P : String → Prop) : (n : Nonterminal) → n.Meaning → Prop
  | .expression, t => ∀ name ∈ Tree.names t, P name
  | .moreTerms, go => ∀ left : Tree, (∀ name ∈ left.names, P name) →
      ∀ name ∈ Tree.names (go left), P name
  | .term, t => ∀ name ∈ Tree.names t, P name
  | .moreFactors, go => ∀ left : Tree, (∀ name ∈ left.names, P name) →
      ∀ name ∈ Tree.names (go left), P name
  | .signed, t => ∀ name ∈ Tree.names t, P name
  | .power, t => ∀ name ∈ Tree.names t, P name
  | .atom, t => ∀ name ∈ Tree.names t, P name

theorem Tree.names_operator {P : String → Prop} {left right : Tree} (op : BinaryOperation)
    (hleft : ∀ name ∈ left.names, P name) (hright : ∀ name ∈ right.names, P name) :
    ∀ name ∈ (Tree.operator op left right).names, P name := by
  rw [names]
  exact List.forall_mem_append.mpr ⟨hleft, hright⟩

/-- The names of a tree are among the lexemes of its sentence, and mean nothing to the
productions. -/
theorem Derivation.names_among {P : String → Prop} {n : Nonterminal} (d : Derivation n)
    (h : ∀ name, .name name ∈ d.lexemes → IsFree name → P name) : n.NamesAmong P d.tree := by
  induction d with
  | expression first more ihFirst ihMore =>
    have hfirst := ihFirst fun name hname => h name (List.mem_append_left _ hname)
    exact ihMore (fun name hname => h name (List.mem_append_right _ hname)) first.tree hfirst
  | noMoreTerms => exact fun left hleft => hleft
  | nextTerm s next more ihNext ihMore =>
    intro left hleft
    have hnext := ihNext fun name hname =>
      h name (List.mem_cons_of_mem _ (List.mem_append_left _ hname))
    have hmore := ihMore fun name hname =>
      h name (List.mem_cons_of_mem _ (List.mem_append_right _ hname))
    exact hmore _ (Tree.names_operator s.operation hleft hnext)
  | term first more ihFirst ihMore =>
    have hfirst := ihFirst fun name hname => h name (List.mem_append_left _ hname)
    exact ihMore (fun name hname => h name (List.mem_append_right _ hname)) first.tree hfirst
  | noMoreFactors => exact fun left hleft => hleft
  | nextFactor s next more ihNext ihMore =>
    intro left hleft
    have hnext := ihNext fun name hname =>
      h name (List.mem_cons_of_mem _ (List.mem_append_left _ hname))
    have hmore := ihMore fun name hname =>
      h name (List.mem_cons_of_mem _ (List.mem_append_right _ hname))
    exact hmore _ (Tree.names_operator s.operation hleft hnext)
  | sign s operand ih =>
    have hoperand := ih fun name hname => h name (List.mem_cons_of_mem _ hname)
    cases s <;> exact hoperand
  | unsigned power ih => exact ih h
  | plain base ih => exact ih h
  | raised base s exponent ihBase ihExponent =>
    have hbase := ihBase fun name hname => h name (List.mem_append_left _ hname)
    have hexponent := ihExponent fun name hname =>
      h name (List.mem_append_right _ (List.mem_cons_of_mem _ hname))
    exact Tree.names_operator .pow hbase hexponent
  | number value => exact List.forall_mem_nil _
  | parentheses inner ih =>
    exact ih fun name hname => h name (List.mem_cons_of_mem _ (List.mem_append_left _ hname))
  | call f operand ih => exact ih fun name hname => h name (List.mem_cons_of_mem _ hname)
  | name text notFunction =>
    rw [Nonterminal.NamesAmong, tree, Tree.ofName]
    split
    · exact List.forall_mem_nil _
    · next hinput =>
      split
      · exact List.forall_mem_nil _
      · next hunit =>
        refine List.forall_mem_singleton.mpr (h text (List.mem_singleton_self _) ?_)
        exact ⟨notFunction, hinput, eq_false_of_ne_true hunit⟩

end Formula

/-! ### Names in lines -/

/-- A name is a lexeme of a line, and its characters stand at its column. -/
def NamedIn (raw : List Char) (name : String) : Prop :=
  ∃ lexemes, Lexer.scan 0 raw = .ok lexemes ∧ ∃ l ∈ lexemes, l.kind = .name name ∧
    (raw.drop l.column).take l.width = name.toList

/-- What a name starts with starts no operator. -/
theorem isReserved_of_isFree {name : String} (hfree : IsFree name) {c : Char} {cs : List Char}
    (hname : name.toList = c :: cs) (hc : isNameStart c = true) : isReserved name = false := by
  obtain ⟨hfunction, hinput, hunit⟩ := hfree
  have hoperator : ∀ op : BinaryOperation, op.symbol ≠ name := by
    rintro op rfl
    cases op <;> (obtain ⟨rfl, -⟩ := List.cons.inj hname; cases hc)
  have hdouble : Operation.doubleStar ≠ name := by
    rintro rfl
    obtain ⟨rfl, -⟩ := List.cons.inj hname
    cases hc
  have hsymbols : Operation.symbols.contains name = false := by
    rw [List.contains_eq_mem, decide_eq_false_iff_not]
    intro hmem
    rcases List.mem_append.mp hmem with hmem | hmem
    · obtain ⟨op, -, hop⟩ := List.mem_map.mp hmem
      cases op with
      | binary op => exact hoperator op hop
      | unary f => exact hfunction f hop
    · exact hdouble (List.mem_singleton.mp hmem).symm
  rw [isReserved, hunit, hsymbols, beq_false_of_ne hinput]
  rfl

/-- A name that an expression has to look up is a lexeme of its line, and has no meaning of its
own. -/
theorem namedIn_of_mem_names {raw : List Char} {lexemes : List Lexeme}
    {d : Derivation .expression} (hscan : Lexer.scan 0 raw = .ok lexemes)
    (hd : d.lexemes = lexemes.map (·.kind)) :
    ∀ name ∈ d.tree.names, NamedIn raw name ∧ isReserved name = false := by
  refine d.names_among fun name hname hfree => ?_
  rw [hd] at hname
  obtain ⟨l, hl, hkind⟩ := List.mem_map.mp hname
  obtain ⟨-, hlongest⟩ := Lexer.longest?_of_mem_scan hscan hl
  rw [Nat.sub_zero, hkind] at hlongest
  obtain ⟨htake, c, cs, hcs, hc⟩ := Lexer.take_of_longest?_name hlongest
  exact ⟨⟨lexemes, hscan, l, hl, hkind, htake⟩, isReserved_of_isFree hfree hcs hc⟩

/-! ### How a line can fail -/

variable {resolve : Resolver} {x : ComplexNumber Float} {m : Machine} {e : EvalError}
variable {raw : List Char} {number : Int} {tokens : List Token}

/-- **How a line of a formula can fail**: operands are missing, or a name stands for
nothing. -/
theorem ReadAs.error_cases (h : ReadAs raw number tokens)
    (hrun : m.run resolve x tokens = .error e) :
    (∃ needed available, e = .stackUnderflow number needed available ∧ available < needed ∧
      TakesOperands raw needed) ∨
    ∃ name, e = .unknownIdentifier name number ∧ NamedIn raw name ∧ isReserved name = false ∧
      m.lookUp resolve name = none := by
  cases h with
  | skipped => cases hrun
  | assignment name h =>
    rw [Machine.run_singleton, Machine.step] at hrun
    obtain ⟨⟨items⟩, assigned⟩ := m
    cases items with
    | nil => exact .inl ⟨1, 0, (Except.error.inj hrun).symm, Nat.zero_lt_one, .inr ⟨h.1, rfl⟩⟩
    | cons z rest => cases hrun
  | lone kind h =>
    rw [Machine.run_singleton] at hrun
    rcases Reader.loneKind?_cases h with ⟨z, rfl⟩ | rfl | ⟨op, rfl, hliteral, hop⟩
    · cases hrun
    · cases hrun
    · simp only [Machine.step] at hrun
      cases happly : m.stack.apply op number with
      | ok stack =>
        rw [happly] at hrun
        cases hrun
      | error e' =>
        rw [happly] at hrun
        obtain rfl := Except.error.inj hrun
        obtain ⟨rfl, hlt⟩ := Stack.apply_eq_error happly
        have hsymbols := Operation.mem_symbols_of_ofSymbol? hop
        exact .inl ⟨_, _, rfl, hlt, .inl ⟨hsymbols, hliteral, op, hop, rfl⟩⟩
  | sentence lexemes d hscan hd =>
    -- an expression only adds to the stack, so that it cannot find too little there
    cases hunknown : d.tree.unknown? (m.lookUp resolve) with
    | none =>
      obtain ⟨z, hz⟩ := (Tree.exists_value?_iff _ x d.tree).mpr hunknown
      rw [Tree.run_tokens_of_value? hz] at hrun
      cases hrun
    | some name =>
      rw [Tree.run_tokens_of_unknown? hunknown] at hrun
      obtain ⟨hnamed, hfree⟩ :=
        namedIn_of_mem_names hscan hd name (List.mem_of_find?_eq_some hunknown)
      have hnone : m.lookUp resolve name = none := by
        simpa using List.find?_some hunknown
      exact .inr ⟨name, (Except.error.inj hrun).symm, hnamed, hfree, hnone⟩

/-! ### Names that were assigned -/

namespace Machine

variable {m' : Machine}

/-- What is assigned during a run, or before it, has a value after it. -/
theorem isSome_assigned_run {ts : List Token} (h : m.run resolve x ts = .ok m') {name : String}
    (hname : (m.assigned.lookup name).isSome ∨ ∃ t ∈ ts, t.kind = .assign name) :
    (m'.assigned.lookup name).isSome := by
  induction ts generalizing m with
  | nil =>
    obtain rfl := Except.ok.inj h
    exact hname.resolve_right fun ⟨_, ht, _⟩ => List.not_mem_nil ht
  | cons t rest ih =>
    rw [run] at h
    cases hstep : m.step resolve x t with
    | error e =>
      rw [hstep] at h
      cases h
    | ok m₁ =>
      rw [hstep] at h
      -- the first step assigns the name, or the rest does, or it was assigned before
      refine ih h ?_
      rcases assigned_step hstep with ⟨hother, hassigned⟩ | ⟨name', z, hkind, hassigned⟩
      · rw [hassigned]
        refine hname.imp_right ?_
        rintro ⟨u, hu, hkind⟩
        rcases List.mem_cons.mp hu with rfl | hu
        · exact absurd hkind (hother name)
        · exact ⟨u, hu, hkind⟩
      · rw [hassigned, List.lookup_cons]
        by_cases hsame : name = name'
        · rw [beq_iff_eq.mpr hsame]
          exact .inl rfl
        · rw [beq_false_of_ne hsame]
          refine hname.imp_right ?_
          rintro ⟨u, hu, hkind'⟩
          rcases List.mem_cons.mp hu with rfl | hu
          · exact absurd (Token.Kind.assign.inj (hkind'.symm.trans hkind)) hsame
          · exact ⟨u, hu, hkind'⟩

end Machine

/-- An assignment is among the tokens. -/
theorem assign_mem_linesTokens {raws : List (List Char)}
    (h : linesTokens number raws = .ok tokens) {i : Nat} (hraw : raws[i]? = some raw)
    {name : String} (hassigns : Assigns raw name) : ⟨.assign name, number + i⟩ ∈ tokens := by
  have hhere := filter_line_linesTokens h hraw
  obtain ⟨hsign, rfl⟩ := hassigns
  rw [lineTokens_of_assignment hsign, map_eq_ok_iff] at hhere
  obtain ⟨t, ht, hfilter⟩ := hhere
  obtain ⟨rfl, -⟩ := readAssignment_eq_ok ht
  have hmem := List.mem_singleton_self (⟨.assign (target raw), number + i⟩ : Token)
  rw [hfilter] at hmem
  exact List.mem_of_mem_filter hmem

/-! ### Whole programs -/

/-- A program fails on one of its lines, after the lines above it. -/
theorem exists_failing_line {raws : List (List Char)} (h : linesTokens number raws = .ok tokens)
    (hrun : m.run resolve x tokens = .error e) :
    ∃ (i : Nat) (raw : List Char) (above here : List Token) (m' : Machine),
      raws[i]? = some raw ∧ linesTokens number (raws.take i) = .ok above ∧
        m.run resolve x above = .ok m' ∧ lineTokens raw (number + i) = .ok here ∧
        m'.run resolve x here = .error e := by
  induction raws generalizing number tokens m with
  | nil =>
    obtain rfl := Except.ok.inj h
    cases hrun
  | cons raw rest ih =>
    obtain ⟨here, more, hhere, hmore, rfl⟩ := linesTokens_cons_eq_ok h
    cases hfirst : m.run resolve x here with
    | error e' =>
      rw [Machine.run_append_of_error hfirst] at hrun
      obtain rfl := Except.error.inj hrun
      have hnumber : number + (0 : Nat) = number := Int.add_zero number
      exact ⟨0, raw, [], here, m, rfl, rfl, rfl, hnumber.symm ▸ hhere, hfirst⟩
    | ok m₁ =>
      rw [Machine.run_append_of_ok hfirst] at hrun
      obtain ⟨i, raw', above, here', m', hraw, habove, hm', hhere', hfail⟩ := ih hmore hrun
      have hnumber : number + (i + 1 : Nat) = number + 1 + i := by omega
      refine ⟨i + 1, raw', here ++ above, here', m', hraw, ?_, ?_, hnumber.symm ▸ hhere', hfail⟩
      · rw [List.take_succ_cons, linesTokens, hhere]
        simp [Except.bind, Except.map, habove]
      · rw [Machine.run_append_of_ok hfirst, hm']

/-- An error is about a line of the text that can cause it: one that takes operands and is no
expression, or one that names what neither the lines above it nor anything else gives a
meaning. -/
def EvalError.Blames (text : String) (resolve : Resolver) : EvalError → Prop
  | .stackUnderflow line needed available =>
    ∃ (i : Nat) (raw : List Char), (lines text.toList)[i]? = some raw ∧ line = i + 1 ∧
      available < needed ∧ TakesOperands raw needed ∧ ¬IsSentence raw
  | .unknownIdentifier name line =>
    ∃ (i : Nat) (raw : List Char), (lines text.toList)[i]? = some raw ∧ line = i + 1 ∧
      NamedIn raw name ∧ isReserved name = false ∧ resolve name = none ∧
      ∀ j < i, ∀ above, (lines text.toList)[j]? = some above → ¬Assigns above name
  | .invalidOperator _ => False

/-- **An error is about a line that can cause it.**  A program that was read from a text leaves
values, or it fails with too few operands for an operation on its own or an assignment, or with
a name of an expression that has no meaning of its own and was not assigned above.  An operation
never gets a wrong number of operands. -/
theorem Program.evaluate_blames {text : String} {p : Program} (h : Program.parse text = .ok p)
    {source : VariableSource} (hsource : ∀ typeName, source ≠ .unsupported typeName)
    (x : ComplexNumber Float) :
    ∃ resolve, source.resolver = .ok resolve ∧
      ((∃ values, p.evaluate resolve x = .ok values) ∨
        ∃ e, p.evaluate resolve x = .error e ∧ e.Blames text resolve) ∧
      ∀ t ∈ p.tokens, ∀ op, t.kind = .operation op → ∀ (stack rest : Stack) args,
        stack.popMany op.arity t.line = .ok (args, rest) → ∃ z, op.apply args = .ok z := by
  obtain ⟨resolve, hresolve⟩ : ∃ resolve, source.resolver = .ok resolve := by
    cases source with
    | nothing => exact ⟨_, rfl⟩
    | registry r => exact ⟨_, rfl⟩
    | mapping entries => exact ⟨_, rfl⟩
    | unsupported typeName => exact absurd rfl (hsource typeName)
  refine ⟨resolve, hresolve, ?_, fun t _ op _ stack rest args => Stack.exists_apply_eq_ok⟩
  rw [evaluate]
  cases hrun : Machine.start.run resolve x p.tokens with
  | ok m => exact .inl ⟨m.stack.toList, rfl⟩
  | error e =>
    refine .inr ⟨e, rfl, ?_⟩
    obtain ⟨hlines, -⟩ := parse_eq_ok_iff.mp h
    obtain ⟨i, raw, above, here, m, hraw, habove, hm, hhere, hfail⟩ :=
      exists_failing_line hlines hrun
    have hnumber : (1 : Int) + i = i + 1 := Int.add_comm ..
    rcases (readAs_of_lineTokens hhere).error_cases hfail with
      ⟨needed, available, rfl, hlt, htakes⟩ | ⟨name, rfl, hnamed, hfree, hnone⟩
    · exact ⟨i, raw, hraw, hnumber, hlt, htakes, htakes.not_isSentence⟩
    · rw [Machine.lookUp, Option.or_eq_none_iff] at hnone
      refine ⟨i, raw, hraw, hnumber, hnamed, hfree, hnone.2, fun j hj raw' hraw' hassigns => ?_⟩
      -- what a line above had assigned would have a value
      have hmem := assign_mem_linesTokens habove
        ((List.getElem?_take_of_lt hj).trans hraw') hassigns
      have hsome := Machine.isSome_assigned_run hm (.inr ⟨_, hmem, rfl⟩)
      rw [hnone.1] at hsome
      cases hsome

/-- The sum on the third line finds nothing, as the second has taken the input off. -/
theorem Program.evaluate_blames_sum :
    let text := "x\n= y\n +\ny*z"
    let p : Program := ⟨[⟨.input, 1⟩, ⟨.assign "y", 2⟩, ⟨.operation (.binary .add), 3⟩,
      ⟨.identifier "y", 4⟩, ⟨.identifier "z", 4⟩, ⟨.operation (.binary .mul), 4⟩], text⟩
    let e : EvalError := .stackUnderflow 3 2 0
    Program.parse text = .ok p ∧
      (∀ typeName, VariableSource.registry .standard ≠ .unsupported typeName) ∧
      p.evaluate (Registry.resolve .standard) ⟨2, 0⟩ = .error e ∧
      e.Blames text (Registry.resolve .standard) := by
  intro text p e
  have hparse : Program.parse text = .ok p := by decide +kernel
  have hsource : ∀ typeName, VariableSource.registry .standard ≠ .unsupported typeName := nofun
  have hfail : p.evaluate (Registry.resolve .standard) ⟨2, 0⟩ = .error e := by decide +kernel
  refine ⟨hparse, hsource, hfail, ?_⟩
  obtain ⟨resolve, hresolve, hrun, -⟩ := Program.evaluate_blames hparse hsource ⟨2, 0⟩
  obtain rfl := Except.ok.inj hresolve
  rcases hrun with ⟨values, hvalues⟩ | ⟨e', he', hblames⟩
  · cases hfail.symm.trans hvalues
  · obtain rfl := Except.error.inj (hfail.symm.trans he')
    exact hblames

end Argand
