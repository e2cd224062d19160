import Argand.Proofs.CallDepth

/-!
# Reading with registers

What a reader has at hand is kept in five registers: the number and the text of the line, its
lexemes, the position among them, and the tokens written so far.  The productions look at them and
write to them in place, one at a time, and whatever stops a production, the registers stay as it
leaves them.  Registers that were never used hold nothing at all, and to look at one that holds
nothing is an error of its own.

As long as the registers hold a line with its lexemes, a production does to them what it does to
the cursor at their position.

## Main definitions

* `Registers`, `Interruption`, `Registers.Work` — the registers, why work on them stops, and work
  on them.
* `Registers.peek`, `consume`, `emit`, `negateLast` — the steps that the productions take.
* `Registers.produce room n` — the production of `n`, with room for so many open calls.
* `Registers.holding` — registers that hold a line with its lexemes.
* `Registers.Follows` — what a production comes to on registers is what it comes to on a cursor.

## Main results

* `Registers.produce_follows` — **on registers a production does what it does on a cursor**, with
  the same room.
* `Registers.produce_follows_read` — with enough room, it does what it does without a bound.
-/

namespace Argand

open Text Formula

/-! ### Registers -/

/-- What a reader has at hand.  A register that was never written holds nothing. -/
structure Registers where
  line : Option Int
  text : Option (List Char)
  lexemes : Option (List Lexeme)
  position : Option Nat
  output : Option (Array Token)
  deriving DecidableEq, Repr

/-- Why work on registers stops. -/
inductive Interruption
  /-- The line cannot be read. -/
  | refused (e : ParseError)
  /-- A register is looked at that was never written. -/
  | unwritten
  /-- There is no room for another open call. -/
  | noRoom
  deriving DecidableEq, Repr

/-- What is ahead: a lexeme, or the end of the line at a column. -/
inductive Ahead
  | lexeme (l : Lexeme)
  | stop (column : Nat)
  deriving DecidableEq, Repr

/-- What the lexeme ahead is. -/
def Ahead.kind? : Ahead → Option Lexeme.Kind
  | .lexeme l => some l.kind
  | .stop _ => none

namespace Registers

/-- Work on registers, which stay as they are when it stops. -/
abbrev Work (α : Type) : Type := EStateM Interruption Registers α

/-- Registers that were never used. -/
def unused : Registers := ⟨none, none, none, none, none⟩

/-! ### Steps -/

/-- What a register holds. -/
def fetch {α : Type} (register : Registers → Option α) : Work α := fun w =>
  match register w with
  | some a => .ok a w
  | none => .error .unwritten w

/-- What is ahead of the position. -/
def peek : Work Ahead := do
  let position ← fetch (·.position)
  let lexemes ← fetch (·.lexemes)
  match lexemes[position]? with
  | some l => return .lexeme l
  | none => return .stop (contentEnd (← fetch (·.text)))

/-- Moves on behind what is ahead. -/
def consume : Work Ahead := do
  let ahead ← peek
  let position ← fetch (·.position)
  modify fun w => { w with position := some (position + 1) }
  return ahead

/-- Writes a token. -/
def emit (k : Token.Kind) : Work Unit := do
  let line ← fetch (·.line)
  let output ← fetch (·.output)
  modify fun w => { w with output := some (output.push ⟨k, line⟩) }

/-- Writes the negation of what was written last: a number is negated at once. -/
def negateLast : Work Unit := do
  let output ← fetch (·.output)
  match output.back? with
  | some ⟨.number z, _⟩ =>
    let line ← fetch (·.line)
    modify fun w => { w with output := some (output.pop.push ⟨.number z.neg, line⟩) }
  | _ => emit (.operation (.unary .neg))

/-- Stops with a reason at a column of the line. -/
def refuse (column : Nat) (reason : ParseError.Reason) : Work Unit := do
  throw (.refused ⟨← fetch (·.line), column, reason⟩)

/-! ### Productions -/

/-- The production of `n`, with room for so many open calls. -/
def produce : Nat → Nonterminal → Work Unit
  | 0, _ => throw .noRoom
  | room + 1, .expression => do
    produce room .term
    produce room .moreTerms
  | room + 1, .moreTerms => do
    match (← peek).kind?.bind additive? with
    | none => return
    | some op =>
      let _ ← consume
      produce room .term
      emit (.operation (.binary op))
      produce room .moreTerms
  | room + 1, .term => do
    produce room .signed
    produce room .moreFactors
  | room + 1, .moreFactors => do
    match (← peek).kind?.bind multiplicative? with
    | none => return
    | some op =>
      let _ ← consume
      produce room .signed
      emit (.operation (.binary op))
      produce room .moreFactors
  | room + 1, .signed => do
    match (← peek).kind?.bind additive? with
    | none => produce room .power
    | some op =>
      let _ ← consume
      produce room .signed
      -- a plus sign leaves no trace
      if op = .sub then negateLast
  | room + 1, .power => do
    produce room .atom
    if (← peek).kind?.any isPower then
      let _ ← consume
      produce room .signed
      emit (.operation (.binary .pow))
  | room + 1, .atom => do
    match ← consume with
    | .stop column => refuse column .missingOperand
    | .lexeme ⟨kind, column, _⟩ =>
      match kind with
      | .number z => emit (.number z)
      | .mark .leftParen =>
        produce room .expression
        if (← peek).kind? = some (.mark .rightParen) then
          let _ ← consume
        else refuse column .unmatchedOpen
      | .mark m => refuse column (.expectedOperand (.mark m))
      | .name name =>
        match UnaryOperation.ofSymbol? name with
        | some f =>
          produce room .atom
          emit (.operation (.unary f))
        | none =>
          -- only functions stand in front of a parenthesis
          if (← peek).kind? = some (.mark .leftParen) then
            refuse column (.unknownFunction name)
          else emit (nameKind name)

/-! ### Steps on a line with its lexemes -/

/-- Registers that hold a line with its lexemes. -/
def holding (number : Int) (raw : List Char) (lexemes : List Lexeme) (position : Nat)
    (output : Array Token) : Registers :=
  ⟨some number, some raw, some lexemes, some position, some output⟩

/-- What is ahead on a line where these lexemes are left. -/
def ahead (raw : List Char) : List Lexeme → Ahead
  | [] => .stop (contentEnd raw)
  | l :: _ => .lexeme l

variable {α : Type} {w : Registers} {number : Int} {raw : List Char} {lexemes unread : List Lexeme}
  {position : Nat} {out : Array Token}

/-- A parenthesis that opens is the lexeme ahead. -/
theorem opensNext_iff (raw : List Char) (unread : List Lexeme) :
    opensNext unread = true ↔ (ahead raw unread).kind? = some (.mark .leftParen) := by
  rcases unread with _ | ⟨⟨kind, column, width⟩, rest⟩
  · simp [opensNext, ahead, Ahead.kind?]
  · cases kind with
    | mark m => cases m <;> simp [opensNext, ahead, Ahead.kind?]
    | _ => simp [opensNext, ahead, Ahead.kind?]

theorem run_fetch (register : Registers → Option α) :
    (fetch register).run w =
      match register w with
      | some a => .ok a w
      | none => .error .unwritten w := rfl

theorem run_peek (h : lexemes.drop position = unread) :
    peek.run (holding number raw lexemes position out) =
      .ok (ahead raw unread) (holding number raw lexemes position out) := by
  have hhead : lexemes[position]? = unread.head? := by rw [← h, List.head?_drop]
  simp only [peek, EStateM.run_bind, run_fetch, holding, hhead]
  cases unread <;> rfl

theorem run_peek_bind (h : lexemes.drop position = unread) (next : Ahead → Work α) :
    (peek >>= next).run (holding number raw lexemes position out) =
      (next (ahead raw unread)).run (holding number raw lexemes position out) := by
  rw [EStateM.run_bind, run_peek h]

theorem run_consume_bind (h : lexemes.drop position = unread) (next : Ahead → Work α) :
    (consume >>= next).run (holding number raw lexemes position out) =
      (next (ahead raw unread)).run (holding number raw lexemes (position + 1) out) := by
  rw [EStateM.run_bind, consume, run_peek_bind h]
  rfl

theorem run_emit (k : Token.Kind) :
    (emit k).run (holding number raw lexemes position out) =
      .ok () (holding number raw lexemes position (out.push ⟨k, number⟩)) := rfl

/-- Where the line ends makes no difference to a negation. -/
theorem run_negateLast (stop : Nat) :
    negateLast.run (holding number raw lexemes position out) =
      .ok () (holding number raw lexemes position
        ((Cursor.mk unread out).negateLast ⟨number, stop⟩).output) := by
  simp only [negateLast, EStateM.run_bind, run_fetch, holding, Cursor.negateLast]
  rcases out.back? with _ | ⟨kind, line⟩
  · rfl
  · cases kind <;> rfl

theorem drop_succ {l : Lexeme} {rest : List Lexeme} (h : lexemes.drop position = l :: rest) :
    lexemes.drop (position + 1) = rest := by
  rw [← List.tail_drop, h, List.tail_cons]

/-! ### Productions on a line with its lexemes -/

/-- What a production comes to on registers that hold a line with its lexemes is what it comes to on
the cursor at their position. -/
inductive Follows (number : Int) (raw : List Char) (lexemes : List Lexeme) :
    Except (Option Stopped) Cursor → EStateM.Result Interruption Registers Unit → Prop
  | ok (t : Cursor) {position : Nat} (h : lexemes.drop position = t.unread) :
      Follows number raw lexemes (.ok t) (.ok () (holding number raw lexemes position t.output))
  | refused (e : Stopped) {position : Nat} (h : lexemes.drop position = e.cursor.unread) :
      Follows number raw lexemes (.error (some e))
        (.error (.refused e.error) (holding number raw lexemes position e.cursor.output))
  | noRoom (w : Registers) : Follows number raw lexemes (.error none) (.error .noRoom w)

/-- One thing is done after the other. -/
theorem Follows.bind {r : Except (Option Stopped) Cursor}
    {next : Cursor → Except (Option Stopped) Cursor} {x : Work Unit} {y : Unit → Work Unit}
    (h : Follows number raw lexemes r (x.run w))
    (hnext : ∀ (t : Cursor) (position : Nat), lexemes.drop position = t.unread →
      Follows number raw lexemes (next t)
        ((y ()).run (holding number raw lexemes position t.output))) :
    Follows number raw lexemes (r.bind next) ((x >>= y).run w) := by
  rw [EStateM.run_bind]
  generalize x.run w = result at h ⊢
  cases h with
  | ok t hleft => exact hnext t _ hleft
  | refused e hleft => exact .refused e hleft
  | noRoom w => exact .noRoom w

/-- A step that always succeeds is done last. -/
theorem Follows.map {r : Except (Option Stopped) Cursor} {step : Cursor → Cursor} {x : Work Unit}
    {y : Unit → Work Unit} (h : Follows number raw lexemes r (x.run w))
    (hstep : ∀ (t : Cursor) (position : Nat), lexemes.drop position = t.unread →
      Follows number raw lexemes (.ok (step t))
        ((y ()).run (holding number raw lexemes position t.output))) :
    Follows number raw lexemes (r.map step) ((x >>= y).run w) := by
  have hmap : r.map step = r.bind fun t => .ok (step t) := by cases r <;> rfl
  rw [hmap]
  exact h.bind hstep

/-- A parenthesis is closed by what is ahead, or it is refused at its column. -/
theorem follows_closed (column : Nat) (t : Cursor) (h : lexemes.drop position = t.unread) :
    Follows number raw lexemes
      ((Nonterminal.closed ⟨number, contentEnd raw⟩ column t).mapError some)
      ((do
        if (← peek).kind? = some (.mark .rightParen) then
          let _ ← consume
        else refuse column .unmatchedOpen : Work Unit).run
          (holding number raw lexemes position t.output)) := by
  obtain ⟨unread, out⟩ := t
  rw [run_peek_bind h]
  cases unread with
  | nil => exact .refused ⟨_, _⟩ h
  | cons l rest =>
    obtain ⟨kind, column', width⟩ := l
    cases kind with
    | number z => exact .refused ⟨_, _⟩ h
    | name name => exact .refused ⟨_, _⟩ h
    | mark m =>
      cases m with
      | rightParen =>
        simp only [ahead, Ahead.kind?, if_true, run_consume_bind h]
        exact .ok ⟨rest, out⟩ (drop_succ h)
      | _ => exact .refused ⟨_, _⟩ h

/-- The production of `n` with so much room follows, wherever it starts. -/
def ProduceFollows (number : Int) (raw : List Char) (lexemes : List Lexeme) (room : Nat)
    (n : Nonterminal) : Prop :=
  ∀ (s : Cursor) (position : Nat), lexemes.drop position = s.unread →
    Follows number raw lexemes (n.readWithin ⟨number, contentEnd raw⟩ room s)
      ((produce room n).run (holding number raw lexemes position s.output))

section Productions

variable {room : Nat} (ih : ∀ n, ProduceFollows number raw lexemes room n)

include ih

theorem follows_expression : ProduceFollows number raw lexemes (room + 1) .expression := by
  intro s position h
  rw [Nonterminal.readWithin, produce]
  exact (ih .term s position h).bind (ih .moreTerms)

/-- What sums and products have in common: if there is a sign ahead, the next operand is read, the
operation is written, and there may be more. -/
theorem follows_more (sign? : Lexeme.Kind → Option BinaryOperation) (operand more : Nonterminal)
    (s : Cursor) (h : lexemes.drop position = s.unread) :
    Follows number raw lexemes
      (match s.unread with
        | [] => .ok s
        | l :: rest =>
          match sign? l.kind with
          | none => .ok s
          | some op =>
            (operand.readWithin ⟨number, contentEnd raw⟩ room ⟨rest, s.output⟩).bind fun t =>
              more.readWithin ⟨number, contentEnd raw⟩ room
                (t.emit ⟨number, contentEnd raw⟩ (.operation (.binary op))))
      ((do
        match (← peek).kind?.bind sign? with
        | none => return
        | some op =>
          let _ ← consume
          produce room operand
          emit (.operation (.binary op))
          produce room more : Work Unit).run
            (holding number raw lexemes position s.output)) := by
  obtain ⟨unread, out⟩ := s
  rw [run_peek_bind h]
  cases unread with
  | nil => exact .ok _ h
  | cons l rest =>
    simp only [ahead, Ahead.kind?, Option.bind_some]
    cases sign? l.kind with
    | none => exact .ok _ h
    | some op =>
      simp only [run_consume_bind h]
      refine (ih operand ⟨rest, out⟩ _ (drop_succ h)).bind fun t position ht => ?_
      rw [EStateM.run_bind, run_emit]
      exact ih more (t.emit _ _) position ht

theorem follows_moreTerms : ProduceFollows number raw lexemes (room + 1) .moreTerms := by
  intro s position h
  rw [Nonterminal.readWithin, produce]
  exact follows_more ih additive? .term .moreTerms s h

theorem follows_term : ProduceFollows number raw lexemes (room + 1) .term := by
  intro s position h
  rw [Nonterminal.readWithin, produce]
  exact (ih .signed s position h).bind (ih .moreFactors)

theorem follows_moreFactors : ProduceFollows number raw lexemes (room + 1) .moreFactors := by
  intro s position h
  rw [Nonterminal.readWithin, produce]
  exact follows_more ih multiplicative? .signed .moreFactors s h

theorem follows_signed : ProduceFollows number raw lexemes (room + 1) .signed := by
  rintro ⟨unread, out⟩ position h
  rw [Nonterminal.readWithin, produce, run_peek_bind h]
  cases unread with
  | nil => exact ih .power _ _ h
  | cons l rest =>
    simp only [ahead, Ahead.kind?, Option.bind_some]
    cases additive? l.kind with
    | none => exact ih .power _ _ h
    | some op =>
      simp only [run_consume_bind h]
      refine (ih .signed ⟨rest, out⟩ _ (drop_succ h)).map fun t position ht => ?_
      split
      · rw [run_negateLast (contentEnd raw)]
        refine .ok _ ?_
        rw [Cursor.negateLast_unread, ht]
      · exact .ok _ ht

theorem follows_power : ProduceFollows number raw lexemes (room + 1) .power := by
  intro s position h
  rw [Nonterminal.readWithin, produce]
  refine (ih .atom s position h).bind ?_
  rintro ⟨unread, out⟩ position ht
  rw [run_peek_bind ht]
  cases unread with
  | nil => exact .ok _ ht
  | cons l rest =>
    cases hpower : isPower l.kind with
    | false =>
      simp only [ahead, Ahead.kind?, Option.any_some, hpower]
      exact .ok _ ht
    | true =>
      simp only [ahead, Ahead.kind?, Option.any_some, hpower, if_true, run_consume_bind ht]
      refine (ih .signed ⟨rest, out⟩ _ (drop_succ ht)).map fun u position hu => ?_
      exact .ok (u.emit _ _) hu

theorem follows_atom : ProduceFollows number raw lexemes (room + 1) .atom := by
  rintro ⟨unread, out⟩ position h
  rw [Nonterminal.readWithin, produce, run_consume_bind h]
  cases unread with
  | nil =>
    -- the position moves on behind the last lexeme, too
    refine .refused ⟨_, _⟩ ?_
    rw [← List.tail_drop, h]
    rfl
  | cons l rest =>
    obtain ⟨kind, column, width⟩ := l
    have hrest := drop_succ h
    simp only [ahead]
    cases kind with
    | number z => exact .ok ((Cursor.mk rest out).emit _ _) hrest
    | mark m =>
      cases m with
      | leftParen =>
        exact (ih .expression ⟨rest, out⟩ _ hrest).bind fun t position ht =>
          follows_closed column t ht
      | _ => exact .refused ⟨_, _⟩ hrest
    | name name =>
      dsimp only
      cases UnaryOperation.ofSymbol? name with
      | some f =>
        refine (ih .atom ⟨rest, out⟩ _ hrest).map fun t position ht => ?_
        exact .ok (t.emit _ _) ht
      | none =>
        simp only [run_peek_bind hrest, opensNext_iff raw]
        split
        · exact .refused ⟨_, _⟩ hrest
        · exact .ok ((Cursor.mk rest out).emit _ _) hrest

end Productions

/-- **On registers a production does what it does on a cursor**, with the same room. -/
theorem produce_follows (room : Nat) (n : Nonterminal) :
    ProduceFollows number raw lexemes room n := by
  induction room generalizing n with
  | zero => exact fun _ _ _ => .noRoom _
  | succ room ih =>
    cases n with
    | expression => exact follows_expression ih
    | moreTerms => exact follows_moreTerms ih
    | term => exact follows_term ih
    | moreFactors => exact follows_moreFactors ih
    | signed => exact follows_signed ih
    | power => exact follows_power ih
    | atom => exact follows_atom ih

/-- With enough room, a production does on registers what it does on a cursor without a bound. -/
theorem produce_follows_read (n : Nonterminal) {s : Cursor} {room : Nat}
    (hroom : 8 * s.unread.length + 7 ≤ room) (h : lexemes.drop position = s.unread) :
    Follows number raw lexemes ((n.read ⟨number, contentEnd raw⟩ s).mapError some)
      ((produce room n).run (holding number raw lexemes position s.output)) := by
  rw [← Nonterminal.readWithin_eq n _ hroom]
  exact produce_follows room n s position h

end Registers

end Argand
