import Argand.Proofs.Registers

/-!
# Readers that are used again

A line that is read as an expression writes the registers one after the other: first its number and
its text, then, if it can be cut into lexemes, all the others.  No other line touches them.  So
after a formula that could not be read they may hold pieces of several lines, or nothing at all.

Yet the next formula is read as if they had never been used.  What is read does not depend on what
the registers hold, and what is left in them depends on it in one of three ways only: all of it
stays, the number and the text of a line are replaced, or nothing stays.

## Main definitions

* `inTurn` — calls one after the other, each of which hands its state on to the next.
* `Registers.readLine`, `readAnyLine`, `readLines`, `read` — reading with registers.
* `Registers.answer` — what a formula comes to, and the registers that are left.
* `Registers.reader` — the line and the cursor that are in the registers.
* `Registers.Leaves` — the three things that reading can do to the registers.
* `Registers.ReadsLike` — reading with registers comes to what it comes to with a reader, and does
  one of the three things.

## Main results

* `Registers.readsLike_read` — **registers and readers read alike.**
* `Registers.answers_as_unused` — **whatever was read before, every formula is read as with
  registers that were never used.**
-/

namespace Argand

open Text Formula

/-! ### Calls in turn -/

section Turns

variable {σ τ α β : Type}

/-- The answers to calls one after the other, each of which hands its state on to the next, and the
state that is left. -/
def inTurn (call : σ → α → β × σ) : σ → List α → List β × σ
  | s, [] => ([], s)
  | s, a :: rest =>
    let (b, t) := call s a
    let (bs, u) := inTurn call t rest
    (b :: bs, u)

variable {call : σ → α → β × σ}

/-- If no answer depends on the state, the answers are those to the calls alone. -/
theorem inTurn_fst {f : α → β} (h : ∀ s a, (call s a).1 = f a) (s : σ) (as : List α) :
    (inTurn call s as).1 = as.map f := by
  induction as generalizing s with
  | nil => rfl
  | cons a rest ih => exact congrArg₂ List.cons (h s a) (ih (call s a).2)

/-- A view that every call keeps up is kept up by all of them. -/
theorem inTurn_snd {γ : Type} {call' : τ → α → γ × τ} (view : σ → τ)
    (h : ∀ s a, (call' (view s) a).2 = view (call s a).2) (s : σ) (as : List α) :
    (inTurn call' (view s) as).2 = view (inTurn call s as).2 := by
  induction as generalizing s with
  | nil => rfl
  | cons a rest ih =>
    have hstate := h s a
    change (inTurn call' (call' (view s) a).2 rest).2 = view (inTurn call (call s a).2 rest).2
    rw [hstate]
    exact ih (call s a).2

end Turns

namespace Registers

/-! ### Lines and formulas -/

/-- Goes on with what was found, or stops as the line cannot be read. -/
def orRefuse {α : Type} : Except ParseError α → Work α
  | .ok a => return a
  | .error e => throw (.refused e)

/-- Ends an expression: nothing may be left of its line. -/
def finish (number : Int) : Work (List Token) := do
  match ← peek with
  | .stop _ => return (← fetch (·.output)).toList
  | .lexeme l => throw (.refused ⟨number, l.column, leftoverReason l.kind⟩)

/-- How many calls may be open at a time while a line with these lexemes is read. -/
def roomFor (lexemes : List Lexeme) : Nat := 8 * lexemes.length + 7

/-- Reads a line as an expression. -/
def readExpression (raw : List Char) (number : Int) : Work (List Token) := do
  modify fun w => { w with line := some number }
  modify fun w => { w with text := some raw }
  -- a line that cannot be cut leaves the other registers as they are
  let lexemes ← orRefuse (Lexer.lexemes raw number)
  modify fun w => { w with lexemes := some lexemes }
  modify fun w => { w with position := some 0 }
  modify fun w => { w with output := some #[] }
  produce (roomFor lexemes) .expression
  finish number

/-- Reads a line that is neither a comment nor an assignment. -/
def readLine (raw : List Char) (number : Int) : Work (List Token) :=
  match trim raw with
  | [] => return []
  | text =>
    match Reader.loneKind? text with
    | some kind => return [⟨kind, number⟩]
    | none => readExpression raw number

/-- Reads a line of any kind. -/
def readAnyLine (raw : List Char) (number : Int) : Work (List Token) :=
  match trim raw with
  | [] => return []
  | c :: _ =>
    if c = commentSign then return []
    else if c = assignmentSign then orRefuse ((readAssignment raw number).map ([·]))
    else readLine raw number

/-- Reads lines one after the other, the first of which has a given number. -/
def readLines (number : Int) : List (List Char) → Work (List Token)
  | [] => return []
  | raw :: rest => do
    let tokens ← readAnyLine raw number
    let more ← readLines (number + 1) rest
    return tokens ++ more

/-- Reads a formula. -/
def read (text : String) : Work Program := do
  let tokens ← readLines 1 (lines text.toList)
  return ⟨tokens, text⟩

/-- What work comes to that stops for no other reason than that a line cannot be read. -/
def resultOf {α : Type} : Except ParseError α → Registers → EStateM.Result Interruption Registers α
  | .ok a, w => .ok a w
  | .error e, w => .error (.refused e) w

/-- What a formula comes to, and the registers that are left. -/
def answer (w : Registers) (text : String) : Except Interruption Program × Registers :=
  match (read text).run w with
  | .ok program w' => (.ok program, w')
  | .error i w' => (.error i, w')

/-! ### Registers and readers -/

/-- The line and the cursor that are in the registers.  In place of what was never written stands
what a new reader has at hand. -/
def reader (w : Registers) : Reader :=
  ⟨⟨w.line.getD 0, contentEnd (w.text.getD [])⟩,
    ⟨(w.lexemes.getD []).drop (w.position.getD 0), w.output.getD #[]⟩⟩

theorem reader_unused : unused.reader = .new := rfl

theorem reader_holding {number : Int} {raw : List Char} {lexemes : List Lexeme} {position : Nat}
    {t : Cursor} (h : lexemes.drop position = t.unread) :
    (holding number raw lexemes position t.output).reader = ⟨⟨number, contentEnd raw⟩, t⟩ := by
  obtain ⟨unread, out⟩ := t
  subst h
  rfl

/-- The three things that reading can do to the registers, whatever they hold. -/
inductive Leaves : (Registers → Registers) → Prop
  /-- No line was read as an expression. -/
  | untouched : Leaves id
  /-- The first line that was read as an expression could not be cut into lexemes. -/
  | uncut (number : Int) (raw : List Char) :
      Leaves fun w => { w with line := some number, text := some raw }
  /-- A line that was read as an expression could be cut into lexemes. -/
  | anew (number : Int) (raw : List Char) (lexemes : List Lexeme) (position : Nat)
      (out : Array Token) : Leaves fun _ => holding number raw lexemes position out

/-- Two readings in a row do one of the three things, too. -/
theorem Leaves.comp {later earlier : Registers → Registers} (hlater : Leaves later)
    (hearlier : Leaves earlier) : Leaves (later ∘ earlier) := by
  cases hlater with
  | untouched => exact hearlier
  | uncut number raw =>
    cases hearlier with
    | untouched => exact .uncut number raw
    | uncut _ _ => exact .uncut number raw
    | anew _ _ lexemes position out => exact .anew number raw lexemes position out
  | anew number raw lexemes position out => exact .anew number raw lexemes position out

/-- Reading with registers comes to what it comes to with a reader.  The result does not depend on
what the registers hold, they are left in one of three ways, and the reader goes on showing them. -/
def ReadsLike {α : Type} (take : Reader → Except ParseError α × Reader) (x : Work α) : Prop :=
  ∃ (result : Except ParseError α) (leave : Registers → Registers), Leaves leave ∧
    ∀ w, x.run w = resultOf result (leave w) ∧ take w.reader = (result, (leave w).reader)

variable {α : Type} {number : Int} {raw : List Char} {lexemes : List Lexeme}

theorem readsLike_orRefuse (result : Except ParseError α) :
    ReadsLike (fun r => (result, r)) (orRefuse result) := by
  refine ⟨result, id, .untouched, fun w => ⟨?_, rfl⟩⟩
  cases result <;> rfl

/-! ### Expressions -/

/-- A line that can be cut into lexemes is read with all five registers written anew. -/
theorem run_readExpression (hcut : Lexer.lexemes raw number = .ok lexemes) (w : Registers) :
    (readExpression raw number).run w =
      (produce (roomFor lexemes) .expression >>= fun _ => finish number).run
        (holding number raw lexemes 0 #[]) := by
  simp only [readExpression, EStateM.run_bind, EStateM.run_modify, hcut]
  rfl

/-- What comes of a line that can be cut, and where its reading ends. -/
theorem exists_readExpression (hcut : Lexer.lexemes raw number = .ok lexemes) :
    ∃ (result : Except ParseError (List Token)) (t : Cursor) (position : Nat),
      lexemes.drop position = t.unread ∧
      (∀ w, (readExpression raw number).run w =
        resultOf result (holding number raw lexemes position t.output)) ∧
      ∀ r : Reader, r.readExpression raw number = (result, ⟨⟨number, contentEnd raw⟩, t⟩) := by
  have hfollows : Follows number raw lexemes
      ((Nonterminal.expression.read ⟨number, contentEnd raw⟩ ⟨lexemes, #[]⟩).mapError some)
      ((produce (roomFor lexemes) .expression).run (holding number raw lexemes 0 #[])) :=
    produce_follows_read .expression le_rfl lexemes.drop_zero
  simp only [run_readExpression hcut, EStateM.run_bind, Reader.readExpression, hcut, readLexemes_eq]
  generalize (produce (roomFor lexemes) .expression).run
    (holding number raw lexemes 0 #[]) = result at hfollows ⊢
  cases hread : Nonterminal.expression.read ⟨number, contentEnd raw⟩ ⟨lexemes, #[]⟩ with
  | error e =>
    rw [hread] at hfollows
    cases hfollows with
    | refused e h => exact ⟨.error e.error, e.cursor, _, h, fun _ => rfl, fun _ => rfl⟩
  | ok t =>
    rw [hread] at hfollows
    cases hfollows with
    | ok t h =>
      obtain ⟨unread, out⟩ := t
      simp only [finish, run_peek_bind h]
      -- nothing may be left of the line
      cases unread with
      | nil => exact ⟨.ok out.toList, ⟨[], out⟩, _, h, fun _ => rfl, fun _ => rfl⟩
      | cons l rest =>
        exact ⟨.error ⟨number, l.column, leftoverReason l.kind⟩, ⟨l :: rest, out⟩, _, h,
          fun _ => rfl, fun _ => rfl⟩

theorem readsLike_readExpression (raw : List Char) (number : Int) :
    ReadsLike (·.readExpression raw number) (readExpression raw number) := by
  cases hcut : Lexer.lexemes raw number with
  | error e =>
    refine ⟨.error e, _, .uncut number raw, fun w => ⟨?_, ?_⟩⟩
    · simp only [readExpression, EStateM.run_bind, EStateM.run_modify, hcut]
      rfl
    · simp only [Reader.readExpression, hcut]
      rfl
  | ok lexemes =>
    obtain ⟨result, t, position, h, hrun, hreader⟩ := exists_readExpression hcut
    refine ⟨result, _, .anew number raw lexemes position t.output, fun w => ⟨hrun w, ?_⟩⟩
    dsimp only
    rw [hreader, reader_holding h]

/-! ### Lines and formulas -/

theorem readsLike_readLine (raw : List Char) (number : Int) :
    ReadsLike (·.readLine raw number) (readLine raw number) := by
  unfold Reader.readLine readLine
  cases trim raw with
  | nil => exact readsLike_orRefuse (.ok [])
  | cons c cs =>
    dsimp only
    cases Reader.loneKind? (c :: cs) with
    | some kind => exact readsLike_orRefuse (.ok _)
    | none => exact readsLike_readExpression raw number

theorem readsLike_readAnyLine (raw : List Char) (number : Int) :
    ReadsLike (·.readAnyLine raw number) (readAnyLine raw number) := by
  unfold Reader.readAnyLine readAnyLine
  cases trim raw with
  | nil => exact readsLike_orRefuse (.ok [])
  | cons c cs =>
    dsimp only
    split
    · exact readsLike_orRefuse (.ok [])
    · split
      · exact readsLike_orRefuse _
      · exact readsLike_readLine raw number

theorem readsLike_readLines (number : Int) (raws : List (List Char)) :
    ReadsLike (·.readLines number raws) (readLines number raws) := by
  induction raws generalizing number with
  | nil => exact readsLike_orRefuse (.ok [])
  | cons raw rest ih =>
    obtain ⟨here, leave, hleave, hline⟩ := readsLike_readAnyLine raw number
    cases here with
    | error e =>
      -- the lines behind it are not read
      refine ⟨.error e, leave, hleave, fun w => ⟨?_, ?_⟩⟩
      · rw [readLines, EStateM.run_bind, (hline w).1]
        rfl
      · simp only [Reader.readLines, hline]
    | ok tokens =>
      obtain ⟨later, leave', hleave', hrest⟩ := ih (number + 1)
      refine ⟨later.map (tokens ++ ·), leave' ∘ leave, hleave'.comp hleave, fun w => ⟨?_, ?_⟩⟩
      · rw [readLines, EStateM.run_bind, (hline w).1]
        dsimp only [resultOf]
        rw [EStateM.run_bind, (hrest (leave w)).1]
        cases later <;> rfl
      · simp only [Reader.readLines, hline, hrest, Function.comp_apply]

/-- **Registers and readers read alike.** -/
theorem readsLike_read (text : String) : ReadsLike (·.read text) (read text) := by
  obtain ⟨result, leave, hleave, hlines⟩ := readsLike_readLines 1 (lines text.toList)
  refine ⟨result.map (⟨·, text⟩), leave, hleave, fun w => ⟨?_, ?_⟩⟩
  · rw [read, EStateM.run_bind, (hlines w).1]
    cases result <;> rfl
  · simp only [Reader.read, hlines]

/-- A formula comes to what it is parsed as, whatever the registers hold, and so it does with the
reader that shows them. -/
theorem exists_answer_eq (text : String) :
    ∃ leave, Leaves leave ∧ ∀ w,
      w.answer text = ((Program.parse text).mapError .refused, leave w) ∧
      w.reader.read text = (Program.parse text, (leave w).reader) := by
  obtain ⟨result, leave, hleave, hread⟩ := readsLike_read text
  have hparse : Program.parse text = result := by
    rw [Program.parse, ← reader_unused]
    exact congrArg Prod.fst (hread unused).2
  refine ⟨leave, hleave, fun w => ?_⟩
  rw [answer, (hread w).1, hparse]
  refine ⟨?_, (hread w).2⟩
  cases result with
  | error e => rfl
  | ok program => rfl

/-! ### One formula after the other -/

/-- **Whatever was read before, every formula is read as with registers that were never used.**
The registers may hold anything at the start, and each formula goes on with what the one before it
has left, whether it could be read or not.  It gets the program, or is refused with the error, that
it would get from registers that were never used.  A reader that is used again gives the same, and
goes on showing what is in the registers.

This is so because a formula comes to what it is parsed as, whatever the registers hold: none of
them is looked at before it is written, and there is always room.  What it leaves in them is what
was there, or that with the number and the text of another line, or nothing that was there. -/
theorem answers_as_unused (w : Registers) (texts : List String) :
    (inTurn answer w texts).1 = texts.map (fun text => (unused.answer text).1) ∧
    inTurn Reader.read w.reader texts =
      (texts.map Program.parse, (inTurn answer w texts).2.reader) ∧
    ∀ text, ∃ leave, Leaves leave ∧
      ∀ v : Registers, v.answer text = ((Program.parse text).mapError .refused, leave v) := by
  refine ⟨inTurn_fst (fun v text => ?_) w texts, Prod.ext ?_ ?_, fun text => ?_⟩
  · obtain ⟨leave, -, hanswer⟩ := exists_answer_eq text
    rw [(hanswer v).1, (hanswer unused).1]
  · exact inTurn_fst Reader.read_fst w.reader texts
  · refine inTurn_snd reader (fun v text => ?_) w texts
    obtain ⟨leave, -, hanswer⟩ := exists_answer_eq text
    rw [(hanswer v).1, (hanswer v).2]
  · obtain ⟨leave, hleave, hanswer⟩ := exists_answer_eq text
    exact ⟨leave, hleave, fun v => (hanswer v).1⟩

/-- One formula stops within two parentheses, and the next one cannot be cut into lexemes.  What
they leave is the number and the text of one line with the lexemes and the tokens of the other. -/
example :
    (inTurn answer unused ["x\n(2*(3", "2 $"]).2 =
      ⟨some 1, some "2 $".toList,
        some [⟨.mark .leftParen, 0, 1⟩, ⟨.number ⟨2, 0⟩, 1, 1⟩, ⟨.mark .star, 2, 1⟩,
          ⟨.mark .leftParen, 3, 1⟩, ⟨.number ⟨3, 0⟩, 4, 1⟩],
        some 5, some #[⟨.number ⟨2, 0⟩, 2⟩, ⟨.number ⟨3, 0⟩, 2⟩]⟩ := by
  decide +kernel

end Registers

end Argand
