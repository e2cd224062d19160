import Argand.Formula.Reader

/-!
# What readers leave behind

A reader keeps the line and the cursor of the last expression it read.  Nothing that it
reads later depends on them.

## Main results

* `Reader.readAnyLine_fst`, `Reader.readLines_fst` — what is read off a line, and off
  several, is the same for every reader.
* `Reader.read_fst` — **every reader reads a formula as a new one does.**
-/

namespace Argand

/-! ### Results can be compared -/

instance decidableEqExcept {ε α : Type} [DecidableEq ε] [DecidableEq α] :
    DecidableEq (Except ε α)
  | .error e, .error e' => decidable_of_iff (e = e') ⟨congrArg _, Except.error.inj⟩
  | .ok a, .ok b => decidable_of_iff (a = b) ⟨congrArg _, Except.ok.inj⟩
  | .error _, .ok _ => isFalse nofun
  | .ok _, .error _ => isFalse nofun

deriving instance DecidableEq for Program

/-! ### Reading -/

namespace Reader

open Text

theorem readExpression_fst (r s : Reader) (raw : List Char) (number : Int) :
    (r.readExpression raw number).1 = (s.readExpression raw number).1 := by
  unfold readExpression
  cases Lexer.lexemes raw number with
  | error e => rfl
  | ok lexemes => rfl

theorem readLine_fst (r s : Reader) (raw : List Char) (number : Int) :
    (r.readLine raw number).1 = (s.readLine raw number).1 := by
  unfold readLine
  cases trim raw with
  | nil => rfl
  | cons c cs =>
    dsimp only
    cases loneKind? (c :: cs) with
    | some kind => rfl
    | none => exact readExpression_fst r s raw number

/-- What is read off a line does not depend on the reader. -/
theorem readAnyLine_fst (r s : Reader) (raw : List Char) (number : Int) :
    (r.readAnyLine raw number).1 = (s.readAnyLine raw number).1 := by
  unfold readAnyLine
  cases trim raw with
  | nil => rfl
  | cons c cs =>
    dsimp only
    split
    · rfl
    · split
      · rfl
      · exact readLine_fst r s raw number

/-- What is read off several lines does not depend on the reader either, although each
line leaves another reader to the next. -/
theorem readLines_fst (r s : Reader) (number : Int) (raws : List (List Char)) :
    (r.readLines number raws).1 = (s.readLines number raws).1 := by
  induction raws generalizing r s number with
  | nil => rfl
  | cons raw rest ih =>
    have hline := readAnyLine_fst r s raw number
    rw [readLines, readLines]
    rcases hr : r.readAnyLine raw number with ⟨result, r'⟩
    rcases hs : s.readAnyLine raw number with ⟨result', s'⟩
    obtain rfl : result = result' := by rwa [hr, hs] at hline
    cases result with
    | error e => rfl
    | ok tokens =>
      dsimp only
      rw [ih r' s' (number + 1)]

/-- **Every reader reads a formula as a new one does.** -/
theorem read_fst (r : Reader) (text : String) : (r.read text).1 = Program.parse text := by
  have hlines := readLines_fst r .new 1 (lines text.toList)
  rw [Program.parse, read, read]
  dsimp only
  rw [hlines]

end Reader

end Argand
