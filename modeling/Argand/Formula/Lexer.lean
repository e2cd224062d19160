import Argand.Formula.Literal

/-!
# Cutting a line into lexemes

Between lexemes there may be blanks; each lexeme is the longest that starts at
its place.  A numeral takes the letter of the imaginary unit behind it along,
unless a name goes on after that letter.

## Main definitions

* `Lexer.longest? cs` — the lexeme at the start of a text, and its width.
* `Lexer.scan column cs` — the lexemes of a text that starts at a column, or the
  column and character at which none starts.
-/

namespace Argand.Lexer

open Text Numeral

/-- The letter of the imaginary unit at the start of a text, unless more of a
name follows it. -/
def suffixPart : List Char → List Char
  | [] => []
  | c :: cs => if isUnit c && !cs.head?.any isNameChar then [c] else []

/-- The number at the start of a text. -/
def number? (cs : List Char) : Option (Lexeme.Kind × Nat) :=
  let digits := leading cs
  let suffix := suffixPart (cs.drop digits.length)
  let value := Numeral.value digits
  if digits.isEmpty then none
  else some (.number (if suffix.isEmpty then .ofReal value else .ofImaginary value),
    digits.length + suffix.length)

/-- The name at the start of a text. -/
def name? : List Char → Option (Lexeme.Kind × Nat)
  | [] => none
  | c :: cs =>
    let rest := cs.takeWhile isNameChar
    if isNameStart c then some (.name (String.ofList (c :: rest)), rest.length + 1) else none

/-- The mark at the start of a text. -/
def mark? : List Char → Option (Mark × Nat)
  | '*' :: '*' :: _ => some (.doubleStar, 2)
  | '*' :: _ => some (.star, 1)
  | '(' :: _ => some (.leftParen, 1)
  | ')' :: _ => some (.rightParen, 1)
  | '+' :: _ => some (.plus, 1)
  | '-' :: _ => some (.minus, 1)
  | '/' :: _ => some (.slash, 1)
  | '^' :: _ => some (.caret, 1)
  | _ => none

/-- The lexeme at the start of a text. -/
def longest? (cs : List Char) : Option (Lexeme.Kind × Nat) :=
  (number? cs).or ((name? cs).or ((mark? cs).map fun (m, width) => (.mark m, width)))

theorem width_pos_of_number? {cs : List Char} {k : Lexeme.Kind} {width : Nat}
    (h : number? cs = some (k, width)) : 0 < width := by
  simp only [number?, Option.ite_none_left_eq_some, Option.some.injEq, Prod.mk.injEq,
    List.isEmpty_iff] at h
  have := List.length_pos_iff.2 h.1
  omega

theorem width_pos_of_name? {cs : List Char} {k : Lexeme.Kind} {width : Nat}
    (h : name? cs = some (k, width)) : 0 < width := by
  cases cs with
  | nil => simp [name?] at h
  | cons c cs =>
    simp only [name?, Option.ite_none_right_eq_some, Option.some.injEq, Prod.mk.injEq] at h
    omega

theorem width_pos_of_mark? {cs : List Char} {m : Mark} {width : Nat}
    (h : mark? cs = some (m, width)) : 0 < width := by
  unfold mark? at h
  split at h <;> simp_all <;> omega

/-- No lexeme is empty. -/
theorem width_pos {cs : List Char} {k : Lexeme.Kind} {width : Nat}
    (h : longest? cs = some (k, width)) : 0 < width := by
  simp only [longest?, Option.or_eq_some_iff, Option.map_eq_some_iff, Prod.mk.injEq] at h
  rcases h with h | ⟨-, h | ⟨-, ⟨m, w⟩, h, -, rfl⟩⟩
  · exact width_pos_of_number? h
  · exact width_pos_of_name? h
  · exact width_pos_of_mark? h

/-- The lexemes of a text that starts at a column, or the place and the character
at which none starts. -/
def scan (column : Nat) (cs : List Char) : Except (Nat × Char) (List Lexeme) :=
  match _hcs : trimStart cs with
  | [] => .ok []
  | c :: rest =>
    let start := column + indent cs
    match _hk : longest? (c :: rest) with
    | none => .error (start, c)
    | some (kind, width) =>
      (scan (start + width) ((c :: rest).drop width)).map (⟨kind, start, width⟩ :: ·)
termination_by cs.length
decreasing_by
  have h1 := width_pos _hk
  have h2 := length_trimStart_le cs
  rw [_hcs] at h2
  simp only [List.length_drop, List.length_cons] at h2 ⊢
  omega

/-- The lexemes of a line. -/
def lexemes (cs : List Char) (line : Int) : Except ParseError (List Lexeme) :=
  (scan 0 cs).mapError fun (column, c) => ⟨line, column, .unexpectedCharacter c⟩

example : (scan 0 " 2i*sin x".toList).toOption = some
    [⟨.number ⟨0, 2⟩, 1, 2⟩, ⟨.mark .star, 3, 1⟩, ⟨.name "sin", 4, 3⟩, ⟨.name "x", 8, 1⟩] := by
  decide +kernel

end Argand.Lexer
