import Argand.Proofs.Lines
import Argand.Proofs.Readers
import Argand.Proofs.RecursiveDescent

/-!
# Formulas line by line

A reader hands its line and its cursor on from one line to the next, but nothing that is read
depends on them.  So there is a meaning of a line alone, and a formula is its lines one after
the other.

## Main definitions

* `lineTokens raw number` — what a line is read as.
* `linesTokens number raws` — what several lines are read as, the first of which has a given
  number.
* `sentenceTokens raw number` — what an expression on a line is read as.
* `Skipped raw` — the line is blank or a comment.
* `target raw`, `Assigns raw name` — what follows the sign of an assignment; the line assigns
  to `name`.
* `ReadAs raw number tokens` — the kinds of lines that can be read, with their tokens.

## Main results

* `Program.parse_eq` — **a formula is read line by line.**
* `sentenceTokens_eq_ok_iff` — an expression is read if its lexemes are a sentence.
* `linesTokens_append` — lines are read one after the other, up to the first error.
* `readAs_of_lineTokens` — **a line that can be read is of one of five kinds.**
-/

namespace Argand

open Text Formula

/-! ### Lines without readers -/

/-- What a line is read as. -/
def lineTokens (raw : List Char) (number : Int) : Except ParseError (List Token) :=
  (Reader.new.readAnyLine raw number).1

/-- What lines are read as, the first of which has a given number. -/
def linesTokens (number : Int) : List (List Char) → Except ParseError (List Token)
  | [] => .ok []
  | raw :: rest =>
    (lineTokens raw number).bind fun tokens => (linesTokens (number + 1) rest).map (tokens ++ ·)

/-- What lines are read as does not depend on who reads them. -/
theorem Reader.readLines_fst_eq (r : Reader) (number : Int) (raws : List (List Char)) :
    (r.readLines number raws).1 = linesTokens number raws := by
  induction raws generalizing r number with
  | nil => rfl
  | cons raw rest ih =>
    have hline : (r.readAnyLine raw number).1 = lineTokens raw number :=
      r.readAnyLine_fst .new raw number
    rw [readLines, linesTokens, ← hline]
    rcases r.readAnyLine raw number with ⟨result, s⟩
    cases result with
    | error e => rfl
    | ok tokens =>
      dsimp only
      rw [ih s (number + 1)]
      rfl

/-- **A formula is read line by line.** -/
theorem Program.parse_eq (text : String) :
    Program.parse text = (linesTokens 1 (lines text.toList)).map (⟨·, text⟩) := by
  rw [Program.parse, Reader.read, ← Reader.new.readLines_fst_eq]

theorem Program.parse_eq_ok_iff {text : String} {p : Program} :
    Program.parse text = .ok p ↔
      linesTokens 1 (lines text.toList) = .ok p.tokens ∧ p.source = text := by
  obtain ⟨tokens, source⟩ := p
  rw [parse_eq, map_eq_ok_iff]
  simp only [Program.mk.injEq]
  constructor
  · rintro ⟨_, h, rfl, rfl⟩
    exact ⟨h, rfl⟩
  · rintro ⟨h, rfl⟩
    exact ⟨_, h, rfl, rfl⟩

/-! ### One line after the other -/

/-- Lines are read one after the other, up to the first that cannot be read. -/
theorem linesTokens_append (number : Int) (above below : List (List Char)) :
    linesTokens number (above ++ below) = (linesTokens number above).bind fun tokens =>
      (linesTokens (number + above.length) below).map (tokens ++ ·) := by
  induction above generalizing number with
  | nil => cases h : linesTokens number below <;> simp [linesTokens, Except.bind, Except.map, h]
  | cons raw rest ih =>
    have hnumber : number + 1 + rest.length = number + (raw :: rest).length := by
      rw [List.length_cons]
      omega
    rw [List.cons_append, linesTokens, linesTokens, ih, hnumber]
    cases lineTokens raw number with
    | error e => rfl
    | ok tokens =>
      cases linesTokens (number + 1) rest with
      | error e => rfl
      | ok more =>
        cases linesTokens (number + (raw :: rest).length) below <;>
          simp [Except.bind, Except.map]

theorem linesTokens_singleton (number : Int) (raw : List Char) :
    linesTokens number [raw] = lineTokens raw number := by
  rw [linesTokens]
  cases lineTokens raw number <;> simp [Except.bind, Except.map, linesTokens]

/-- What several lines are read as, cut behind the first. -/
theorem linesTokens_cons_eq_ok {number : Int} {raw : List Char} {rest : List (List Char)}
    {tokens : List Token} (h : linesTokens number (raw :: rest) = .ok tokens) :
    ∃ here more, lineTokens raw number = .ok here ∧ linesTokens (number + 1) rest = .ok more ∧
      tokens = here ++ more := by
  rw [linesTokens, bind_eq_ok_iff] at h
  obtain ⟨here, hhere, h⟩ := h
  rw [map_eq_ok_iff] at h
  obtain ⟨more, hmore, rfl⟩ := h
  exact ⟨here, more, hhere, hmore, rfl⟩

/-- What several lines are read as, cut at one of them. -/
theorem linesTokens_cut {number : Int} {above below : List (List Char)} {raw : List Char}
    {tokens : List Token} (h : linesTokens number (above ++ raw :: below) = .ok tokens) :
    ∃ before here after, linesTokens number above = .ok before ∧
      lineTokens raw (number + above.length) = .ok here ∧
      linesTokens (number + above.length + 1) below = .ok after ∧
      tokens = before ++ (here ++ after) := by
  rw [linesTokens_append, bind_eq_ok_iff] at h
  obtain ⟨before, hbefore, h⟩ := h
  rw [map_eq_ok_iff] at h
  obtain ⟨later, hlater, rfl⟩ := h
  obtain ⟨here, after, hhere, hafter, rfl⟩ := linesTokens_cons_eq_ok hlater
  exact ⟨before, here, after, hbefore, hhere, hafter, rfl⟩

/-! ### What kind of line it is -/

/-- Nothing is read off a line that is blank or a comment. -/
def Skipped (raw : List Char) : Prop :=
  trim raw = [] ∨ (trim raw).head? = some commentSign

/-- What follows the sign of an assignment. -/
def target (raw : List Char) : String :=
  String.ofList (trim (raw.drop (raw.idxOf assignmentSign + 1)))

/-- The line assigns to a name. -/
def Assigns (raw : List Char) (name : String) : Prop :=
  (trim raw).head? = some assignmentSign ∧ target raw = name

instance (raw : List Char) : Decidable (Skipped raw) :=
  inferInstanceAs (Decidable (_ ∨ _))

instance (raw : List Char) (name : String) : Decidable (Assigns raw name) :=
  inferInstanceAs (Decidable (_ ∧ _))

/-- What an expression on a line is read as. -/
def sentenceTokens (raw : List Char) (number : Int) : Except ParseError (List Token) :=
  (Lexer.lexemes raw number).bind fun lexemes =>
    ((readLexemes ⟨number, contentEnd raw⟩ ⟨lexemes, #[]⟩).mapError (·.error)).map
      (·.output.toList)

theorem readExpression_fst_eq (raw : List Char) (number : Int) :
    (Reader.new.readExpression raw number).1 = sentenceTokens raw number := by
  unfold Reader.readExpression sentenceTokens
  cases Lexer.lexemes raw number with
  | error e => rfl
  | ok lexemes =>
    simp only [Except.bind]
    cases readLexemes ⟨number, contentEnd raw⟩ ⟨lexemes, #[]⟩ <;> rfl

theorem lineTokens_of_skipped {raw : List Char} (h : Skipped raw) (number : Int) :
    lineTokens raw number = .ok [] := by
  rw [lineTokens, Reader.readAnyLine]
  rcases h with h | h
  · rw [h]
  · obtain ⟨cs, hcs⟩ := List.head?_eq_some_iff.mp h
    rw [hcs]
    simp

theorem lineTokens_of_assignment {raw : List Char} (h : (trim raw).head? = some assignmentSign)
    (number : Int) : lineTokens raw number = (readAssignment raw number).map ([·]) := by
  obtain ⟨cs, hcs⟩ := List.head?_eq_some_iff.mp h
  rw [lineTokens, Reader.readAnyLine, hcs]
  simp [assignmentSign, commentSign]

/-- Any other line is a lone token or an expression. -/
theorem lineTokens_of_content {raw : List Char} (hskipped : ¬Skipped raw)
    (hassign : (trim raw).head? ≠ some assignmentSign) (number : Int) :
    lineTokens raw number =
      match Reader.loneKind? (trim raw) with
      | some kind => .ok [⟨kind, number⟩]
      | none => sentenceTokens raw number := by
  rw [lineTokens, Reader.readAnyLine]
  cases hcs : trim raw with
  | nil => exact absurd (Or.inl hcs) hskipped
  | cons c cs =>
    rw [hcs] at hassign
    have hcomment : c ≠ commentSign := fun hc => hskipped (Or.inr (by rw [hcs, hc]; rfl))
    have hassignment : c ≠ assignmentSign := fun hc => hassign (by rw [hc]; rfl)
    dsimp only
    rw [if_neg hcomment, if_neg hassignment, Reader.readLine, hcs]
    dsimp only
    cases Reader.loneKind? (c :: cs) with
    | some kind => rfl
    | none => exact readExpression_fst_eq raw number

/-- A line that is neither a comment nor an assignment is blank, a lone token or an
expression. -/
theorem parseLine_eq (text : String) (number : Int) :
    parseLine text number =
      if trim text.toList = [] then .ok []
      else
        match Reader.loneKind? (trim text.toList) with
        | some kind => .ok [⟨kind, number⟩]
        | none => sentenceTokens text.toList number := by
  rw [parseLine, Reader.readLine]
  cases htrim : trim text.toList with
  | nil => rfl
  | cons c cs =>
    rw [if_neg (List.cons_ne_nil c cs)]
    dsimp only
    cases Reader.loneKind? (c :: cs) with
    | some kind => rfl
    | none => exact readExpression_fst_eq text.toList number

/-! ### Lines that can be read -/

/-- The kinds of lines that can be read, each with its tokens. -/
inductive ReadAs (raw : List Char) (number : Int) : List Token → Prop
  /-- A blank line or a comment. -/
  | skipped (h : Skipped raw) : ReadAs raw number []
  /-- An assignment. -/
  | assignment (name : String) (h : Assigns raw name) (hfree : isReserved name = false) :
      ReadAs raw number [⟨.assign name, number⟩]
  /-- A literal, an operation or the input on its own. -/
  | lone (kind : Token.Kind) (h : Reader.loneKind? (trim raw) = some kind) :
      ReadAs raw number [⟨kind, number⟩]
  /-- An expression. -/
  | sentence (lexemes : List Lexeme) (d : Derivation .expression)
      (hscan : Lexer.scan 0 raw = .ok lexemes) (hd : d.lexemes = lexemes.map (·.kind)) :
      ReadAs raw number (d.tree.tokens number)

/-- What can be assigned to has no meaning of its own. -/
theorem readAssignment_eq_ok {raw : List Char} {number : Int} {t : Token}
    (h : readAssignment raw number = .ok t) :
    t = ⟨.assign (target raw), number⟩ ∧ isReserved (target raw) = false := by
  unfold readAssignment at h
  dsimp only at h
  split at h
  · cases h
  · split at h
    · cases h
    · next hreserved => exact ⟨(Except.ok.inj h).symm, eq_false_of_ne_true hreserved⟩

/-- **An expression is read if its lexemes are a sentence**, and what is read is the code of its
syntax tree. -/
theorem sentenceTokens_eq_ok_iff {raw : List Char} {number : Int} {tokens : List Token} :
    sentenceTokens raw number = .ok tokens ↔
      ∃ lexemes, Lexer.scan 0 raw = .ok lexemes ∧ ∃ d : Derivation .expression,
        d.lexemes = lexemes.map (·.kind) ∧ tokens = d.tree.tokens number := by
  simp only [sentenceTokens, Lexer.lexemes, bind_eq_ok_iff, map_eq_ok_iff, mapError_eq_ok_iff]
  constructor
  · rintro ⟨lexemes, hscan, c, hread, rfl⟩
    obtain ⟨d, hd, hout⟩ := exists_derivation_of_readLexemes hread
    exact ⟨lexemes, hscan, d, hd, hout⟩
  · rintro ⟨lexemes, hscan, d, hd, rfl⟩
    obtain ⟨c, hread, hout⟩ := d.exists_readLexemes_output ⟨number, contentEnd raw⟩ hd
    exact ⟨lexemes, hscan, c, hread, hout⟩

/-- **A line that can be read is of one of five kinds**: blank or a comment, an assignment, a
lone token, or a sentence of the grammar. -/
theorem readAs_of_lineTokens {raw : List Char} {number : Int} {tokens : List Token}
    (h : lineTokens raw number = .ok tokens) : ReadAs raw number tokens := by
  by_cases hskipped : Skipped raw
  · rw [lineTokens_of_skipped hskipped] at h
    obtain rfl := Except.ok.inj h
    exact .skipped hskipped
  · by_cases hassign : (trim raw).head? = some assignmentSign
    · rw [lineTokens_of_assignment hassign, map_eq_ok_iff] at h
      obtain ⟨t, ht, rfl⟩ := h
      obtain ⟨rfl, hfree⟩ := readAssignment_eq_ok ht
      exact .assignment _ ⟨hassign, rfl⟩ hfree
    · rw [lineTokens_of_content hskipped hassign] at h
      cases hlone : Reader.loneKind? (trim raw) with
      | some kind =>
        rw [hlone] at h
        obtain rfl := Except.ok.inj h
        exact .lone kind hlone
      | none =>
        rw [hlone] at h
        obtain ⟨lexemes, hscan, d, hd, rfl⟩ := sentenceTokens_eq_ok_iff.mp h
        exact .sentence lexemes d hscan hd

/-- Every token carries the number of its line. -/
theorem line_of_mem_lineTokens {raw : List Char} {number : Int} {tokens : List Token}
    (h : lineTokens raw number = .ok tokens) : ∀ t ∈ tokens, t.line = number := by
  intro t ht
  cases readAs_of_lineTokens h with
  | skipped => cases ht
  | assignment => rw [List.mem_singleton.mp ht]
  | lone => rw [List.mem_singleton.mp ht]
  | sentence lexemes d =>
    obtain ⟨k, -, rfl⟩ := List.mem_map.mp ht
    rfl

end Argand
