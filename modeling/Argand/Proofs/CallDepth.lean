import Argand.Proofs.LineNumbers

/-!
# How deep calls are nested

The productions call one another.  Where the number of calls that may be open at a time is bounded,
reading gives up if it would open another one.  A bound of eight calls for each lexeme that is left
is enough: at the same place a production only calls tighter ones, and to come back to a looser one,
a sign or a parenthesis has to be used up.

## Main definitions

* `Nonterminal.rank n` — how many productions are called at the same place.
* `Nonterminal.readWithin line depth n s` — the production of `n`, with a bound on the calls that
  are open at a time; `none` in place of an error tells that it was too low.

## Main results

* `Nonterminal.readWithin_eq` — **the recursion ends**: with a bound that is high enough, reading
  never gives up, and it gives what it gives without a bound.
-/

namespace Argand.Formula.Nonterminal

/-- How many productions may be open at the place where the production of `n` starts. -/
def rank : Nonterminal → Nat
  | .expression => 6
  | .moreTerms => 0
  | .term => 5
  | .moreFactors => 0
  | .signed => 4
  | .power => 3
  | .atom => 2

/-- The production of `n`, with a bound on the calls that are open at a time. -/
def readWithin (line : Line) : Nat → Nonterminal → Cursor → Except (Option Stopped) Cursor
  | 0, _, _ => .error none
  | depth + 1, .expression, s =>
    (readWithin line depth .term s).bind (readWithin line depth .moreTerms)
  | depth + 1, .moreTerms, s =>
    match s.unread with
    | [] => .ok s
    | lexeme :: rest =>
      match additive? lexeme.kind with
      | none => .ok s
      | some op =>
        (readWithin line depth .term { s with unread := rest }).bind fun t =>
          readWithin line depth .moreTerms (t.emit line (.operation (.binary op)))
  | depth + 1, .term, s =>
    (readWithin line depth .signed s).bind (readWithin line depth .moreFactors)
  | depth + 1, .moreFactors, s =>
    match s.unread with
    | [] => .ok s
    | lexeme :: rest =>
      match multiplicative? lexeme.kind with
      | none => .ok s
      | some op =>
        (readWithin line depth .signed { s with unread := rest }).bind fun t =>
          readWithin line depth .moreFactors (t.emit line (.operation (.binary op)))
  | depth + 1, .signed, s =>
    match s.unread with
    | [] => readWithin line depth .power s
    | lexeme :: rest =>
      match additive? lexeme.kind with
      | none => readWithin line depth .power s
      | some op =>
        (readWithin line depth .signed { s with unread := rest }).map fun t =>
          if op = .sub then t.negateLast line else t
  | depth + 1, .power, s =>
    (readWithin line depth .atom s).bind fun t =>
      match t.unread with
      | [] => .ok t
      | lexeme :: rest =>
        if isPower lexeme.kind then
          (readWithin line depth .signed { t with unread := rest }).map
            (·.emit line (.operation (.binary .pow)))
        else .ok t
  | depth + 1, .atom, s =>
    match s.unread with
    | [] => .error (some ⟨⟨line.number, line.stop, .missingOperand⟩, s⟩)
    | lexeme :: rest =>
      let t : Cursor := { s with unread := rest }
      let stop (reason : ParseError.Reason) : Except (Option Stopped) Cursor :=
        .error (some ⟨⟨line.number, lexeme.column, reason⟩, t⟩)
      match lexeme.kind with
      | .number z => .ok (t.emit line (.number z))
      | .mark .leftParen =>
        (readWithin line depth .expression t).bind fun u =>
          (closed line lexeme.column u).mapError some
      | .mark m => stop (.expectedOperand (.mark m))
      | .name name =>
        match UnaryOperation.ofSymbol? name with
        | some f => (readWithin line depth .atom t).map (·.emit line (.operation (.unary f)))
        | none =>
          if opensNext rest then stop (.unknownFunction name)
          else .ok (t.emit line (nameKind name))

theorem bimap_some_id (r : Except Stopped Cursor) : bimap some id r = r.mapError some := by
  cases r with
  | error e => rfl
  | ok t => rfl

/-- With a bound that is high enough, the production of `n` reads at `s` what it reads without. -/
def Within (n : Nonterminal) (line : Line) (s : Cursor) : Prop :=
  ∀ depth, 8 * s.unread.length + n.rank < depth →
    readWithin line depth n s = bimap some id (n.read line s)

/-- A bound is high enough for every production where less is left to be read than at `s`. -/
def WithinBelow (line : Line) (s : Cursor) : Prop := Below (fun n t => n.Within line t) s

variable {line : Line} {s : Cursor}

theorem within_expression (hterm : term.Within line s) (ih : WithinBelow line s) :
    expression.Within line s := by
  intro depth hdepth
  obtain ⟨depth, rfl⟩ := Nat.exists_eq_add_one_of_ne_zero (Nat.ne_zero_of_lt hdepth)
  simp only [rank] at hdepth
  rw [readWithin, read_expression_eq, hterm depth (by simp only [rank]; omega)]
  refine bind_bimap fun t ht => ?_
  have hlt : t.unread.length < s.unread.length := length_unread_lt_of_map ht
  exact ih t hlt .moreTerms depth (by simp only [rank]; omega)

theorem within_moreTerms (ih : WithinBelow line s) : moreTerms.Within line s := by
  intro depth hdepth
  obtain ⟨depth, rfl⟩ := Nat.exists_eq_add_one_of_ne_zero (Nat.ne_zero_of_lt hdepth)
  obtain ⟨unread, out⟩ := s
  cases unread with
  | nil => rw [readWithin, read_moreTerms_nil]; rfl
  | cons l rest =>
    simp only [rank, List.length_cons] at hdepth
    rw [readWithin]
    cases hop : additive? l.kind with
    | none => simp only [hop, read_moreTerms_stop hop]; rfl
    | some op =>
      have hterm := ih ⟨rest, out⟩ (Nat.lt_succ_self _) .term depth (by simp only [rank]; omega)
      simp only [hop, read_moreTerms_next_eq hop]
      rw [hterm]
      refine bind_bimap fun t ht => ?_
      have hlt : t.unread.length < rest.length := length_unread_lt_of_map (s := ⟨rest, out⟩) ht
      exact ih (t.emit line _) (Nat.lt_succ_of_lt hlt) .moreTerms depth
        (by simp only [rank, Cursor.emit_unread]; omega)

theorem within_term (hsigned : signed.Within line s) (ih : WithinBelow line s) :
    term.Within line s := by
  intro depth hdepth
  obtain ⟨depth, rfl⟩ := Nat.exists_eq_add_one_of_ne_zero (Nat.ne_zero_of_lt hdepth)
  simp only [rank] at hdepth
  rw [readWithin, read_term_eq, hsigned depth (by simp only [rank]; omega)]
  refine bind_bimap fun t ht => ?_
  have hlt : t.unread.length < s.unread.length := length_unread_lt_of_map ht
  exact ih t hlt .moreFactors depth (by simp only [rank]; omega)

theorem within_moreFactors (ih : WithinBelow line s) : moreFactors.Within line s := by
  intro depth hdepth
  obtain ⟨depth, rfl⟩ := Nat.exists_eq_add_one_of_ne_zero (Nat.ne_zero_of_lt hdepth)
  obtain ⟨unread, out⟩ := s
  cases unread with
  | nil => rw [readWithin, read_moreFactors_nil]; rfl
  | cons l rest =>
    simp only [rank, List.length_cons] at hdepth
    rw [readWithin]
    cases hop : multiplicative? l.kind with
    | none => simp only [hop, read_moreFactors_stop hop]; rfl
    | some op =>
      have hsigned := ih ⟨rest, out⟩ (Nat.lt_succ_self _) .signed depth
        (by simp only [rank]; omega)
      simp only [hop, read_moreFactors_next_eq hop]
      rw [hsigned]
      refine bind_bimap fun t ht => ?_
      have hlt : t.unread.length < rest.length := length_unread_lt_of_map (s := ⟨rest, out⟩) ht
      exact ih (t.emit line _) (Nat.lt_succ_of_lt hlt) .moreFactors depth
        (by simp only [rank, Cursor.emit_unread]; omega)

theorem within_signed (hpower : power.Within line s) (ih : WithinBelow line s) :
    signed.Within line s := by
  intro depth hdepth
  obtain ⟨depth, rfl⟩ := Nat.exists_eq_add_one_of_ne_zero (Nat.ne_zero_of_lt hdepth)
  simp only [rank] at hdepth
  have hpower := hpower depth (by simp only [rank]; omega)
  obtain ⟨unread, out⟩ := s
  rw [readWithin]
  cases unread with
  | nil => simp only [hpower, read_signed_nil]
  | cons l rest =>
    rw [List.length_cons] at hdepth
    cases hop : additive? l.kind with
    | none => simp only [hop, hpower, read_signed_power hop]
    | some op =>
      obtain ⟨sign, hsign, rfl⟩ := exists_sign_of_additive? hop
      have hsigned := ih ⟨rest, out⟩ (Nat.lt_succ_self _) .signed depth
        (by simp only [rank]; omega)
      simp only [hop, read_signed_sign_eq sign hsign]
      rw [hsigned]
      refine map_bimap (fun t => ?_) _
      cases sign with
      | plus => rfl
      | minus => rfl

theorem within_power (hatom : atom.Within line s) (ih : WithinBelow line s) :
    power.Within line s := by
  intro depth hdepth
  obtain ⟨depth, rfl⟩ := Nat.exists_eq_add_one_of_ne_zero (Nat.ne_zero_of_lt hdepth)
  simp only [rank] at hdepth
  rw [readWithin, read_power_eq, hatom depth (by simp only [rank]; omega)]
  refine bind_bimap fun t ht => ?_
  have hlt : t.unread.length < s.unread.length := length_unread_lt_of_map ht
  obtain ⟨unread, out⟩ := t
  cases unread with
  | nil => rfl
  | cons l rest =>
    rw [List.length_cons] at hlt
    simp only [raised, id]
    split
    · -- the exponent stands behind the base
      have hsigned := ih ⟨rest, out⟩ (Nat.lt_of_succ_lt hlt) .signed depth
        (by simp only [rank]; omega)
      rw [hsigned]
      refine map_bimap (fun u => ?_) _
      rfl
    · rfl

theorem within_atom (ih : WithinBelow line s) : atom.Within line s := by
  intro depth hdepth
  obtain ⟨depth, rfl⟩ := Nat.exists_eq_add_one_of_ne_zero (Nat.ne_zero_of_lt hdepth)
  obtain ⟨unread, out⟩ := s
  rw [readWithin]
  cases unread with
  | nil => rw [read_atom_nil_eq]; rfl
  | cons l rest =>
    simp only [rank, List.length_cons] at hdepth
    have hbelow := ih ⟨rest, out⟩ (Nat.lt_succ_self _)
    cases hl : l.kind with
    | number z => simp only [hl, read_atom_number hl]; rfl
    | mark m =>
      by_cases hm : m = .leftParen
      · subst hm
        have hexpression := hbelow .expression depth (by simp only [rank]; omega)
        simp only [hl, read_atom_parentheses_eq hl]
        rw [hexpression]
        exact bind_bimap fun t _ => (bimap_some_id _).symm
      · rw [read_atom_mark_eq hl hm]
        cases m <;> simp_all [bimap, stopAt]
    | name name =>
      cases hf : UnaryOperation.ofSymbol? name with
      | some f =>
        have hatom := hbelow .atom depth (by simp only [rank]; omega)
        simp only [hl, hf, read_atom_call_eq hl hf]
        rw [hatom]
        refine map_bimap (fun u => ?_) _
        rfl
      | none =>
        simp only [hl, hf, read_atom_name_eq hl hf]
        cases opensNext rest <;> rfl

/-- A bound of eight calls for each lexeme that is left, and one more than may be open at the same
place, is high enough. -/
theorem within (n : Nonterminal) (line : Line) (s : Cursor) : n.Within line s := by
  refine induction (P := fun n s => n.Within line s) ?_ ?_ ?_ ?_ ?_ ?_ ?_ n s
  · exact fun _ => within_expression
  · exact fun _ => within_moreTerms
  · exact fun _ => within_term
  · exact fun _ => within_moreFactors
  · exact fun _ => within_signed
  · exact fun _ => within_power
  · exact fun _ => within_atom

/-- **The recursion ends.**  With eight open calls for each lexeme that is left, and seven more,
reading never gives up, and gives what it gives without a bound. -/
theorem readWithin_eq (n : Nonterminal) (line : Line) {s : Cursor} {depth : Nat}
    (hdepth : 8 * s.unread.length + 7 ≤ depth) :
    readWithin line depth n s = (n.read line s).mapError some := by
  have hrank : n.rank ≤ 6 := by cases n <;> decide
  rw [n.within line s depth (by omega), bimap_some_id]

theorem readWithin_eq_ok_iff {n : Nonterminal} {line : Line} {s t : Cursor} {depth : Nat}
    (hdepth : 8 * s.unread.length + 7 ≤ depth) :
    readWithin line depth n s = .ok t ↔ n.read line s = .ok t := by
  rw [readWithin_eq n line hdepth]
  cases n.read line s with
  | error e => simp [Except.mapError]
  | ok u => simp [Except.mapError]

end Argand.Formula.Nonterminal
