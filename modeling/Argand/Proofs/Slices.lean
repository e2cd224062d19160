import Argand.Proofs.Lines
import Argand.Proofs.Spelling
import Mathlib.Data.List.Forall2

/-!
# Lexemes as slices of a line

The lexemes of a line are slices of it, with nothing but blanks around them.  They can be moved
apart: a line that has the same slices in the same order, with any blanks between them, has the
same lexemes.

## Main definitions

* `Lexer.slice cs l` — the characters of a lexeme.
* `Lexer.Tiles cs start stop ls` — the lexemes between two columns.
* `Lexer.Spaced slices cs` — slices one after the other with blanks between them.

## Main results

* `Lexer.tiles_scan` — a line is cut up to its end, or up to the first column where nothing is
  spelled.
* `Lexer.lexemes_lossless` — **nothing of a line is lost but blanks, and blanks between its
  lexemes do not count.**
-/

namespace Argand.Lexer

open Text

/-! ### Blanks at the start -/

theorem isBlank_of_lt_indent {cs : List Char} {i : Nat} (h : i < indent cs) :
    ∃ c, cs[i]? = some c ∧ isBlank c = true := by
  have hlt : i < (cs.takeWhile isBlank).length := h
  refine ⟨(cs.takeWhile isBlank)[i], ?_, List.mem_takeWhile_imp (List.getElem_mem hlt)⟩
  conv => lhs; rw [← takeWhile_append_trimStart cs]
  rw [List.getElem?_append_left hlt, List.getElem?_eq_getElem hlt]

/-- From any column on, what is skipped is blank. -/
theorem isBlank_of_lt_add_indent {cs : List Char} {start i : Nat} (hlo : start ≤ i)
    (hhi : i < start + indent (cs.drop start)) : ∃ c, cs[i]? = some c ∧ isBlank c = true := by
  have hlt : i - start < indent (cs.drop start) := by omega
  obtain ⟨c, hc, hblank⟩ := isBlank_of_lt_indent hlt
  rw [List.getElem?_drop, Nat.add_sub_cancel' hlo] at hc
  exact ⟨c, hc, hblank⟩

/-! ### Slices -/

/-- The characters of a lexeme. -/
def slice (cs : List Char) (l : Lexeme) : List Char := (cs.drop l.column).take l.width

/-- The lexemes of a text between two columns. -/
structure Tiles (cs : List Char) (start stop : Nat) (ls : List Lexeme) : Prop where
  /-- They stand one after the other. -/
  ordered : ls.Pairwise fun l l' => l.column + l.width ≤ l'.column
  /-- They stand between the columns. -/
  within : ∀ l ∈ ls, start ≤ l.column ∧ l.column + l.width ≤ stop
  /-- Each is what its slice spells. -/
  spelled : ∀ l ∈ ls, (slice cs l).length = l.width ∧
    Spells (slice cs l) (cs.drop (l.column + l.width)) l.kind
  /-- Nothing longer is spelled at its column. -/
  longest : ∀ l ∈ ls, ∀ s rest k, cs.drop l.column = s ++ rest → Spells s rest k →
    s.length ≤ l.width
  /-- Every other character is blank. -/
  blank : ∀ i, start ≤ i → i < stop → (∀ l ∈ ls, ¬(l.column ≤ i ∧ i < l.column + l.width)) →
    ∃ c, cs[i]? = some c ∧ isBlank c = true

namespace Tiles

variable {cs : List Char} {start stop : Nat}

theorem nil (hblank : ∀ i, start ≤ i → i < stop → ∃ c, cs[i]? = some c ∧ isBlank c = true) :
    Tiles cs start stop [] where
  ordered := .nil
  within := List.forall_mem_nil _
  spelled := List.forall_mem_nil _
  longest := List.forall_mem_nil _
  blank i hlo hhi _ := hblank i hlo hhi

/-- A lexeme behind blanks and in front of others. -/
theorem cons {l : Lexeme} {ls : List Lexeme} (hstart : start ≤ l.column)
    (hstop : l.column + l.width ≤ stop)
    (hblank : ∀ i, start ≤ i → i < l.column → ∃ c, cs[i]? = some c ∧ isBlank c = true)
    (hlongest : longest? (cs.drop l.column) = some (l.kind, l.width))
    (h : Tiles cs (l.column + l.width) stop ls) : Tiles cs start stop (l :: ls) where
  ordered := List.pairwise_cons.mpr ⟨fun l' hl' => (h.within l' hl').1, h.ordered⟩
  within := List.forall_mem_cons.mpr ⟨⟨hstart, hstop⟩, fun l' hl' => by
    have hwithin := h.within l' hl'
    omega⟩
  spelled := by
    obtain ⟨hwidth, hspells⟩ := spells_of_longest? hlongest
    rw [List.drop_drop] at hspells
    refine List.forall_mem_cons.mpr ⟨⟨?_, hspells⟩, h.spelled⟩
    rw [slice, List.length_take, Nat.min_eq_left hwidth]
  longest := by
    refine List.forall_mem_cons.mpr ⟨fun s rest k hs hspells => ?_, h.longest⟩
    obtain ⟨k', width, hfound, hle⟩ := hspells.exists_longest?
    rw [← hs, hlongest] at hfound
    obtain ⟨-, rfl⟩ := Prod.mk.inj (Option.some.inj hfound)
    exact hle
  blank i hlo hhi houtside := by
    obtain ⟨hl, hls⟩ := List.forall_mem_cons.mp houtside
    by_cases hbefore : i < l.column
    · exact hblank i hlo hbefore
    · exact h.blank i (by omega) hhi hls

end Tiles

/-- **A line is cut up to its end, or up to the first column where nothing is spelled.** -/
theorem tiles_scan (cs : List Char) (start : Nat) (hstart : start ≤ cs.length) :
    match scan start (cs.drop start) with
    | .ok ls => Tiles cs start cs.length ls
    | .error (stop, c) => start ≤ stop ∧ cs[stop]? = some c ∧ isBlank c = false ∧
        (∃ ls, Tiles cs start stop ls) ∧
        ∀ s rest k, cs.drop stop = s ++ rest → ¬Spells s rest k := by
  -- by what is left of the line
  induction hleft : cs.length - start using Nat.strongRecOn generalizing start with
  | ind left ih =>
    have hindent := indent_add_length_trimStart (cs.drop start)
    have hdrop := drop_indent (cs.drop start)
    rw [List.drop_drop] at hdrop
    rw [List.length_drop] at hindent
    have hblank : ∀ i, start ≤ i → i < start + indent (cs.drop start) →
        ∃ c, cs[i]? = some c ∧ isBlank c = true := fun _ => isBlank_of_lt_add_indent
    rw [scan_eq]
    generalize indent (cs.drop start) = skipped at hindent hdrop hblank ⊢
    cases htrim : trimStart (cs.drop start) with
    | nil =>
      rw [htrim, List.length_nil] at hindent
      exact .nil fun i hlo hhi => hblank i hlo (by omega)
    | cons c rest =>
      rw [htrim] at hdrop hindent
      rw [List.length_cons] at hindent
      dsimp only
      cases hlongest : longest? (c :: rest) with
      | none =>
        -- the character behind the blanks is the one to blame
        refine ⟨Nat.le_add_right _ _, ?_, ?_, ⟨[], .nil hblank⟩, fun s after k hs hspells => ?_⟩
        · have hget : (cs.drop (start + skipped))[0]? = some c := by rw [hdrop]; rfl
          rwa [List.getElem?_drop] at hget
        · exact head?_trimStart (cs.drop start) c (by rw [htrim]; rfl)
        · obtain ⟨k', width, hfound, -⟩ := hspells.exists_longest?
          rw [← hs, hdrop, hlongest] at hfound
          cases hfound
      | some found =>
        -- what is left behind the lexeme is shorter
        obtain ⟨kind, width⟩ := found
        dsimp only
        have hwidth := (spells_of_longest? hlongest).1
        have hpos := width_pos hlongest
        rw [List.length_cons] at hwidth
        have hnext := ih (cs.length - (start + skipped + width)) (by omega)
          (start + skipped + width) (by omega) rfl
        rw [← List.drop_drop, hdrop] at hnext
        rw [← hdrop] at hlongest
        cases hscan : scan (start + skipped + width) ((c :: rest).drop width) with
        | ok ls =>
          rw [hscan] at hnext
          exact .cons (Nat.le_add_right _ _) (by dsimp only; omega) hblank hlongest hnext
        | error e =>
          obtain ⟨stop, d⟩ := e
          rw [hscan] at hnext
          obtain ⟨hstop, hd, hdblank, ⟨ls, hls⟩, hnone⟩ := hnext
          let l : Lexeme := ⟨kind, start + skipped, width⟩
          exact ⟨by omega, hd, hdblank,
            ⟨l :: ls, .cons (Nat.le_add_right _ _) hstop hblank hlongest hls⟩, hnone⟩

/-! ### Slices moved apart -/

/-- Slices one after the other, with blanks between them. -/
inductive Spaced : List (List Char) → List Char → Prop
  | nil : Spaced [] []
  | last (s : List Char) : Spaced [s] s
  | cons (s : List Char) {gap : List Char} (hne : gap ≠ []) (hgap : ∀ c ∈ gap, isBlank c = true)
      {ss : List (List Char)} {cs : List Char} (h : Spaced ss cs) :
    Spaced (s :: ss) (s ++ (gap ++ cs))

/-- Spaced slices are read one after the other. -/
theorem Spaced.reads {slices : List (List Char)} {cs : List Char} (h : Spaced slices cs)
    {ks : List Lexeme.Kind} (hks : List.Forall₂ (fun s k => ∃ rest, Spells s rest k) slices ks) :
    Reads cs ks [] := by
  induction h generalizing ks with
  | nil =>
    cases hks
    exact .refl []
  | last s =>
    obtain _ | ⟨⟨rest, hs⟩, hnil⟩ := hks
    cases hnil
    have hread : Reads (s ++ []) _ [] := hs.reads (by simp)
    rwa [List.append_nil] at hread
  | @cons s gap hne hgap ss cs _ ih =>
    obtain _ | ⟨⟨rest, hs⟩, hks⟩ := hks
    have hhead : ∀ c ∈ (gap ++ cs).head?, isBlank c = true := by
      obtain ⟨b, bs, rfl⟩ := List.exists_cons_of_ne_nil hne
      exact Numeral.forall_head?_cons.mpr (hgap b (List.mem_cons_self ..))
    exact (hs.reads hhead).trans ((Reads.blanks hgap _).trans (ih hks))

/-- The slices of a line can be spaced in another way. -/
theorem Tiles.exists_scan {cs : List Char} {start stop : Nat} {ls : List Lexeme}
    (h : Tiles cs start stop ls) {ds : List Char} (hds : Spaced (ls.map (slice cs)) ds) :
    ∃ ls', scan 0 ds = .ok ls' ∧ ls'.map (·.kind) = ls.map (·.kind) := by
  have hspelled : List.Forall₂ (fun s k => ∃ rest, Spells s rest k) (ls.map (slice cs))
      (ls.map (·.kind)) := by
    rw [List.forall₂_map_left_iff, List.forall₂_map_right_iff, List.forall₂_same]
    exact fun l hl => ⟨_, (h.spelled l hl).2⟩
  exact (hds.reads hspelled).exists_scan

/-! ### Lexemes of a line -/

/-- **Nothing of a line is lost but blanks, and blanks between its lexemes do not count.**  A line
that is cut into lexemes is made of their slices and of blanks, and wherever there are blanks
between the slices they are cut into lexemes of the same kinds.  A line that is not has a first
character, behind lexemes and blanks, that is not blank and at which nothing is spelled. -/
theorem lexemes_lossless (cs : List Char) (line : Int) :
    match lexemes cs line with
    | .ok ls => Tiles cs 0 cs.length ls ∧ ∀ ds, Spaced (ls.map (slice cs)) ds →
        ∃ ls', lexemes ds line = .ok ls' ∧ ls'.map (·.kind) = ls.map (·.kind)
    | .error e => ∃ c, e = ⟨line, e.column, .unexpectedCharacter c⟩ ∧ cs[e.column]? = some c ∧
        isBlank c = false ∧ (∃ ls, Tiles cs 0 e.column ls) ∧
        ∀ s rest k, cs.drop e.column = s ++ rest → ¬Spells s rest k := by
  have htiles := tiles_scan cs 0 (Nat.zero_le _)
  rw [List.drop_zero] at htiles
  rw [lexemes]
  cases hscan : scan 0 cs with
  | ok ls =>
    rw [hscan] at htiles
    refine ⟨htiles, fun ds hds => ?_⟩
    obtain ⟨ls', hls', hkinds⟩ := Tiles.exists_scan htiles hds
    exact ⟨ls', by rw [lexemes, hls']; rfl, hkinds⟩
  | error e =>
    obtain ⟨stop, c⟩ := e
    rw [hscan] at htiles
    obtain ⟨-, hc, hblank, hls, hnone⟩ := htiles
    exact ⟨c, rfl, hc, hblank, hls, hnone⟩

example : (lexemes "2in+3ii*.5j(".toList 1).toOption.map (·.map (slice "2in+3ii*.5j(".toList)) =
    some ["2".toList, "in".toList, "+".toList, "3".toList, "ii".toList, "*".toList, ".5j".toList,
      "(".toList] := by decide +kernel

end Argand.Lexer
