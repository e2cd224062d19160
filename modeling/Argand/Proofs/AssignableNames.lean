import Argand.Proofs.Blame
import Argand.Proofs.Footprint
import Argand.Proofs.Spelling

/-!
# Names that are assigned and names that are read

An assignment takes a name that has no meaning of its own.  An expression takes numerals, functions,
the input and the imaginary unit for what they are, and only what is left stands for a variable.
Both come to the same names.

## Main results

* `Literal.read?_name` — only a single unit is both a name and a literal.
* `readAssignment_cons_eq_ok_iff` — what can be assigned.
* `parseLine_eq_identifier_iff` — what is read as a variable, and as nothing else.
* `isName_of_mem_parse` — **the variables that a program reads and assigns are names without a
  meaning of their own.**
* `assignable_iff_readable` — **what can be assigned is what can be read.**
-/

namespace Argand

open Text Numeral Formula

/-! ### Names without a meaning -/

/-- A name without a meaning of its own has none to the productions. -/
theorem isFree_of_not_reserved {name : String} (h : isReserved name = false) : IsFree name := by
  simp only [isReserved, Bool.or_eq_false_iff] at h
  obtain ⟨⟨hinput, hunit⟩, hsymbols⟩ := h
  refine ⟨fun f hf => ?_, ne_of_beq_false hinput, hunit⟩
  have hop : Operation.ofSymbol? f.symbol = some (.unary f) := Operation.ofSymbol?_symbol (.unary f)
  have hmem := Operation.mem_symbols_of_ofSymbol? hop
  rw [List.contains_eq_mem, decide_eq_false_iff_not, ← hf] at hsymbols
  exact hsymbols hmem

/-- A name without a meaning is left to be looked up. -/
theorem nameKind_of_isFree {name : String} (h : IsFree name) : nameKind name = .identifier name := by
  rw [nameKind, if_neg h.2.1, h.2.2]
  rfl

/-- A name on its own is a sentence. -/
def Formula.Derivation.ofName (name : String) (h : ∀ f : UnaryOperation, f.symbol ≠ name) :
    Derivation .expression :=
  .expression (.term (.unsigned (.plain (.name name h))) .noMoreFactors) .noMoreTerms

theorem Formula.Derivation.tree_ofName (name : String) (h : ∀ f : UnaryOperation, f.symbol ≠ name) :
    (ofName name h).tree = Tree.ofName name := rfl

/-! ### Names and literals -/

/-- No name goes on with a sign. -/
theorem isSign_of_isNameChar {c : Char} (h : isNameChar c = true) : isSign c = false := by
  rw [Bool.eq_false_iff, ne_eq]
  intro hsign
  rcases isSign_iff.mp hsign with rfl | rfl <;> cases h

namespace Literal

/-- A name that goes on behind a unit is no literal: a second term would need a sign. -/
theorem read?_unit {u d : Char} {rest cs : List Char} (hcs : trim cs = u :: d :: rest)
    (hu : isUnit u = true) (hd : isNameChar d = true) : read? cs = none := by
  have hdblank := isBlank_of_isNameChar hd
  have hdsign := isSign_of_isNameChar hd
  have hdcomma : d ≠ ',' := by
    rintro rfl
    cases hd
  have hucomma : u ≠ ',' := by
    rintro rfl
    cases hu
  have hnormal : normalize cs = u :: d :: normalFrom false rest := by
    change normalFrom false (trim cs) = _
    rw [hcs, normalFrom_of_not_blank (isBlank_of_isUnit hu), isSign_of_isUnit hu,
      normalFrom_of_not_blank hdblank, hdsign, pointForComma_of_ne hucomma,
      pointForComma_of_ne hdcomma]
  generalize normalFrom false rest = more at hnormal
  have hterm : leadingTerm (u :: d :: more) = ⟨[], [], [u]⟩ := by
    have hsign : signPart (u :: d :: more) = [] := by rw [signPart, isSign_of_isUnit hu]; rfl
    have hdigits : leading (u :: d :: more) = [] :=
      Lexer.leading_eq_nil (isDigit_of_isUnit hu) (isPoint_of_isUnit hu) _
    simp [leadingTerm, hsign, hdigits, unitPart, hu]
  have hnext : (leadingTerm (d :: more)).fits true = false := by
    have hsign : signPart (d :: more) = [] := by rw [signPart, hdsign]; rfl
    simp [Term.fits, leadingTerm, hsign]
  have hnone : termsFrom? true (d :: more) = none := by
    rw [termsFrom?, dif_neg (by rw [hnext]; decide)]
  have hfits : (leadingTerm (u :: d :: more)).fits false = true := by rw [hterm]; rfl
  rw [read?, hnormal, terms?, termsFrom?, dif_pos hfits, hterm]
  simp [Term.text, hnone]

/-- Only a single unit is both a name and a literal. -/
theorem read?_name {cs : List Char} (hname : isName (trim cs) = true)
    (hunit : ∀ u, isUnit u = true → trim cs ≠ [u]) : read? cs = none := by
  cases htrim : trim cs with
  | nil =>
    rw [htrim] at hname
    cases hname
  | cons c rest =>
    rw [htrim, isName, Bool.and_eq_true, List.all_eq_true] at hname
    obtain ⟨hc, hrest⟩ := hname
    cases hcunit : isUnit c with
    | false =>
      refine read?_eq_none htrim ?_
      rw [startsTerm, isSign_of_isNameChar (isNameChar_of_isNameStart hc), Lexer.isDigit_of_isNameStart hc, Lexer.isPoint_of_isNameStart hc,
        hcunit]
      rfl
    | true =>
      cases rest with
      | nil => exact absurd htrim (hunit c hcunit)
      | cons d rest => exact read?_unit htrim hcunit (hrest d List.mem_cons_self)

end Literal

/-! ### What can be assigned -/

/-- A line that starts with the sign of an assignment assigns to a name without a meaning. -/
theorem readAssignment_cons_eq_ok_iff {cs : List Char} {number : Int} {t : Token} :
    readAssignment (assignmentSign :: cs) number = .ok t ↔
      isName (trim cs) = true ∧ isReserved (String.ofList (trim cs)) = false ∧
      t = ⟨.assign (String.ofList (trim cs)), number⟩ := by
  rw [readAssignment, List.idxOf_cons_self, Nat.zero_add, List.drop_one, List.tail_cons]
  cases isName (trim cs) <;> cases isReserved (String.ofList (trim cs)) <;>
    simp [eq_comm]

/-- The target of an assignment that can be read is a name. -/
theorem isName_of_readAssignment {raw : List Char} {number : Int} {t : Token}
    (h : readAssignment raw number = .ok t) : isName (target raw).toList = true := by
  unfold readAssignment at h
  dsimp only at h
  split at h
  · cases h
  · next hname => simpa [target] using hname

/-! ### What is read as a variable -/

/-- A name is a lexeme of its own. -/
theorem Lexer.reads_name {cs bs : List Char} (h : isName cs = true)
    (hbs : ∀ c ∈ bs.head?, isBlank c = true) : Reads (cs ++ bs) [.name (String.ofList cs)] bs := by
  cases cs with
  | nil => cases h
  | cons c cs =>
    rw [isName, Bool.and_eq_true, List.all_eq_true] at h
    exact .name (isDigit_of_isNameStart h.1) (isPoint_of_isNameStart h.1) h.1 h.2
      fun c hc => isNameChar_of_isBlank (hbs c hc)

/-- A name without a meaning is nothing on its own. -/
theorem Reader.loneKind?_name {cs : List Char} (hname : isName (trim cs) = true)
    (hfree : isReserved (String.ofList (trim cs)) = false) : loneKind? (trim cs) = none := by
  have hliteral : Literal.read? (trim cs) = none := by
    rw [Literal.read?_trim]
    refine Literal.read?_name hname fun u hu htrim => ?_
    -- a unit has a meaning of its own
    rw [htrim] at hfree
    simp only [isUnit, Bool.or_eq_true, beq_iff_eq] at hu
    rcases hu with ((rfl | rfl) | rfl) | rfl <;> exact absurd hfree (by decide)
  simp only [isReserved, Bool.or_eq_false_iff] at hfree
  obtain ⟨⟨hinput, -⟩, hsymbols⟩ := hfree
  have hoperation : Operation.ofSymbol? (String.ofList (trim cs)) = none := by
    rw [Option.eq_none_iff_forall_ne_some]
    intro op hop
    rw [List.contains_eq_mem, decide_eq_false_iff_not] at hsymbols
    exact hsymbols (Operation.mem_symbols_of_ofSymbol? hop)
  rw [loneKind?, hliteral]
  dsimp only
  rw [hoperation]
  exact if_neg (ne_of_beq_false hinput)

/-- A name without a meaning is read as a variable. -/
theorem parseLine_name {s : String} (hname : isName (trim s.toList) = true)
    (hfree : isReserved (String.ofList (trim s.toList)) = false) (number : Int) :
    parseLine s number = .ok [⟨.identifier (String.ofList (trim s.toList)), number⟩] := by
  have hne : trim s.toList ≠ [] := by
    intro hnil
    rw [hnil] at hname
    cases hname
  obtain ⟨bs, hbs, hreads⟩ := Lexer.exists_reads_of_trim s.toList
  obtain ⟨lexemes, hscan, hkinds⟩ := (hreads _ (Lexer.reads_name hname hbs)).exists_scan
  have hisFree := isFree_of_not_reserved hfree
  rw [parseLine_eq, if_neg hne, Reader.loneKind?_name hname hfree]
  refine sentenceTokens_eq_ok_iff.mpr ?_
  refine ⟨lexemes, hscan, .ofName _ hisFree.1, hkinds.symm, ?_⟩
  rw [Derivation.tree_ofName, Tree.tokens, Tree.postorder_ofName, nameKind_of_isFree hisFree]
  rfl

/-! ### The variables of a program -/

/-- A token assigns nothing, and the name that it reads satisfies `P`. -/
def Token.Kind.ReadsOnly (P : String → Prop) : Token.Kind → Prop
  | .identifier name => P name
  | .assign _ => False
  | _ => True

/-- The code of a tree assigns nothing, and reads the names of the tree. -/
theorem Formula.Tree.readsOnly_postorder {P : String → Prop} {t : Tree}
    (h : ∀ name ∈ t.names, P name) : ∀ k ∈ t.postorder, k.ReadsOnly P := by
  induction t with
  | number z => exact List.forall_mem_singleton.mpr trivial
  | input => exact List.forall_mem_singleton.mpr trivial
  | name text => exact List.forall_mem_singleton.mpr (h text (List.mem_singleton_self text))
  | plus t ih => exact ih h
  | minus t ih =>
    rw [postorder]
    split
    · exact List.forall_mem_singleton.mpr trivial
    · exact List.forall_mem_append.mpr ⟨ih h, List.forall_mem_singleton.mpr trivial⟩
  | function f t ih =>
    exact List.forall_mem_append.mpr ⟨ih h, List.forall_mem_singleton.mpr trivial⟩
  | operator op l r ihl ihr =>
    obtain ⟨hl, hr⟩ := List.forall_mem_append.mp h
    have hoperands := List.forall_mem_append.mpr ⟨ihl hl, ihr hr⟩
    exact List.forall_mem_append.mpr ⟨hoperands, List.forall_mem_singleton.mpr trivial⟩

/-- What the lexemes of a line call a name is one. -/
theorem NamedIn.isName {raw : List Char} {name : String} (h : NamedIn raw name) :
    isName name.toList = true := by
  obtain ⟨lexemes, hscan, l, hl, hkind, -⟩ := h
  obtain ⟨-, hlongest⟩ := Lexer.longest?_of_mem_scan hscan hl
  rw [Nat.sub_zero, hkind] at hlongest
  obtain ⟨-, hspells⟩ := Lexer.spells_of_longest? hlongest
  generalize (raw.drop l.column).take l.width = slice at hspells
  cases hspells with
  | name hc hcs =>
    rw [String.toList_ofList, Argand.isName, hc, Bool.true_and, List.all_eq_true]
    exact hcs

/-- What a sentence reads is a name without a meaning, and it assigns nothing. -/
theorem isName_of_mem_sentence {raw : List Char} {number : Int} {lexemes : List Lexeme}
    {d : Derivation .expression} (hscan : Lexer.scan 0 raw = .ok lexemes)
    (hd : d.lexemes = lexemes.map (·.kind)) {t : Token} (ht : t ∈ d.tree.tokens number)
    {name : String} (hname : t.kind = .identifier name ∨ t.kind = .assign name) :
    isName name.toList = true ∧ isReserved name = false := by
  obtain ⟨k, hk, rfl⟩ := List.mem_map.mp ht
  have hreads : k.ReadsOnly fun name => isName name.toList = true ∧ isReserved name = false := by
    refine Tree.readsOnly_postorder (fun name hname => ?_) k hk
    obtain ⟨hnamed, hfree⟩ := namedIn_of_mem_names hscan hd name hname
    exact ⟨hnamed.isName, hfree⟩
  obtain rfl | rfl := hname
  · exact hreads
  · exact hreads.elim

/-- What a line reads and assigns are names without a meaning. -/
theorem isName_of_mem_lineTokens {raw : List Char} {number : Int} {tokens : List Token}
    (h : lineTokens raw number = .ok tokens) {t : Token} (ht : t ∈ tokens) {name : String}
    (hname : t.kind = .identifier name ∨ t.kind = .assign name) :
    isName name.toList = true ∧ isReserved name = false := by
  cases readAs_of_lineTokens h with
  | skipped => cases ht
  | assignment assigned hassigns =>
    rw [lineTokens_of_assignment hassigns.1, map_eq_ok_iff] at h
    obtain ⟨t', hread, heq⟩ := h
    obtain ⟨rfl, hfree⟩ := readAssignment_eq_ok hread
    rw [← heq] at ht
    obtain rfl := List.mem_singleton.mp ht
    obtain hname | hname := hname
    · cases hname
    · obtain rfl := Token.Kind.assign.inj hname
      exact ⟨isName_of_readAssignment hread, hfree⟩
  | lone kind hlone =>
    obtain rfl := List.mem_singleton.mp ht
    rcases Reader.loneKind?_cases hlone with ⟨z, rfl⟩ | rfl | ⟨op, rfl, -⟩ <;>
      rcases hname with hname | hname <;> cases hname
  | sentence lexemes d hscan hd => exact isName_of_mem_sentence hscan hd ht hname

/-- **The variables that a program reads and assigns are names without a meaning of their own.** -/
theorem isName_of_mem_parse {text : String} {p : Program} (h : Program.parse text = .ok p)
    {t : Token} (ht : t ∈ p.tokens) {name : String}
    (hname : t.kind = .identifier name ∨ t.kind = .assign name) :
    isName name.toList = true ∧ isReserved name = false := by
  obtain ⟨hlines, -⟩ := Program.parse_eq_ok_iff.mp h
  obtain ⟨i, raw, here, -, hhere, ht⟩ := exists_line_of_mem_linesTokens hlines ht
  exact isName_of_mem_lineTokens hhere ht hname

/-- What is read as a variable and as nothing else is a name without a meaning. -/
theorem parseLine_eq_identifier_iff {s : String} {number : Int} :
    parseLine s number = .ok [⟨.identifier (String.ofList (trim s.toList)), number⟩] ↔
      isName (trim s.toList) = true ∧ isReserved (String.ofList (trim s.toList)) = false := by
  constructor
  · intro h
    have hread := h
    rw [parseLine_eq] at hread
    split at hread
    · cases hread
    · split at hread
      · next kind hlone =>
        obtain rfl : kind = _ := congrArg Token.kind (List.head_eq_of_cons_eq (Except.ok.inj hread))
        rcases Reader.loneKind?_cases hlone with ⟨z, hz⟩ | hinput | ⟨op, hop, -⟩
        · cases hz
        · cases hinput
        · cases hop
      · rw [sentenceTokens_eq_ok_iff] at hread
        obtain ⟨lexemes, hscan, d, hd, htokens⟩ := hread
        have hmem := htokens ▸ List.mem_singleton_self _
        have hname := isName_of_mem_sentence hscan hd hmem (.inl rfl)
        rwa [String.toList_ofList] at hname
  · rintro ⟨hname, hfree⟩
    exact parseLine_name hname hfree number

/-- **What can be assigned is what can be read.**  A text can stand behind the sign of an assignment
if and only if it is read as a variable and as nothing else, and then the assignment is to that
variable.  All variables that a program reads and assigns are names without a meaning of their own.
So what a name with a meaning stands for is never looked up, and it is never changed. -/
theorem assignable_iff_readable :
    (∀ (s : String) (number : Int),
      ((∃ t, readAssignment (assignmentSign :: s.toList) number = .ok t) ↔
        parseLine s number = .ok [⟨.identifier (String.ofList (trim s.toList)), number⟩]) ∧
      ∀ t, readAssignment (assignmentSign :: s.toList) number = .ok t →
        t = ⟨.assign (String.ofList (trim s.toList)), number⟩) ∧
    ∀ text p, Program.parse text = .ok p →
      (∀ t ∈ p.tokens, ∀ name, t.kind = .identifier name ∨ t.kind = .assign name →
        isName name.toList = true ∧ isReserved name = false) ∧
      (∀ (resolve : Resolver) (x : ComplexNumber Float),
        p.evaluate (resolve.without isReserved) x = p.evaluate resolve x) ∧
      ∀ (resolve : Resolver) (x : ComplexNumber Float) (before after : List Token) (m : Machine),
        p.tokens = before ++ after → Machine.start.run resolve x before = .ok m →
        ∀ name, isReserved name = true → m.lookUp resolve name = resolve name := by
  refine ⟨fun s number => ⟨?_, ?_⟩, fun text p h => ⟨?_, ?_, ?_⟩⟩
  · simp only [readAssignment_cons_eq_ok_iff, parseLine_eq_identifier_iff]
    exact ⟨fun ⟨_, hname, hfree, _⟩ => ⟨hname, hfree⟩, fun ⟨hname, hfree⟩ => ⟨_, hname, hfree, rfl⟩⟩
  · exact fun t ht => (readAssignment_cons_eq_ok_iff.mp ht).2.2
  · exact fun t ht name hname => isName_of_mem_parse h ht hname
  · intro resolve x
    refine Program.evaluate_congr fun name hname => ?_
    obtain ⟨before, t, after, htokens, hkind, -⟩ :=
      (Program.mem_identifiers_iff.mp hname).exists_split
    have ht : t ∈ p.tokens := htokens ▸ List.mem_append_right before List.mem_cons_self
    exact Resolver.without_of_not_missing (isName_of_mem_parse h ht (.inl hkind)).2 resolve
  · intro resolve x before after m htokens hrun name hreserved
    have hassign : ∀ t ∈ before, t.kind ≠ .assign name := by
      intro t ht hkind
      have hmem : t ∈ p.tokens := htokens ▸ List.mem_append_left after ht
      rw [(isName_of_mem_parse h hmem (.inr hkind)).2] at hreserved
      cases hreserved
    rw [Machine.lookUp_run hrun hassign, Program.start_lookUp]

/-- A name with blanks around it can be assigned and read; a unit can be read, but not as a
variable.  A program that has both looks the name up, and no name with a meaning. -/
theorem assignable_iff_readable_blanks :
    let p : Program := ⟨[⟨.identifier "e5", 1⟩, ⟨.number .i, 1⟩, ⟨.operation (.binary .mul), 1⟩,
      ⟨.assign "I_", 2⟩], "e5*I\n=I_\t"⟩
    readAssignment (assignmentSign :: "\t e5 ".toList) 1 = .ok ⟨.assign "e5", 1⟩ ∧
    parseLine "\t e5 " 1 = .ok [⟨.identifier "e5", 1⟩] ∧
    (¬∃ t, readAssignment (assignmentSign :: "I".toList) 1 = .ok t) ∧
    Program.parse "e5*I\n=I_\t" = .ok p ∧
    ∀ (resolve : Resolver) (x : ComplexNumber Float),
      p.evaluate (resolve.without isReserved) x = p.evaluate resolve x := by
  intro p
  have hassign : readAssignment (assignmentSign :: "\t e5 ".toList) 1 = .ok ⟨.assign "e5", 1⟩ := by
    decide +kernel
  have hparse : Program.parse "e5*I\n=I_\t" = .ok p := by decide +kernel
  obtain ⟨hread, hprogram⟩ := assignable_iff_readable
  refine ⟨hassign, (hread "\t e5 " 1).1.mp ⟨_, hassign⟩, fun hunit => ?_, hparse,
    (hprogram _ p hparse).2.1⟩
  exact absurd ((hread "I" 1).1.mp hunit) (by decide +kernel)

end Argand
