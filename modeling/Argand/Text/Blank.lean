/-!
# Blanks

The characters that count as white space, and the operations that cut them off
the ends of a text.  A text is a list of characters throughout the library, so
that its columns are positions in the list.

## Main definitions

* `isBlank c` — `c` is a white-space character.
* `trimStart`, `trimEnd`, `trim` — the text without the blanks at its ends.
* `indent cs` — how many blanks the text starts with.
* `contentEnd cs` — the column just after the last character that is not blank.
-/

namespace Argand.Text

/-- The white space of Unicode, together with the four information separators
`U+001C` to `U+001F`. -/
def isBlank (c : Char) : Bool :=
  let n := c.toNat
  (0x09 ≤ n && n ≤ 0x0D) || (0x1C ≤ n && n ≤ 0x20) || n == 0x85 || n == 0xA0 || n == 0x1680 ||
    (0x2000 ≤ n && n ≤ 0x200A) || n == 0x2028 || n == 0x2029 || n == 0x202F || n == 0x205F ||
    n == 0x3000

/-- The text without the blanks it starts with. -/
def trimStart (cs : List Char) : List Char := cs.dropWhile isBlank

/-- The text without the blanks it ends with. -/
def trimEnd (cs : List Char) : List Char := (cs.reverse.dropWhile isBlank).reverse

/-- The text without the blanks at its ends. -/
def trim (cs : List Char) : List Char := trimEnd (trimStart cs)

/-- How many blanks the text starts with. -/
def indent (cs : List Char) : Nat := (cs.takeWhile isBlank).length

/-- The column just after the last character that is not blank, `0` if there is
none. -/
def contentEnd (cs : List Char) : Nat := (trimEnd cs).length

/-! ### Basic properties -/

/-- Every character that core counts as white space is blank. -/
theorem isBlank_of_isWhitespace {c : Char} (h : c.isWhitespace) : isBlank c := by
  simp only [Char.isWhitespace, Bool.or_eq_true, decide_eq_true_eq] at h
  rcases h with ((rfl | rfl) | rfl) | rfl <;> decide

@[simp] theorem trimStart_nil : trimStart [] = [] := rfl

@[simp] theorem trimEnd_nil : trimEnd [] = [] := rfl

theorem trimStart_cons_of_blank {c : Char} (h : isBlank c) (cs : List Char) :
    trimStart (c :: cs) = trimStart cs := by
  simp [trimStart, h]

theorem trimStart_cons_of_not_blank {c : Char} (h : isBlank c = false) (cs : List Char) :
    trimStart (c :: cs) = c :: cs := by
  simp [trimStart, h]

/-- Nothing but the leading blanks is cut off. -/
theorem takeWhile_append_trimStart (cs : List Char) :
    cs.takeWhile isBlank ++ trimStart cs = cs :=
  List.takeWhile_append_dropWhile

theorem length_trimStart_le (cs : List Char) : (trimStart cs).length ≤ cs.length := by
  conv => rhs; rw [← takeWhile_append_trimStart cs]
  simp

theorem indent_add_length_trimStart (cs : List Char) :
    indent cs + (trimStart cs).length = cs.length := by
  conv => rhs; rw [← takeWhile_append_trimStart cs]
  simp [indent]

end Argand.Text
