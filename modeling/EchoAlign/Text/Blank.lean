/-!
# `EchoAlign.Text.Blank`: the white space of argument lists

Arguments are separated by white space as Unicode defines it: the 25
characters with the property `White_Space`. The class is wider than
`Char.isWhitespace`, which knows four of them
(`isBlank_of_isWhitespace`).
-/

set_option autoImplicit false

namespace EchoAlign.Text

/-- The characters with the Unicode property `White_Space`, as code
point ranges with both ends included. -/
def blankRanges : List (Nat × Nat) :=
  [(0x09, 0x0d), (0x20, 0x20), (0x85, 0x85), (0xa0, 0xa0), (0x1680, 0x1680),
   (0x2000, 0x200a), (0x2028, 0x2029), (0x202f, 0x202f), (0x205f, 0x205f),
   (0x3000, 0x3000)]

/-- Whether a character separates arguments. -/
def isBlank (c : Char) : Bool :=
  blankRanges.any fun r => r.1 ≤ c.toNat && c.toNat ≤ r.2

/-- The class holds everything the core library calls white space. -/
theorem isBlank_of_isWhitespace {c : Char} (h : c.isWhitespace = true) :
    isBlank c = true := by
  simp only [Char.isWhitespace, Bool.or_eq_true, decide_eq_true_eq] at h
  rcases h with ((h | h) | h) | h <;> subst h <;> decide

end EchoAlign.Text
