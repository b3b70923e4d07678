import EchoAlign.Text.Blank
import EchoAlign.Text.Number

/-!
# `EchoAlign.Proofs.Text.Number`: numbers read back

A number in decimal digits (`decimal`) is read as itself, if it is in range
(`readNat?_decimal`). Its digits are no white space (`isBlank_of_isDigit`), so
that a number can stand in an argument list as it is.
-/

set_option autoImplicit false

namespace EchoAlign.Text

/-- A digit is read by `digit?` as its distance from the digit zero. -/
theorem digit?_of_isDigit {c : Char} (h : c.isDigit = true) :
    digit? c = some (c.toNat - '0'.toNat) := by
  simp only [Char.isDigit, Bool.and_eq_true, decide_eq_true_eq] at h
  exact if_pos h

/-- A run of digits is read as the number that it spells, behind the digits in
`acc`. -/
theorem natFrom?_digits {text : List Char} (htext : ∀ c ∈ text, c.isDigit = true) (acc : Nat) :
    natFrom? acc text = some (Nat.ofDigitChars 10 text acc) := by
  induction text generalizing acc with
  | nil => simp [natFrom?]
  | cons c text ih =>
      obtain ⟨hc, hmore⟩ := List.forall_mem_cons.mp htext
      rw [natFrom?, digit?_of_isDigit hc, Option.bind_some, ih hmore, Nat.ofDigitChars_cons]

/-- A number is written in digits by `Nat.toDigits`. -/
theorem isDigit_toDigits {n : Nat} : ∀ c ∈ Nat.toDigits 10 n, c.isDigit = true :=
  fun _ hc => Nat.isDigit_of_mem_toDigits (by decide) (by decide) hc

/-- A digit is not white space (`isBlank`). -/
theorem isBlank_of_isDigit {c : Char} (h : c.isDigit = true) : isBlank c = false := by
  simp only [Char.isDigit, Bool.and_eq_true, decide_eq_true_eq] at h
  have hlow : 48 ≤ c.toNat := h.1
  have hhigh : c.toNat ≤ 57 := h.2
  simp only [isBlank, blankRanges, List.any_cons, List.any_nil, Bool.or_eq_false_iff,
    Bool.and_eq_false_iff, decide_eq_false_iff_not, and_true]
  omega

/-- A number in decimal digits, as `Nat.toDigits` gives them. -/
def decimal (n : Nat) : String := String.ofList (Nat.toDigits 10 n)

/-- A number in range is read from its digits. `decimal` writes no sign and no
zeros in front. -/
theorem readNat?_decimal {n max : Nat} (h : n ≤ max) : readNat? max (decimal n) = some n := by
  cases hdigits : Nat.toDigits 10 n with
  | nil => exact absurd hdigits Nat.toDigits_ne_nil
  | cons c text =>
      have hall : ∀ d ∈ c :: text, d.isDigit = true := hdigits ▸ isDigit_toDigits
      -- The first digit is not taken for a sign.
      have hsign : c ≠ '+' := by
        rintro rfl
        exact absurd (hall '+' List.mem_cons_self) (by decide)
      have hread : natOfDigits? (c :: text) = some n := by
        rw [natOfDigits?, natFrom?_digits hall, ← hdigits, Nat.ofDigitChars_ten_toDigits]
      rw [readNat?, decimal, hdigits, String.toList_ofList]
      split
      · next heq => exact absurd (List.cons.inj heq).1 hsign
      · simp [hread, Option.filter, h]

end EchoAlign.Text
