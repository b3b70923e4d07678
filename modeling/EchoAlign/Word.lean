/-!
# `EchoAlign.Word`: machine words

Byte counts and clock readings travel through 64-bit words. Inside
the library they are plain `Nat` and `Int`; the two functions
`Word.unsigned` and `Word.signed` are the only places where a number is
cut back to its word.

* `Word.unsigned_eq_mod`, `Word.signed_eq_bmod`: what is left of a
  number.
* `Word.unsigned_of_le`, `Word.signed_of_isSigned`: numbers that already
  fit are left alone.
* `Word.unsigned_le`, `Word.isSigned_signed`: what is cut back fits.
-/

set_option autoImplicit false

namespace EchoAlign.Word

/-! ### Ranges -/

/-- The largest unsigned word of 16 bits. -/
def max16 : Nat := 0xFFFF

/-- The largest unsigned word of 32 bits. -/
def max32 : Nat := 0xFFFF_FFFF

/-- The largest unsigned word of 64 bits. -/
def maxUnsigned : Nat := 0xFFFF_FFFF_FFFF_FFFF

/-- The largest signed word of 64 bits. -/
def maxSigned : Nat := 0x7FFF_FFFF_FFFF_FFFF

/-- The signed words of 64 bits. They reach one further below zero than
`maxSigned` above. -/
def IsSigned (n : Int) : Prop := -(maxSigned : Int) - 1 ≤ n ∧ n ≤ maxSigned

/-- Whether a number is a signed word can be decided by comparing it. -/
instance (n : Int) : Decidable (IsSigned n) :=
  inferInstanceAs (Decidable (_ ∧ _))

/-! ### Cutting back -/

/-- The low 64 bits of a number, as a conversion to an unsigned word keeps them. -/
def unsigned (n : Nat) : Nat := (UInt64.ofNat n).toNat

/-- The low 64 bits of a number, read in two's complement. -/
def signed (n : Int) : Int := (Int64.ofInt n).toInt

/-- The unsigned word of a number is its remainder by `2 ^ 64`. -/
theorem unsigned_eq_mod (n : Nat) : unsigned n = n % 0x1_0000_0000_0000_0000 :=
  UInt64.toNat_ofNat'

/-- The signed word of a number is its balanced remainder (`Int.bmod`) by
`2 ^ 64`. -/
theorem signed_eq_bmod (n : Int) : signed n = n.bmod 0x1_0000_0000_0000_0000 :=
  Int64.toInt_ofInt

/-- No unsigned word is above `maxUnsigned`. -/
theorem unsigned_le (n : Nat) : unsigned n ≤ maxUnsigned := by
  rw [unsigned_eq_mod, maxUnsigned]
  omega

/-- A number up to `maxUnsigned` is its own word. -/
theorem unsigned_of_le {n : Nat} (h : n ≤ maxUnsigned) : unsigned n = n := by
  rw [unsigned_eq_mod]
  exact Nat.mod_eq_of_lt (Nat.lt_succ_of_le h)

/-- Whatever comes out of `signed` is a signed word. -/
theorem isSigned_signed (n : Int) : IsSigned (signed n) := by
  have above := Int.bmod_lt (x := n) (m := 0x1_0000_0000_0000_0000) (by decide)
  have below := Int.le_bmod (x := n) (m := 0x1_0000_0000_0000_0000) (by decide)
  simp only [IsSigned, signed_eq_bmod, maxSigned]
  omega

/-- A number in the signed range (`IsSigned`) is its own word. -/
theorem signed_of_isSigned {n : Int} (h : IsSigned n) : signed n = n := by
  rw [signed_eq_bmod]
  simp only [IsSigned, maxSigned] at h
  exact Int.bmod_eq_of_le (by omega) (by omega)

/-- A natural number up to `maxSigned` is its own signed word. -/
theorem signed_natCast {n : Nat} (h : n ≤ maxSigned) : signed (n : Int) = n :=
  signed_of_isSigned ⟨by omega, by omega⟩

end EchoAlign.Word
