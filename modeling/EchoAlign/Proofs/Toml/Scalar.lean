import EchoAlign.Proofs.Text.Number
import EchoAlign.Toml.Scalar

/-!
# `EchoAlign.Proofs.Toml.Scalar`: numbers and switches read back

A number in decimal digits is read as this integer, if it fits a signed word
(`read_toDigits`), and the words for on and off as what they say
(`read_switch`). Either stands at the end of a line.
-/

set_option autoImplicit false

namespace EchoAlign.Toml.Scalar

open Text (isDigit_toDigits)

/-! ### Digits -/

/-- A digit is read by `digit?` as its distance from the digit zero. -/
theorem digit?_of_isDigit {c : Char} (h : c.isDigit = true) :
    digit? 10 c = some (c.toNat - '0'.toNat) := by
  simp only [Char.isDigit, Bool.and_eq_true, decide_eq_true_eq] at h
  have hrange : '0' ≤ c ∧ c ≤ '9' := h
  have hbound : c.toNat ≤ 57 := hrange.2
  have hten : c.toNat - 48 < 10 := by omega
  simp [digit?, hrange, Option.filter, hten]

/-- A character that `isDigit` is not one that is no digit. -/
theorem ne_of_isDigit {c d : Char} (h : c.isDigit = true) (hd : d.isDigit = false) : c ≠ d := by
  rintro rfl
  exact absurd (h.symm.trans hd) nofun

/-- A run of digits is read by `natFrom?` as the number that it spells,
`Nat.ofDigitChars`, behind what was read before. The induction is on the run. -/
theorem natFrom?_digits {text : List Char} (htext : ∀ c ∈ text, c.isDigit = true) {acc : Nat}
    {fresh : Bool} (hsome : text = [] → fresh = true) :
    natFrom? 10 acc fresh text = some (Nat.ofDigitChars 10 text acc) := by
  induction text generalizing acc fresh with
  | nil => simp [natFrom?, hsome rfl]
  | cons c text ih =>
      obtain ⟨hc, hmore⟩ := List.forall_mem_cons.mp htext
      rw [natFrom?, if_neg (ne_of_isDigit hc (by decide)), digit?_of_isDigit hc, Option.bind_some,
        ih hmore (fun _ => rfl), Nat.ofDigitChars_cons]

/-- Only zero begins with the digit zero. By induction on `n`, as `Nat.toDigits`
goes by tenths. -/
theorem toDigits_ne_zero_cons {n : Nat} (hn : 0 < n) (rest : List Char) :
    Nat.toDigits 10 n ≠ '0' :: rest := by
  induction n using Nat.strongRecOn generalizing rest with
  | ind n ih =>
      by_cases hsmall : n < 10
      · rw [Nat.toDigits_of_lt_base hsmall]
        intro heq
        have hzero : ∀ k < 10, 0 < k → Nat.digitChar k ≠ '0' := by decide
        exact hzero n hsmall hn (List.cons.inj heq).1
      · -- The digits before the last are those of the tenth part.
        rw [Nat.toDigits_of_base_le (by decide) (by omega)]
        intro heq
        cases hfirst : Nat.toDigits 10 (n / 10) with
        | nil => exact Nat.toDigits_ne_nil hfirst
        | cons c digits =>
            rw [hfirst, List.cons_append] at heq
            exact ih (n / 10) (by omega) (by omega) digits
              (hfirst.trans (congrArg (· :: digits) (List.cons.inj heq).1))

/-- A number is read by `plainNat?` from the digits that `Nat.toDigits` writes. -/
theorem plainNat?_toDigits (n : Nat) : plainNat? (Nat.toDigits 10 n) = some n := by
  unfold plainNat?
  split
  · next c rest heq =>
      -- No number has a needless zero.
      cases n with
      | zero => cases heq
      | succ n => exact absurd heq (toDigits_ne_zero_cons (Nat.succ_pos n) _)
  · rw [nat?, natFrom?_digits isDigit_toDigits fun h => absurd h Nat.toDigits_ne_nil,
      Nat.ofDigitChars_ten_toDigits]

/-- A number that fits a signed word is read as an integer. No digit is a sign
or the letter of a prefix, so that `anyInteger?` comes to `plainNat?_toDigits`. -/
theorem integer?_toDigits {n : Nat} (hn : n ≤ Word.maxSigned) :
    integer? (Nat.toDigits 10 n) = some (n : Int) := by
  have hword : Word.IsSigned n := ⟨by omega, by omega⟩
  -- What is not a digit stands nowhere among digits.
  have hnone : ∀ {c : Char}, c.isDigit = false → c ∉ Nat.toDigits 10 n := fun hc hmem =>
    absurd ((isDigit_toDigits _ hmem).symm.trans hc) nofun
  have hplain : unsign (Nat.toDigits 10 n) = (false, Nat.toDigits 10 n) := by
    unfold unsign
    split
    · next heq => exact absurd (heq ▸ List.mem_cons_self) (hnone (c := '+') rfl)
    · next heq => exact absurd (heq ▸ List.mem_cons_self) (hnone (c := '-') rfl)
    · rfl
  have hany : anyInteger? (Nat.toDigits 10 n) = some (n : Int) := by
    unfold anyInteger?
    split
    · next heq =>
        exact absurd (heq ▸ List.mem_cons_of_mem _ List.mem_cons_self) (hnone (c := 'x') rfl)
    · next heq =>
        exact absurd (heq ▸ List.mem_cons_of_mem _ List.mem_cons_self) (hnone (c := 'o') rfl)
    · next heq =>
        exact absurd (heq ▸ List.mem_cons_of_mem _ List.mem_cons_self) (hnone (c := 'b') rfl)
    · simp [hplain, plainNat?_toDigits]
  simp [integer?, hany, Option.filter, hword]

/-! ### Runs -/

/-- A run of characters at the end of a line is read for what it means. `hrun`
makes the run end at the line feed, which is no scalar character. -/
theorem read_run {run : List Char} (hrun : ∀ c ∈ run, isScalarChar c = true) (rest : List Char) :
    read (run ++ '\n' :: rest) = (ofRun? run).map fun value => (value, '\n' :: rest) := by
  have hend : isScalarChar '\n' = false := by decide
  have htake : (run ++ '\n' :: rest).takeWhile isScalarChar = run := by
    rw [List.takeWhile_append_of_pos hrun]
    simp [hend]
  have hdrop : (run ++ '\n' :: rest).dropWhile isScalarChar = '\n' :: rest := by
    rw [List.dropWhile_append_of_pos hrun]
    simp [hend]
  unfold read
  simp only [htake, hdrop]
  rfl

/-- The digits of a number that is a signed word are taken by `ofRun?` for that
integer. -/
theorem ofRun?_toDigits {n : Nat} (hn : n ≤ Word.maxSigned) :
    ofRun? (Nat.toDigits 10 n) = some (.integer n) := by
  have hword : ∀ {word : List Char}, (∃ c ∈ word, c.isDigit = false) →
      Nat.toDigits 10 n ≠ word := by
    rintro word ⟨c, hc, hdigit⟩ rfl
    exact absurd ((isDigit_toDigits c hc).symm.trans hdigit) nofun
  rw [ofRun?, if_neg (hword ⟨'t', by decide, rfl⟩), if_neg (hword ⟨'f', by decide, rfl⟩),
    integer?_toDigits hn]

/-- A number that is a signed word is read back by `read` from its digits, up to
the end of the line. -/
theorem read_toDigits {n : Nat} (hn : n ≤ Word.maxSigned) (rest : List Char) :
    read (Nat.toDigits 10 n ++ '\n' :: rest) = some (.integer n, '\n' :: rest) := by
  have hrun : ∀ c ∈ Nat.toDigits 10 n, isScalarChar c = true := by
    intro c hc
    simp [isScalarChar, Char.isAlphanum, isDigit_toDigits c hc]
  rw [read_run hrun, ofRun?_toDigits hn]
  rfl

/-- The words for on and off are read back by `read`, up to the end of the line. -/
theorem read_switch (b : Bool) (rest : List Char) :
    read ((if b then "true".toList else "false".toList) ++ '\n' :: rest)
      = some (.boolean b, '\n' :: rest) := by
  cases b with
  | true =>
      rw [if_pos rfl, read_run (List.all_eq_true.mp (by decide))]
      rfl
  | false =>
      rw [if_neg Bool.false_ne_true, read_run (List.all_eq_true.mp (by decide))]
      rfl

end EchoAlign.Toml.Scalar
