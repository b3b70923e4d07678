import EchoAlign.Toml.Quoted

/-!
# `EchoAlign.Proofs.Toml.Quoted`: strings read back

A text is written in one of four forms, and whichever form it is, reading it
gives the text back and leaves what follows it.

* `encodeChar_cases`: what becomes of a character between double quotes. It
  is escaped, or it stands for itself.
* `Quotes`: what the two forms with tripled quotes have in common. Up to two
  quotes before the closing ones belong to the text.
* `decodeMultiBasic_encode`, `decodeMultiLiteral_append`: a text is read
  behind the quotes that were read last, so that a run of quotes counts as
  one piece.
* `decode_render`: the form that suits a text holds it.
-/

set_option autoImplicit false

namespace EchoAlign.Toml.Quoted

/-! ### Characters -/

/-- Four hexadecimal digits that `hex4` writes are read by `hexValue?` as the
number that they were made of, if it has seven bits. -/
theorem hexValue?_hex4 : ∀ n < 128, hexValue? 0 (hex4 n) = some n := by decide

/-- Every character has a code point, and `scalar?` reads it from that. -/
theorem scalar?_toNat (c : Char) : scalar? c.toNat = some c := by
  have hvalid : c.toNat.isValidChar := c.valid
  have hchar := Char.ofNat_toNat c
  rw [Char.ofNat, dif_pos hvalid] at hchar
  rw [scalar?, dif_pos hvalid, hchar]

/-- A code point of seven bits is read by `escape?` from its four digits. -/
theorem escape?_hex4 {c : Char} (hc : c.toNat < 128) (rest : List Char) :
    escape? ('u' :: hex4 c.toNat ++ rest) = some (c, rest) := by
  have hdigits : (hex4 c.toNat ++ rest).take 4 = hex4 c.toNat := rfl
  have hrest : (hex4 c.toNat ++ rest).drop 4 = rest := rfl
  show (if ((hex4 c.toNat ++ rest).take 4).length < 4 then none
    else ((hexValue? 0 ((hex4 c.toNat ++ rest).take 4)).bind scalar?).map
      fun d => (d, (hex4 c.toNat ++ rest).drop 4)) = some (c, rest)
  rw [hdigits, hrest, hexValue?_hex4 _ hc, Option.bind_some, scalar?_toNat]
  rfl

/-- Only characters of seven bits are written by their code points:
`needsEscape` holds of control characters. -/
theorem toNat_lt_of_needsEscape {c : Char} (h : needsEscape c = true) : c.toNat < 128 := by
  simp only [needsEscape, Bool.or_eq_true, Bool.and_eq_true, decide_eq_true_eq, beq_iff_eq] at h
  rcases h with ⟨⟨hlt, -⟩, -⟩ | rfl
  · exact Nat.lt_trans (show c.toNat < 32 from hlt) (by decide)
  · decide

/-- What does not need an escape `isPlain`, so that it may stand in a document,
a line feed apart. -/
theorem isPlain_of_not_needsEscape {c : Char} (h : needsEscape c = false) (hline : c ≠ '\n') :
    isPlain c = true := by
  by_cases htab : c = '\t'
  · rw [htab]
    rfl
  · simp only [needsEscape, Bool.or_eq_false_iff, Bool.and_eq_false_iff, decide_eq_false_iff_not,
      Char.not_lt, bne_eq_false_iff_eq, htab, hline, or_false, beq_eq_false_iff_ne] at h
    simp [isPlain, h.1, h.2]

/-- A carriage return `needsEscape`, so that what does not is none. -/
theorem ne_return_of_not_needsEscape {c : Char} (h : needsEscape c = false) : c ≠ '\r' := by
  rintro rfl
  cases h

/-- Between double quotes a character is escaped, or it stands for itself, and
on several lines a line feed does, too. In the first case `escape?` reads it
back, whatever follows. -/
theorem encodeChar_cases (onLines : Bool) (c : Char) :
    (∃ code, encodeChar onLines c = backslash :: code
        ∧ ∀ rest, escape? (code ++ rest) = some (c, rest))
      ∨ (encodeChar onLines c = [c] ∧ c ≠ backslash ∧ c ≠ '\n' ∧ c ≠ '\r' ∧ isPlain c = true)
      ∨ (onLines = true ∧ c = '\n' ∧ encodeChar onLines c = ['\n']) := by
  unfold encodeChar
  split
  · next h => exact Or.inl ⟨['b'], rfl, fun rest => by rw [h]; rfl⟩
  split
  · next h => exact Or.inl ⟨['t'], rfl, fun rest => by rw [h]; rfl⟩
  split
  · next h =>
      cases onLines with
      | true => exact Or.inr (Or.inr ⟨rfl, h, rfl⟩)
      | false => exact Or.inl ⟨['n'], rfl, fun rest => by rw [h]; rfl⟩
  split
  · next h => exact Or.inl ⟨['f'], rfl, fun rest => by rw [h]; rfl⟩
  split
  · next h => exact Or.inl ⟨['r'], rfl, fun rest => by rw [h]; rfl⟩
  split
  · next h => exact Or.inl ⟨[backslash], rfl, fun rest => by rw [h]; rfl⟩
  split
  · next hcode =>
      exact Or.inl ⟨'u' :: hex4 c.toNat, rfl, escape?_hex4 (toNat_lt_of_needsEscape hcode)⟩
  · next hline _ hreturn hbackslash hcode =>
      rw [Bool.not_eq_true] at hcode
      exact Or.inr (Or.inl ⟨rfl, hbackslash, hline, hreturn,
        isPlain_of_not_needsEscape hcode hline⟩)

/-- What `encodeChar` writes for a character other than the double quote does
not begin with one. -/
theorem head_encodeChar (onLines : Bool) {c : Char} (hc : c ≠ doubleQuote) :
    ∃ first more, encodeChar onLines c = first :: more ∧ first ≠ doubleQuote := by
  rcases encodeChar_cases onLines c with ⟨code, heq, -⟩ | ⟨heq, -⟩ | ⟨-, -, heq⟩
  · exact ⟨backslash, code, heq, by decide⟩
  · exact ⟨c, [], heq, hc⟩
  · exact ⟨'\n', [], heq, by decide⟩

/-! ### Forms on one line -/

/-- A double quote ends a text on one line: `decodeBasic` reads no more. -/
theorem decodeBasic_quote (rest : List Char) :
    decodeBasic (doubleQuote :: rest) = some ([], rest) := by
  rw [decodeBasic, if_pos rfl]

/-- An escape is read by `decodeBasic` for the character that it stands for. -/
theorem decodeBasic_escape {code after : List Char} {c : Char}
    (h : escape? code = some (c, after)) :
    decodeBasic (backslash :: code) = consFst c (decodeBasic after) := by
  rw [decodeBasic, if_neg (by decide), if_pos rfl]
  split
  · next heq => cases heq.symm.trans h
  · next heq =>
      cases heq.symm.trans h
      rfl

/-- A plain character, which is neither a double quote nor a backslash, is read
by `decodeBasic` for itself. -/
theorem decodeBasic_plain {c : Char} (hquote : c ≠ doubleQuote) (hbackslash : c ≠ backslash)
    (hplain : isPlain c = true) (rest : List Char) :
    decodeBasic (c :: rest) = consFst c (decodeBasic rest) := by
  rw [decodeBasic, if_neg hquote, if_neg hbackslash, if_pos hplain]

/-- On one line every double quote is escaped, so that the text is read up to
the first one that is not. By induction on the text. A `run` of quotes in front
does not matter here. -/
theorem decodeBasic_encode (text rest : List Char) (run : Nat) :
    decodeBasic (encode false run text ++ doubleQuote :: rest) = some (text, rest) := by
  induction text generalizing run with
  | nil => exact decodeBasic_quote rest
  | cons c text ih =>
      by_cases hc : c = doubleQuote
      · subst hc
        have hencode : encode false run (doubleQuote :: text)
            = backslash :: doubleQuote :: encode false 0 text := by simp [encode, quotesAllowed]
        rw [hencode, List.cons_append, List.cons_append, decodeBasic_escape rfl, ih]
        rfl
      · have hencode : encode false run (c :: text)
            = encodeChar false c ++ encode false 0 text := by simp [encode, hc]
        rw [hencode, List.append_assoc]
        rcases encodeChar_cases false c with ⟨code, heq, hcode⟩ | ⟨heq, hbackslash, -, -, hplain⟩
          | ⟨hlines, -⟩
        · rw [heq, List.cons_append, decodeBasic_escape (hcode _), ih]
          rfl
        · rw [heq, List.singleton_append, decodeBasic_plain hc hbackslash hplain, ih]
          rfl
        · cases hlines

/-- Between single quotes every plain character stands for itself:
`decodeLiteral` reads up to the next single quote. -/
theorem decodeLiteral_append {text : List Char} (rest : List Char)
    (h : ∀ c ∈ text, c ≠ singleQuote ∧ isPlain c = true) :
    decodeLiteral (text ++ singleQuote :: rest) = some (text, rest) := by
  induction text with
  | nil => simp [decodeLiteral]
  | cons c text ih =>
      obtain ⟨⟨hquote, hplain⟩, hmore⟩ := List.forall_mem_cons.mp h
      rw [List.cons_append, decodeLiteral, if_neg hquote, if_pos hplain, ih hmore]
      rfl

/-! ### Forms on several lines -/

/-- Puts characters in front of what a reader made of those behind them, if it
made anything. -/
def prepend (chars : List Char) (r : Option (List Char × List Char)) :
    Option (List Char × List Char) :=
  r.map fun p => (chars ++ p.1, p.2)

/-- To `prepend` no characters changes nothing. -/
theorem prepend_nil (r : Option (List Char × List Char)) : prepend [] r = r := by
  cases r <;> rfl

/-- Putting a character by `consFst` in front of some that `prepend` puts is
putting one more. -/
theorem consFst_prepend (c : Char) (chars : List Char) (r : Option (List Char × List Char)) :
    consFst c (prepend chars r) = prepend (c :: chars) r := by
  cases r <;> rfl

section Quotes

variable {quote : Char}

/-- Up to two quotes before something else close nothing: `closing?` asks for
three. -/
theorem closing?_eq_none {run : Nat} (hrun : run ≤ 1) {c : Char} (hc : c ≠ quote)
    (rest : List Char) :
    closing? quote (quote :: (List.replicate run quote ++ c :: rest)) = none := by
  obtain rfl | rfl : run = 0 ∨ run = 1 := by omega
  · cases rest with
    | nil => rfl
    | cons d rest => simp [closing?, hc]
  · simp [closing?, hc]

/-- Of up to five quotes, the last three close the text. `hrun` allows for two
quotes in front of the three, and `hrest` keeps a sixth one away. -/
theorem closing?_replicate {run : Nat} (hrun : run ≤ 2) {rest : List Char}
    (hrest : ∀ c ∈ rest.head?, c ≠ quote) :
    closing? quote (List.replicate run quote ++ quote :: quote :: quote :: rest)
      = some (List.replicate run quote, rest) := by
  obtain rfl | rfl | rfl : run = 0 ∨ run = 1 ∨ run = 2 := by omega
  · match rest, hrest with
    | [], _ => simp [closing?]
    | [c], hrest => simp [closing?, hrest c rfl]
    | c :: d :: rest, hrest => simp [closing?, hrest c rfl]
  · match rest, hrest with
    | [], _ => simp [closing?]
    | c :: rest, hrest => simp [closing?, hrest c rfl]
  · simp [closing?]

/-- A reader of texts on several lines closes the text at three quotes, as
`closing?` finds them, and takes any other quote for itself. Both kinds of
quotes are read this way. -/
def Quotes (quote : Char) (read : List Char → Option (List Char × List Char)) : Prop :=
  ∀ rest, read (quote :: rest) = (closing? quote (quote :: rest)).or (consFst quote (read rest))

variable {read : List Char → Option (List Char × List Char)} {run : Nat}

/-- Up to two quotes before something else belong to the text, for a reader that
`Quotes` describes. The induction is on the run of quotes. -/
theorem Quotes.read_run (h : Quotes quote read) (hrun : run ≤ 2) {c : Char} (hc : c ≠ quote)
    (rest : List Char) :
    read (List.replicate run quote ++ c :: rest)
      = prepend (List.replicate run quote) (read (c :: rest)) := by
  induction run with
  | zero => exact (prepend_nil _).symm
  | succ run ih =>
      rw [List.replicate_succ, List.cons_append, h, closing?_eq_none (by omega) hc, Option.none_or,
        ih (by omega), consFst_prepend]

/-- Up to two quotes before the closing ones belong to the text. `Quotes` holds
of both ways to read a text on several lines, so that it is shown once. -/
theorem Quotes.read_closing (h : Quotes quote read) (hrun : run ≤ 2) {rest : List Char}
    (hrest : ∀ c ∈ rest.head?, c ≠ quote) :
    read (List.replicate run quote ++ quote :: quote :: quote :: rest)
      = some (List.replicate run quote, rest) := by
  have hclosing := closing?_replicate hrun hrest
  -- There is a quote to begin with, whatever the run.
  have hfirst : List.replicate run quote ++ quote :: quote :: quote :: rest
      = quote :: (List.replicate run quote ++ quote :: quote :: rest) := by
    rw [← List.singleton_append, ← List.append_assoc, ← List.replicate_succ']
    rfl
  rw [hfirst] at hclosing ⊢
  rw [h, hclosing, Option.some_or]

end Quotes

/-- The reader `decodeMultiBasic`, between three double quotes, treats quotes
the way `Quotes` describes. -/
theorem quotes_decodeMultiBasic : Quotes doubleQuote decodeMultiBasic := by
  intro rest
  rw [decodeMultiBasic, if_pos rfl]
  cases closing? doubleQuote (doubleQuote :: rest) <;> rfl

/-- An escape is read by `decodeMultiBasic` for its character, too. -/
theorem decodeMultiBasic_escape {code after : List Char} {c : Char}
    (h : escape? code = some (c, after)) :
    decodeMultiBasic (backslash :: code) = consFst c (decodeMultiBasic after) := by
  rw [decodeMultiBasic, if_neg (by decide), if_pos rfl]
  split
  · next heq =>
      cases heq.symm.trans h
      rfl
  · next heq => cases heq.symm.trans h

/-- A line feed is read by `decodeMultiBasic` for itself. -/
theorem decodeMultiBasic_line (rest : List Char) :
    decodeMultiBasic ('\n' :: rest) = consFst '\n' (decodeMultiBasic rest) := by
  rw [decodeMultiBasic, if_neg (by decide), if_neg (by decide)]
  rfl

/-- Only a line feed, or a carriage return, begins a line end that `skipLineEnd`
skips. -/
theorem skipLineEnd_eq_none {c : Char} (hline : c ≠ '\n') (hreturn : c ≠ '\r')
    (rest : List Char) : skipLineEnd (c :: rest) = none := by
  unfold skipLineEnd
  split
  · next heq => exact absurd (List.cons.inj heq).1 hline
  · next heq => exact absurd (List.cons.inj heq).1 hreturn
  · rfl

/-- A plain character, which is no double quote, backslash or part of a line
end, is read by `decodeMultiBasic` for itself. -/
theorem decodeMultiBasic_plain {c : Char} (hquote : c ≠ doubleQuote) (hbackslash : c ≠ backslash)
    (hline : c ≠ '\n') (hreturn : c ≠ '\r') (hplain : isPlain c = true) (rest : List Char) :
    decodeMultiBasic (c :: rest) = consFst c (decodeMultiBasic rest) := by
  have hnone := skipLineEnd_eq_none hline hreturn rest
  rw [decodeMultiBasic, if_neg hquote, if_neg hbackslash]
  split
  · next heq => cases heq.symm.trans hnone
  · rw [if_pos hplain]

/-- A text that is written on several lines is read back, together with the
quotes before it that were read for themselves (`run`). The writer escapes every
third quote in a row, which the induction on the text follows. -/
theorem decodeMultiBasic_encode (text : List Char) {rest : List Char}
    (hrest : ∀ c ∈ rest.head?, c ≠ doubleQuote) {run : Nat} (hrun : run ≤ 2) :
    decodeMultiBasic (List.replicate run doubleQuote
        ++ (encode true run text ++ doubleQuote :: doubleQuote :: doubleQuote :: rest))
      = some (List.replicate run doubleQuote ++ text, rest) := by
  have hquotes := quotes_decodeMultiBasic
  induction text generalizing run with
  | nil => simpa [encode] using hquotes.read_closing hrun hrest
  | cons c text ih =>
      by_cases hc : c = doubleQuote
      · subst hc
        by_cases hfull : 2 ≤ run
        · -- A third quote is escaped, and a new run begins behind it.
          have hencode : encode true run (doubleQuote :: text)
              = backslash :: doubleQuote :: encode true 0 text := by
            simp [encode, quotesAllowed, hfull]
          have hbehind := ih (Nat.zero_le 2)
          rw [List.replicate_zero, List.nil_append] at hbehind
          rw [hencode, List.cons_append, List.cons_append, hquotes.read_run hrun (by decide),
            decodeMultiBasic_escape rfl, hbehind]
          rfl
        · have hencode : encode true run (doubleQuote :: text)
              = doubleQuote :: encode true (run + 1) text := by
            simp [encode, quotesAllowed, hfull]
          have hlonger := ih (show run + 1 ≤ 2 by omega)
          rw [List.replicate_succ', List.append_assoc, List.append_assoc] at hlonger
          rw [hencode]
          exact hlonger
      · have hencode : encode true run (c :: text)
            = encodeChar true c ++ encode true 0 text := by simp [encode, hc]
        have hbehind := ih (Nat.zero_le 2)
        rw [List.replicate_zero, List.nil_append] at hbehind
        -- Any other character ends the run of quotes in front of it.
        have hchar : decodeMultiBasic (encodeChar true c ++ (encode true 0 text
            ++ doubleQuote :: doubleQuote :: doubleQuote :: rest)) = some (c :: text, rest) := by
          rcases encodeChar_cases true c with ⟨code, heq, hcode⟩
            | ⟨heq, hbackslash, hline, hreturn, hplain⟩ | ⟨-, hline, heq⟩
          · rw [heq, List.cons_append, decodeMultiBasic_escape (hcode _), hbehind]
            rfl
          · rw [heq, List.singleton_append,
              decodeMultiBasic_plain hc hbackslash hline hreturn hplain, hbehind]
            rfl
          · rw [heq, List.singleton_append, decodeMultiBasic_line, hbehind, hline]
            rfl
        obtain ⟨first, more, hfirst, hne⟩ := head_encodeChar true hc
        rw [hencode, List.append_assoc]
        rw [hfirst] at hchar ⊢
        rw [List.cons_append] at hchar ⊢
        rw [hquotes.read_run hrun hne, hchar]
        rfl

/-- The reader `decodeMultiLiteral`, between three single quotes, treats quotes
the way `Quotes` describes. -/
theorem quotes_decodeMultiLiteral : Quotes singleQuote decodeMultiLiteral := by
  intro rest
  rw [decodeMultiLiteral, if_pos rfl]
  cases closing? singleQuote (singleQuote :: rest) <;> rfl

/-- What needs no escape is read for itself. It is a line feed, or plain by
`isPlain_of_not_needsEscape`. -/
theorem decodeMultiLiteral_char {c : Char} (hquote : c ≠ singleQuote)
    (hcode : needsEscape c = false) (rest : List Char) :
    decodeMultiLiteral (c :: rest) = consFst c (decodeMultiLiteral rest) := by
  by_cases hline : c = '\n'
  · subst hline
    rw [decodeMultiLiteral, if_neg hquote]
    rfl
  · have hnone := skipLineEnd_eq_none hline (ne_return_of_not_needsEscape hcode) rest
    rw [decodeMultiLiteral, if_neg hquote]
    split
    · next heq => cases heq.symm.trans hnone
    · rw [if_pos (isPlain_of_not_needsEscape hcode hline)]

/-- The longest run that `longestRunFrom` has found so far is never given up for
a shorter one. -/
theorem le_longestRunFrom (quote : Char) (run longest : Nat) (text : List Char) :
    longest ≤ longestRunFrom quote run longest text := by
  induction text generalizing run longest with
  | nil => exact Nat.le_refl _
  | cons c text ih =>
      unfold longestRunFrom
      split
      · exact Nat.le_trans (Nat.le_max_left _ _) (ih _ _)
      · exact ih _ _

/-- A text without three quotes in a row is read back. `run` counts the quotes
in front, and `hshort` says that `longestRunFrom` never gets to three, which
would close the text early. -/
theorem decodeMultiLiteral_append {text rest : List Char}
    (hrest : ∀ c ∈ rest.head?, c ≠ singleQuote) (hcodes : ∀ c ∈ text, needsEscape c = false)
    {run longest : Nat} (hrun : run ≤ 2)
    (hshort : longestRunFrom singleQuote run longest text ≤ 2) :
    decodeMultiLiteral (List.replicate run singleQuote
        ++ (text ++ singleQuote :: singleQuote :: singleQuote :: rest))
      = some (List.replicate run singleQuote ++ text, rest) := by
  have hquotes := quotes_decodeMultiLiteral
  induction text generalizing run longest with
  | nil => simpa using hquotes.read_closing hrun hrest
  | cons c text ih =>
      obtain ⟨hcode, hmore⟩ := List.forall_mem_cons.mp hcodes
      by_cases hc : c = singleQuote
      · subst hc
        rw [longestRunFrom, if_pos rfl] at hshort
        have hrun' : run + 1 ≤ 2 := Nat.le_trans (Nat.le_max_right _ _)
          (Nat.le_trans (le_longestRunFrom _ _ _ _) hshort)
        have hlonger := ih hmore hrun' hshort
        rw [List.replicate_succ', List.append_assoc, List.append_assoc] at hlonger
        exact hlonger
      · rw [longestRunFrom, if_neg hc] at hshort
        have hbehind := ih hmore (Nat.zero_le 2) hshort
        rw [List.replicate_zero, List.nil_append] at hbehind
        rw [List.cons_append, hquotes.read_run hrun hc, decodeMultiLiteral_char hc hcode, hbehind]
        rfl

/-! ### The form that suits a text -/

/-- A text between single quotes has no single quote in it. By induction on the
text, in which `longestRun` never goes down. -/
theorem ne_of_longestRun_eq_zero {quote : Char} {text : List Char}
    (h : longestRun quote text = 0) : ∀ c ∈ text, c ≠ quote := by
  unfold longestRun at h
  induction text with
  | nil => simp
  | cons c text ih =>
      by_cases hc : c = quote
      · -- One quote is a run already.
        have hle := le_longestRunFrom quote 1 1 text
        rw [longestRunFrom, if_pos hc] at h
        exact absurd h (by simp only [Nat.zero_add, Nat.zero_max]; omega)
      · rw [longestRunFrom, if_neg hc] at h
        exact List.forall_mem_cons.mpr ⟨hc, ih h⟩

/-- What is written between single quotes needs no escape and has neither a line
feed nor a single quote in it. These are the three tests of `Style.choose` on
the way to this style. -/
theorem choose_literal {text : List Char} (h : Style.choose text = .literal) :
    (∀ c ∈ text, needsEscape c = false) ∧ '\n' ∉ text ∧ longestRun singleQuote text = 0 := by
  unfold Style.choose at h
  simp only at h
  split at h
  · cases h
  · split at h
    · next hlines => simpa [and_assoc] using hlines
    · split at h
      · cases h
      · split at h
        · cases h
        · split at h <;> cases h

/-- What is written between three single quotes needs no escape and has no three
single quotes in a row. These are the tests of `Style.choose` on the way to this
style. -/
theorem choose_multiLiteral {text : List Char} (h : Style.choose text = .multiLiteral) :
    (∀ c ∈ text, needsEscape c = false) ∧ longestRun singleQuote text ≤ 2 := by
  unfold Style.choose at h
  simp only at h
  split at h
  · cases h
  · split at h
    · cases h
    · split at h
      · cases h
      · split at h
        · next hquotes => simpa using hquotes
        · split at h <;> cases h

/-- The line end that a text on several lines begins with is left out by
`trimLead`, and nothing of the text: the body does not begin with a line end
unless one was written in front of it. -/
theorem trimLead_lead {text body : List Char}
    (h : '\n' ∉ text → ∀ c ∈ body.head?, c ≠ '\n' ∧ c ≠ '\r') :
    trimLead ((if text.contains '\n' then ['\n'] else []) ++ body) = body := by
  by_cases hlines : '\n' ∈ text
  · simp [hlines, trimLead, skipLineEnd]
  · cases body with
    | nil => simp [hlines, trimLead, skipLineEnd]
    | cons c body =>
        obtain ⟨hline, hreturn⟩ := h hlines c rfl
        simp [hlines, trimLead, skipLineEnd_eq_none hline hreturn]

/-- What is written between double quotes begins with no line end, unless the
text does. `encodeChar` escapes a carriage return in any case. -/
theorem head_encode {text : List Char} (h : '\n' ∉ text) (rest : List Char) :
    ∀ c ∈ (encode true 0 text ++ doubleQuote :: rest).head?, c ≠ '\n' ∧ c ≠ '\r' := by
  cases text with
  | nil => simp [encode, doubleQuote]
  | cons d text =>
      by_cases hd : d = doubleQuote
      · simp [encode, hd, quotesAllowed, doubleQuote]
      · have hencode : encode true 0 (d :: text) = encodeChar true d ++ encode true 0 text := by
          simp [encode, hd]
        rw [hencode]
        rcases encodeChar_cases true d with ⟨code, heq, -⟩ | ⟨heq, -, hline, hreturn, -⟩
          | ⟨-, hline, -⟩
        · simp [heq, backslash]
        · simp [heq, hline, hreturn]
        · exact absurd (hline ▸ List.mem_cons_self) h

/-- One double quote opens a text on one line, which `decode` reads by
`decodeBasic`, unless two more quotes follow. -/
theorem decode_basic {text : List Char} (h : ∀ rest, text ≠ doubleQuote :: doubleQuote :: rest) :
    decode (doubleQuote :: text) = decodeBasic text := by
  unfold decode
  split
  · next heq => exact absurd (List.cons.inj heq).2 (h _)
  · next heq => exact absurd (List.cons.inj heq).1 (by decide)
  · next heq => rw [(List.cons.inj heq).2]
  · next heq => exact absurd (List.cons.inj heq).1 (by decide)
  · next hnone _ => exact absurd rfl (hnone text)

/-- One single quote opens a text on one line, which `decode` reads by
`decodeLiteral`, unless two more quotes follow. -/
theorem decode_literal {text : List Char}
    (h : ∀ rest, text ≠ singleQuote :: singleQuote :: rest) :
    decode (singleQuote :: text) = decodeLiteral text := by
  unfold decode
  split
  · next heq => exact absurd (List.cons.inj heq).1 (by decide)
  · next heq => exact absurd (List.cons.inj heq).2 (h _)
  · next heq => exact absurd (List.cons.inj heq).1 (by decide)
  · next heq => rw [(List.cons.inj heq).2]
  · next hnone => exact absurd rfl (hnone text)

section Forms

variable {text rest : List Char}

/-- A text between double quotes is read back. `hrest` keeps the two quotes of
an empty text from being taken for the first of three. -/
theorem decode_renderAs_basic (text : List Char) (hrest : ∀ c ∈ rest.head?, c ≠ doubleQuote) :
    decode (renderAs .basic text ++ rest) = some (text, rest) := by
  have hform : renderAs .basic text ++ rest
      = doubleQuote :: (encode false 0 text ++ doubleQuote :: rest) := by
    simp [renderAs, Style.delimiter, Style.body]
  have hopen : ∀ more, encode false 0 text ++ doubleQuote :: rest
      ≠ doubleQuote :: doubleQuote :: more := by
    intro more heq
    cases text with
    | nil => exact hrest doubleQuote (by rw [(List.cons.inj heq).2]; rfl) rfl
    | cons c text =>
        by_cases hc : c = doubleQuote
        · simp [encode, hc, quotesAllowed, backslash, doubleQuote] at heq
        · obtain ⟨first, code, hfirst, hne⟩ := head_encodeChar false hc
          simp [encode, hc, hfirst, hne] at heq
  rw [hform, decode_basic hopen, decodeBasic_encode]

/-- A text between single quotes, as `renderAs` writes it, is read back by
`decode`, if it has no single quote in it and is plain. -/
theorem decode_renderAs_literal (hrest : ∀ c ∈ rest.head?, c ≠ singleQuote)
    (htext : ∀ c ∈ text, c ≠ singleQuote ∧ isPlain c = true) :
    decode (renderAs .literal text ++ rest) = some (text, rest) := by
  have hform : renderAs .literal text ++ rest = singleQuote :: (text ++ singleQuote :: rest) := by
    simp [renderAs, Style.delimiter, Style.body]
  have hopen : ∀ more, text ++ singleQuote :: rest ≠ singleQuote :: singleQuote :: more := by
    intro more heq
    cases text with
    | nil => exact hrest singleQuote (by rw [(List.cons.inj heq).2]; rfl) rfl
    | cons c text => exact (htext c List.mem_cons_self).1 (List.cons.inj heq).1
  rw [hform, decode_literal hopen, decodeLiteral_append rest htext]

/-- A text between three double quotes is read back. `hrest` keeps a further
quote from being taken for one of the text. -/
theorem decode_renderAs_multiBasic (text : List Char)
    (hrest : ∀ c ∈ rest.head?, c ≠ doubleQuote) :
    decode (renderAs .multiBasic text ++ rest) = some (text, rest) := by
  have hform : renderAs .multiBasic text ++ rest
      = doubleQuote :: doubleQuote :: doubleQuote
        :: ((if text.contains '\n' then ['\n'] else [])
          ++ (encode true 0 text ++ doubleQuote :: doubleQuote :: doubleQuote :: rest)) := by
    simp [renderAs, Style.delimiter, Style.body]
  rw [hform]
  show decodeMultiBasic (trimLead _) = _
  rw [trimLead_lead fun hlines => head_encode hlines _]
  exact decodeMultiBasic_encode text hrest (Nat.zero_le 2)

/-- A text between three single quotes is read back, if it needs no escape and
has no three of them in a row. `hrest` keeps a further quote from being taken
for one of the text. `hcodes` and `hquotes` are what `choose_multiLiteral`
gives. -/
theorem decode_renderAs_multiLiteral (hrest : ∀ c ∈ rest.head?, c ≠ singleQuote)
    (hcodes : ∀ c ∈ text, needsEscape c = false) (hquotes : longestRun singleQuote text ≤ 2) :
    decode (renderAs .multiLiteral text ++ rest) = some (text, rest) := by
  have hform : renderAs .multiLiteral text ++ rest
      = singleQuote :: singleQuote :: singleQuote
        :: ((if text.contains '\n' then ['\n'] else [])
          ++ (text ++ singleQuote :: singleQuote :: singleQuote :: rest)) := by
    simp [renderAs, Style.delimiter, Style.body]
  have hlead : '\n' ∉ text → ∀ c ∈ (text ++ singleQuote :: singleQuote :: singleQuote
      :: rest).head?, c ≠ '\n' ∧ c ≠ '\r' := by
    intro hlines c hc
    cases text with
    | nil =>
        cases Option.some.inj hc
        decide
    | cons d text =>
        cases Option.some.inj hc
        exact ⟨fun hline => hlines (hline ▸ List.mem_cons_self),
          ne_return_of_not_needsEscape (hcodes _ List.mem_cons_self)⟩
  rw [hform]
  show decodeMultiLiteral (trimLead _) = _
  rw [trimLead_lead hlead]
  exact decodeMultiLiteral_append hrest hcodes (Nat.zero_le 2) hquotes

/-- Every text is read back from the form that it is written in by
`Quoted.render`, as long as what follows is no quote. -/
theorem decode_render (text : List Char)
    (hrest : ∀ c ∈ rest.head?, c ≠ doubleQuote ∧ c ≠ singleQuote) :
    decode (render text ++ rest) = some (text, rest) := by
  have hdoubles : ∀ c ∈ rest.head?, c ≠ doubleQuote := fun c hc => (hrest c hc).1
  have hsingles : ∀ c ∈ rest.head?, c ≠ singleQuote := fun c hc => (hrest c hc).2
  unfold render
  cases hstyle : Style.choose text with
  | basic => exact decode_renderAs_basic text hdoubles
  | literal =>
      obtain ⟨hcodes, hlines, hquotes⟩ := choose_literal hstyle
      exact decode_renderAs_literal hsingles fun c hc =>
        ⟨ne_of_longestRun_eq_zero hquotes c hc,
          isPlain_of_not_needsEscape (hcodes c hc) fun hline => hlines (hline ▸ hc)⟩
  | multiBasic => exact decode_renderAs_multiBasic text hdoubles
  | multiLiteral =>
      obtain ⟨hcodes, hquotes⟩ := choose_multiLiteral hstyle
      exact decode_renderAs_multiLiteral hsingles hcodes hquotes

end Forms

end EchoAlign.Toml.Quoted
