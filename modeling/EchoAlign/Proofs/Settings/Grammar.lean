import Mathlib.Data.List.TakeWhile
import EchoAlign.Proofs.Settings.Pairs

/-!
# `EchoAlign.Proofs.Settings.Grammar`: what an argument list is

The form of an argument list, told without the way it is read. Pairs stand
one after the other (`Leads`), with any amount of white space before,
between and behind them. A pair is a key (`IsKey`), an `=`, and a spelling
of its value (`Spells`). `Offends` says what can be wrong with the pair that
a text begins with.

* `pair_eq_ok_iff`, `pair_eq_error_iff`: what is read as one pair, and what
  is not.
* `Leads.parseFrom_eq`: pairs in front of a text are taken one by one.
* `exists_leads`: every text is an argument list, or has a first pair that
  offends.
* `parse_iff_grammar`: an argument list is read exactly when it has the form
  of one, as the map of its pairs, and any other text gives the error of its
  first offending pair.
-/

set_option autoImplicit false

namespace EchoAlign.FlatArgs

/-! ### The form of an argument list -/

/-- White space only, or nothing, by `Text.isBlank`. -/
def IsBlankText (text : List Char) : Prop := ∀ c ∈ text, Text.isBlank c = true

/-- Whether a text is white space only is found by looking at each character
with `Text.isBlank`. -/
instance (text : List Char) : Decidable (IsBlankText text) :=
  List.decidableBAll (fun c => Text.isBlank c = true) text

/-- A text that is empty, or begins with a character that `Text.isBlank` tells,
so that a plain value ends before it. -/
def BeginsBlank (text : List Char) : Prop := ∀ c, text.head? = some c → Text.isBlank c = true

/-- A key is not empty, and free of `=` and white space. -/
def IsKey (key : List Char) : Prop := key ≠ [] ∧ ∀ c ∈ key, c ≠ '=' ∧ Text.isBlank c = false

/-- A character that a value can be quoted with: a single or a double quote, as
`isQuote` checks. -/
def IsQuote (c : Char) : Prop := c = '\x27' ∨ c = '\x22'

/-- A value that needs no quotes: it is free of what `Text.isBlank` tells, and
does not begin with an `IsQuote`. -/
def IsPlain (value : List Char) : Prop :=
  (∀ c ∈ value, Text.isBlank c = false) ∧ ∀ c, value.head? = some c → ¬ IsQuote c

/-- A value is spelled this way, where the rest follows: between two quotes that
are `IsQuote` and the same, or `IsPlain` and up to white space. -/
inductive Spells : List Char → List Char → List Char → Prop
  /-- Between two quotes of the same kind, which is not in the value. -/
  | quoted {quote : Char} {value rest : List Char} (hquote : IsQuote quote)
      (habsent : quote ∉ value) : Spells value (quote :: (value ++ [quote])) rest
  /-- As it is, up to the next white space. -/
  | bare {value rest : List Char} (hplain : IsPlain value) (hends : BeginsBlank rest) :
      Spells value value rest

/-- The text begins with the pairs, each with its `IsKey` and its value as
`Spells` has it behind some white space, and the rest follows behind them. -/
inductive Leads : List Char → List (String × String) → List Char → Prop
  | nil (rest : List Char) : Leads rest [] rest
  | cons {blanks key value spelling text rest : List Char} {pairs : List (String × String)}
      (hblanks : IsBlankText blanks) (hkey : IsKey key) (hvalue : Spells value spelling text)
      (hmore : Leads text pairs rest) :
      Leads (blanks ++ (key ++ '=' :: (spelling ++ text)))
        ((String.ofList key, String.ofList value) :: pairs) rest

/-- What the text begins with is not a pair, and the error says why: there is no
`IsKey`, no equals sign behind it, or a quote that never ends. -/
inductive IsMalformed : List Char → ArgumentError → Prop
  /-- There is no key. -/
  | noKey (rest : List Char) : IsMalformed ('=' :: rest) (.malformed "")
  /-- There is no `=`. -/
  | noSign {key rest : List Char} (hkey : IsKey key) (hends : BeginsBlank rest) :
      IsMalformed (key ++ rest) (.malformed (String.ofList key))
  /-- The value is quoted, and the quote never ends. -/
  | openQuote {quote : Char} {key inner : List Char} (hkey : IsKey key)
      (hquote : IsQuote quote) (habsent : quote ∉ inner) :
      IsMalformed (key ++ '=' :: quote :: inner)
        (.malformed (String.ofList (key ++ '=' :: quote :: inner)))

/-- What is wrong with the pair that the text begins with, when these keys stand
in front of it: it is malformed, or its key is `known`. -/
inductive Offends (known : List String) : List Char → ArgumentError → Prop
  | malformed {text : List Char} {e : ArgumentError} (h : IsMalformed text e) :
      Offends known text e
  /-- It is a pair, and its key is not new. -/
  | repeated {key value spelling rest : List Char} (hkey : IsKey key)
      (hvalue : Spells value spelling rest) (hknown : String.ofList key ∈ known) :
      Offends known (key ++ '=' :: (spelling ++ rest)) (.duplicate (String.ofList key))

/-- The text is an argument list of these pairs: it `Leads` to them, each key
stands once, and nothing but white space is behind the last. -/
def IsListOf (text : List Char) (pairs : List (String × String)) : Prop :=
  ∃ blanks, Leads text pairs blanks ∧ IsBlankText blanks ∧ (pairs.map Prod.fst).Nodup

/-- Pairs with a key of their own each are what the text `Leads` to, and then
one `Offends`. As the pairs in front are all right, this is the leftmost one
that does. -/
def OffendsFirst (text : List Char) (e : ArgumentError) : Prop :=
  ∃ pairs blanks bad, Leads text pairs (blanks ++ bad) ∧ IsBlankText blanks
    ∧ (pairs.map Prod.fst).Nodup ∧ Offends (pairs.map Prod.fst) bad e

/-! ### Runs of characters -/

/-- A list is parted where a run ends exactly in one way. So a split that is
given by a grammar is the one that `takeWhile` and `dropWhile` find. -/
theorem takeWhile_dropWhile_iff {α : Type} {p : α → Bool} {l run rest : List α} :
    l.takeWhile p = run ∧ l.dropWhile p = rest
      ↔ l = run ++ rest ∧ (∀ a ∈ run, p a = true) ∧ ∀ a, rest.head? = some a → p a = false := by
  constructor
  · rintro ⟨rfl, rfl⟩
    refine ⟨List.takeWhile_append_dropWhile.symm, List.all_eq_true.mp List.all_takeWhile, ?_⟩
    intro a ha
    have hnot := List.head?_dropWhile_not p l
    rw [ha] at hnot
    exact hnot
  · rintro ⟨rfl, hrun, hrest⟩
    rw [List.takeWhile_append_of_pos hrun, List.dropWhile_append_of_pos hrun]
    cases rest with
    | nil => simp
    | cons a rest => simp [hrest a rfl]

/-- A list begins with a run, `takeWhile`, in which the property holds
throughout, and the rest, `dropWhile`, is empty or begins where it does not
hold. -/
theorem takeWhile_dropWhile_run {α : Type} (p : α → Bool) (l : List α) :
    l = l.takeWhile p ++ l.dropWhile p ∧ (∀ a ∈ l.takeWhile p, p a = true)
      ∧ ∀ a, (l.dropWhile p).head? = some a → p a = false :=
  takeWhile_dropWhile_iff.mp ⟨rfl, rfl⟩

/-- The check `isQuote` finds exactly what `IsQuote` describes. -/
theorem isQuote_iff {c : Char} : isQuote c = true ↔ IsQuote c := by
  simp [isQuote, IsQuote]

/-- The check `isKeyChar` passes exactly for a character that is neither white
space nor an equals sign. -/
theorem isKeyChar_iff {c : Char} :
    isKeyChar c = true ↔ c ≠ '=' ∧ Text.isBlank c = false := by
  simp [isKeyChar]

/-- A text that is not empty and passes `isKeyChar` throughout is a key, which
decides `IsKey` for keys that are given. -/
theorem isKey_of_all {key : List Char} (hne : key ≠ []) (h : key.all isKeyChar = true) :
    IsKey key :=
  ⟨hne, fun c hc => isKeyChar_iff.mp (List.all_eq_true.mp h c hc)⟩

/-- A value without white space and quotes `IsPlain`, which decides it for
values that are given. -/
theorem isPlain_of_all {value : List Char}
    (h : value.all (fun c => !Text.isBlank c && !isQuote c) = true) : IsPlain value := by
  have hchars : ∀ c ∈ value, Text.isBlank c = false ∧ isQuote c = false := by
    intro c hc
    simpa using List.all_eq_true.mp h c hc
  refine ⟨fun c hc => (hchars c hc).1, fun c hc hquote => ?_⟩
  exact Bool.eq_false_iff.mp (hchars c (List.mem_of_mem_head? hc)).2 (isQuote_iff.mpr hquote)

/-- White space, as `Text.isBlank` tells it, is not a quote. -/
theorem isQuote_of_isBlank {c : Char} (h : Text.isBlank c = true) : isQuote c = false := by
  refine Bool.eq_false_iff.mpr fun hquote => ?_
  rcases isQuote_iff.mp hquote with rfl | rfl <;> exact absurd h (by decide)

/-! ### One value -/

/-- A spelling is read as its value, with the rest behind it. One case for each
constructor of `Spells`: between quotes, and without. -/
theorem Spells.value_eq {inner spelling rest : List Char} (h : Spells inner spelling rest)
    (key : List Char) : value key (spelling ++ rest) = .ok (inner, rest) := by
  cases h with
  | quoted hquote habsent =>
      rename_i quote
      have hsplit : (inner ++ quote :: rest).takeWhile (· != quote) = inner
          ∧ (inner ++ quote :: rest).dropWhile (· != quote) = quote :: rest := by
        refine takeWhile_dropWhile_iff.mpr ⟨rfl, fun c hc => bne_iff_ne.mpr ?_, ?_⟩
        · exact fun heq => habsent (heq ▸ hc)
        · intro c hc
          simpa using hc.symm
      rw [List.cons_append, List.append_assoc, List.singleton_append, value,
        if_pos (isQuote_iff.mpr hquote)]
      simp only [hsplit.1, hsplit.2]
  | bare hplain hends =>
      obtain ⟨hword, hstart⟩ := hplain
      have hsplit : (inner ++ rest).takeWhile (!Text.isBlank ·) = inner
          ∧ (inner ++ rest).dropWhile (!Text.isBlank ·) = rest := by
        refine takeWhile_dropWhile_iff.mpr ⟨rfl, fun c hc => ?_, fun c hc => ?_⟩
        · simp [hword c hc]
        · simp [hends c hc]
      cases htext : inner ++ rest with
      | nil =>
          obtain ⟨rfl, rfl⟩ := List.append_eq_nil_iff.mp htext
          rfl
      | cons c text =>
          -- Neither a bare value nor the white space behind it begins with a quote.
          have hquote : isQuote c = false := by
            cases inner with
            | nil => exact isQuote_of_isBlank (hends c (congrArg List.head? htext))
            | cons d inner =>
                obtain ⟨rfl, -⟩ := List.cons.inj htext
                exact Bool.eq_false_iff.mpr fun h => hstart d rfl (isQuote_iff.mp h)
          rw [htext] at hsplit
          rw [value, if_neg (Bool.eq_false_iff.mp hquote), hsplit.1, hsplit.2]

/-- An `IsQuote` in front of a value in which it does not occur again never
ends, and `value` answers that the pair is malformed, with the whole text behind
the key. -/
theorem value_of_openQuote {quote : Char} {inner : List Char}
    (hquote : IsQuote quote) (habsent : quote ∉ inner) (key : List Char) :
    value key (quote :: inner)
      = .error (.malformed (String.ofList (key ++ '=' :: quote :: inner))) := by
  have hsplit : inner.takeWhile (· != quote) = inner ∧ inner.dropWhile (· != quote) = [] :=
    takeWhile_dropWhile_iff.mpr ⟨(List.append_nil _).symm,
      fun c hc => bne_iff_ne.mpr fun heq => habsent (heq ▸ hc), nofun⟩
  rw [value, if_pos (isQuote_iff.mpr hquote)]
  simp only [hsplit.1, hsplit.2]

/-- A text begins with a value, or with a quote that never ends. It may be the
empty value, which `Spells` allows without quotes. -/
theorem exists_spells (text : List Char) :
    (∃ inner spelling rest, text = spelling ++ rest ∧ Spells inner spelling rest)
      ∨ ∃ quote inner, text = quote :: inner ∧ IsQuote quote ∧ quote ∉ inner := by
  by_cases hquoted : ∃ quote inner, text = quote :: inner ∧ IsQuote quote
  · obtain ⟨quote, tail, rfl, hquote⟩ := hquoted
    by_cases hclosed : quote ∈ tail
    · obtain ⟨inner, rest, rfl, habsent⟩ := List.eq_append_cons_of_mem hclosed
      exact .inl ⟨inner, quote :: (inner ++ [quote]), rest, by simp, .quoted hquote habsent⟩
    · exact .inr ⟨quote, tail, rfl, hquote, hclosed⟩
  · obtain ⟨hsplit, hword, hends⟩ := takeWhile_dropWhile_run (!Text.isBlank ·) text
    refine .inl ⟨_, _, _, hsplit, .bare ⟨fun c hc => by simpa using hword c hc, ?_⟩
      fun c hc => by simpa using hends c hc⟩
    intro c hc hquote
    -- The first character of the run is the first one of the text.
    obtain ⟨run, hrun⟩ := List.head?_eq_some_iff.mp hc
    rw [hrun] at hsplit
    exact hquoted ⟨c, _, hsplit, hquote⟩

/-! ### One pair -/

/-- A key ends at the `=`, and nowhere before. -/
theorem IsKey.takeWhile_dropWhile {key : List Char} (h : IsKey key) (rest : List Char) :
    (key ++ '=' :: rest).takeWhile isKeyChar = key
      ∧ (key ++ '=' :: rest).dropWhile isKeyChar = '=' :: rest :=
  takeWhile_dropWhile_iff.mpr ⟨rfl, fun c hc => isKeyChar_iff.mpr (h.2 c hc), fun c hc => by
    obtain rfl : '=' = c := Option.some.inj hc
    rfl⟩

/-- A pair whose key is an `IsKey` and whose value is spelled as `Spells` has it
is read by `pair` as the key and the value, with the rest behind it. -/
theorem pair_of_spells {key inner spelling rest : List Char} (hkey : IsKey key)
    (hvalue : Spells inner spelling rest) :
    pair (key ++ '=' :: (spelling ++ rest)) = .ok ((key, inner), rest) := by
  obtain ⟨htake, hdrop⟩ := hkey.takeWhile_dropWhile (spelling ++ rest)
  obtain ⟨c, tail, rfl⟩ := List.exists_cons_of_ne_nil hkey.1
  simp only [pair, htake, hdrop, hvalue.value_eq]

/-- What is no pair gives its error. One case for each constructor of
`IsMalformed`. -/
theorem IsMalformed.pair_eq {text : List Char} {e : ArgumentError} (h : IsMalformed text e) :
    pair text = .error e := by
  cases h with
  | noKey rest => rfl
  | noSign hkey hends =>
      rename_i key rest
      have hsplit : (key ++ rest).takeWhile isKeyChar = key
          ∧ (key ++ rest).dropWhile isKeyChar = rest :=
        takeWhile_dropWhile_iff.mpr ⟨rfl, fun c hc => isKeyChar_iff.mpr (hkey.2 c hc), fun c hc =>
          Bool.eq_false_iff.mpr fun hchar =>
            Bool.eq_false_iff.mp (isKeyChar_iff.mp hchar).2 (hends c hc)⟩
      simp only [pair, hsplit.1, hsplit.2]
      split
      · -- White space is no `=`.
        exact absurd (hends '=' rfl) (by decide)
      · rfl
  | openQuote hkey hquote habsent =>
      rename_i quote key inner
      obtain ⟨htake, hdrop⟩ := hkey.takeWhile_dropWhile (quote :: inner)
      obtain ⟨c, tail, rfl⟩ := List.exists_cons_of_ne_nil hkey.1
      simp only [pair, htake, hdrop, value_of_openQuote hquote habsent]

/-- A text that begins with anything but white space begins with a pair, or with
what is none. Behind the key there is a sign or there is none, and behind the
sign `exists_spells` goes on. -/
theorem exists_pair {c : Char} (hc : Text.isBlank c = false) (text : List Char) :
    (∃ key inner spelling rest, c :: text = key ++ '=' :: (spelling ++ rest) ∧ IsKey key
        ∧ Spells inner spelling rest)
      ∨ ∃ e, IsMalformed (c :: text) e := by
  obtain ⟨hsplit, hchars, hends⟩ := takeWhile_dropWhile_run isKeyChar (c :: text)
  by_cases hsign : c = '='
  · subst hsign
    exact .inr ⟨_, .noKey text⟩
  have hkey : IsKey ((c :: text).takeWhile isKeyChar) := by
    refine ⟨?_, fun d hd => isKeyChar_iff.mp (hchars d hd)⟩
    rw [List.takeWhile_cons_of_pos (isKeyChar_iff.mpr ⟨hsign, hc⟩)]
    exact List.cons_ne_nil _ _
  generalize (c :: text).takeWhile isKeyChar = key at hsplit hkey
  generalize (c :: text).dropWhile isKeyChar = rest at hsplit hends
  rw [hsplit]
  by_cases hblank : BeginsBlank rest
  · exact .inr ⟨_, .noSign hkey hblank⟩
  · -- The key ends, and not at white space, so it ends at an `=`.
    obtain ⟨d, hd, hnot⟩ : ∃ d, rest.head? = some d ∧ ¬ Text.isBlank d = true := by
      simpa [BeginsBlank] using hblank
    obtain ⟨after, rfl⟩ := List.head?_eq_some_iff.mp hd
    have hnokey := hends d rfl
    obtain rfl : d = '=' := by
      by_contra hne
      exact Bool.eq_false_iff.mp hnokey (isKeyChar_iff.mpr ⟨hne, Bool.eq_false_iff.mpr hnot⟩)
    rcases exists_spells after with
      ⟨inner, spelling, rest, rfl, hvalue⟩ | ⟨quote, inner, rfl, hquote, habsent⟩
    · exact .inl ⟨key, inner, spelling, rest, rfl, hkey, hvalue⟩
    · exact .inr ⟨_, .openQuote hkey hquote habsent⟩

/-! ### Pairs in a row -/

/-- Where only white space is left, `parseFrom` answers with the arguments that
it has. -/
theorem parseFrom_blank {blanks : List Char} (h : IsBlankText blanks) (args : FlatArgs) :
    parseFrom args blanks = .ok args := by
  have hskip : blanks.dropWhile Text.isBlank = [] := List.dropWhile_eq_nil_iff.mpr h
  rw [parseFrom]
  split
  · rfl
  · next heq => exact absurd (hskip.symm.trans heq) (List.cons_ne_nil _ _).symm

/-- Behind white space, the text begins with a pair or its error does. So
`parseFrom` is opened here only, and the grammar needs no more than `pair`. -/
theorem parseFrom_cons {blanks rest : List Char} {c : Char} (hblanks : IsBlankText blanks)
    (hc : Text.isBlank c = false) (args : FlatArgs) :
    parseFrom args (blanks ++ c :: rest)
      = match pair (c :: rest) with
        | .error e => .error e
        | .ok ((key, inner), after) =>
            if String.ofList key ∈ args.keys then .error (.duplicate (String.ofList key))
            else parseFrom (args.insert (String.ofList key) (String.ofList inner)) after := by
  have hskip : (blanks ++ c :: rest).dropWhile Text.isBlank = c :: rest := by
    rw [List.dropWhile_append_of_pos hblanks, List.dropWhile_cons_of_neg (by simp [hc])]
  rw [parseFrom]
  split
  · next heq => exact absurd (hskip.symm.trans heq) (List.cons_ne_nil _ _)
  · next heq =>
      obtain ⟨rfl, rfl⟩ := List.cons.inj (hskip.symm.trans heq)
      split
      · next hpair => rw [hpair]
      · next hpair => simp only [hpair, isSome_get?_iff]

/-- An `IsKey` begins with a character that is not white space. -/
theorem IsKey.exists_cons {key : List Char} (h : IsKey key) :
    ∃ c tail, key = c :: tail ∧ Text.isBlank c = false := by
  obtain ⟨c, tail, rfl⟩ := List.exists_cons_of_ne_nil h.1
  exact ⟨c, tail, rfl, (h.2 c List.mem_cons_self).2⟩

/-- Behind white space, `parseFrom` adds one pair to the arguments and goes on
with the rest if its key is new, and otherwise answers that the key is a
duplicate. -/
theorem parseFrom_pair {blanks key inner spelling rest : List Char} {args : FlatArgs}
    (hblanks : IsBlankText blanks) (hkey : IsKey key) (hvalue : Spells inner spelling rest) :
    parseFrom args (blanks ++ (key ++ '=' :: (spelling ++ rest)))
      = if String.ofList key ∈ args.keys then .error (.duplicate (String.ofList key))
        else parseFrom (args.insert (String.ofList key) (String.ofList inner)) rest := by
  have hpair := pair_of_spells hkey hvalue
  obtain ⟨c, tail, rfl, hc⟩ := hkey.exists_cons
  rw [List.cons_append] at hpair ⊢
  rw [parseFrom_cons hblanks hc, hpair]

/-- Pairs in front of a text are added to the arguments one by one, by induction
on `Leads`. -/
theorem Leads.parseFrom_eq {text rest : List Char} {pairs : List (String × String)}
    (h : Leads text pairs rest) {args : FlatArgs} (hfresh : args.Fresh pairs) :
    parseFrom args text = parseFrom (args.insertAll pairs) rest := by
  induction h generalizing args with
  | nil => rfl
  | cons hblanks hkey hvalue _ ih =>
      obtain ⟨hnew, hrest⟩ := fresh_cons.mp hfresh
      rw [parseFrom_pair hblanks hkey hvalue, if_neg hnew, ih hrest, insertAll_cons]

/-- What `IsMalformed` begins with something other than white space. -/
theorem IsMalformed.exists_cons {text : List Char} {e : ArgumentError} (h : IsMalformed text e) :
    ∃ c tail, text = c :: tail ∧ Text.isBlank c = false := by
  cases h with
  | noKey rest => exact ⟨_, _, rfl, by decide⟩
  | noSign hkey =>
      obtain ⟨c, tail, rfl, hc⟩ := hkey.exists_cons
      exact ⟨c, _, rfl, hc⟩
  | openQuote hkey =>
      obtain ⟨c, tail, rfl, hc⟩ := hkey.exists_cons
      exact ⟨c, _, rfl, hc⟩

/-- Behind white space, a pair that `Offends` the keys of the arguments gives
its error in `parseFrom`. -/
theorem Offends.parseFrom_eq {blanks bad : List Char} {e : ArgumentError} {args : FlatArgs}
    (h : Offends args.keys bad e) (hblanks : IsBlankText blanks) :
    parseFrom args (blanks ++ bad) = .error e := by
  cases h with
  | malformed h =>
      have hpair := h.pair_eq
      obtain ⟨c, tail, rfl, hc⟩ := h.exists_cons
      rw [parseFrom_cons hblanks hc, hpair]
  | repeated hkey hvalue hknown => rw [parseFrom_pair hblanks hkey hvalue, if_pos hknown]

/-- What `Offends` some keys `Offends` any keys among which those are. -/
theorem Offends.of_subset {known known' : List String} {bad : List Char} {e : ArgumentError}
    (h : Offends known bad e) (hsub : ∀ key ∈ known, key ∈ known') : Offends known' bad e := by
  cases h with
  | malformed h => exact .malformed h
  | repeated hkey hvalue hknown => exact .repeated hkey hvalue (hsub _ hknown)

/-- Behind white space a text ends, begins with a pair, or begins with what is
none. The pair is that of `exists_pair`. -/
theorem exists_step (text : List Char) :
    IsBlankText text
      ∨ (∃ blanks key inner spelling rest, text = blanks ++ (key ++ '=' :: (spelling ++ rest))
          ∧ IsBlankText blanks ∧ IsKey key ∧ Spells inner spelling rest)
      ∨ ∃ blanks bad e, text = blanks ++ bad ∧ IsBlankText blanks ∧ IsMalformed bad e := by
  obtain ⟨hsplit, hblanks, hends⟩ := takeWhile_dropWhile_run Text.isBlank text
  generalize text.takeWhile Text.isBlank = blanks at hsplit hblanks
  generalize text.dropWhile Text.isBlank = tail at hsplit hends
  subst hsplit
  cases tail with
  | nil => exact .inl (by rwa [List.append_nil])
  | cons c tail =>
      rcases exists_pair (hends c rfl) tail with
        ⟨key, inner, spelling, rest, heq, hkey, hvalue⟩ | ⟨e, hbad⟩
      · exact .inr (.inl ⟨blanks, key, inner, spelling, rest, by rw [heq], hblanks, hkey, hvalue⟩)
      · exact .inr (.inr ⟨blanks, _, e, rfl, hblanks, hbad⟩)

/-- Every text begins with pairs that have new keys, and then ends or goes on
with a pair that offends. By induction on the length of the text. A pair with a
key that is there already offends (`Offends`), as does one that `IsMalformed`. -/
theorem exists_leads (args : FlatArgs) (text : List Char) :
    ∃ pairs rest, Leads text pairs rest ∧ args.Fresh pairs
      ∧ (IsBlankText rest ∨ ∃ blanks bad e, rest = blanks ++ bad ∧ IsBlankText blanks
          ∧ Offends (args.insertAll pairs).keys bad e) := by
  -- Behind a pair the text is shorter.
  induction hn : text.length using Nat.strongRecOn generalizing args text with
  | ind n ih =>
      rcases exists_step text with hblank
        | ⟨blanks, key, inner, spelling, rest, rfl, hblanks, hkey, hvalue⟩
        | ⟨blanks, bad, e, rfl, hblanks, hbad⟩
      · exact ⟨[], text, .nil _, fresh_nil args, .inl hblank⟩
      · by_cases hknown : String.ofList key ∈ args.keys
        · exact ⟨[], _, .nil _, fresh_nil args, .inr
            ⟨blanks, _, _, rfl, hblanks, .repeated hkey hvalue hknown⟩⟩
        · have hshort : rest.length < n := by
            simp only [List.length_append, List.length_cons] at hn
            omega
          obtain ⟨pairs, last, hlead, hfresh, hlast⟩ := ih rest.length hshort
            (args.insert (String.ofList key) (String.ofList inner)) rest rfl
          exact ⟨_, last, .cons hblanks hkey hvalue hlead, fresh_cons.mpr ⟨hknown, hfresh⟩, hlast⟩
      · exact ⟨[], _, .nil _, fresh_nil args, .inr
          ⟨blanks, bad, e, rfl, hblanks, .malformed hbad⟩⟩

/-! ### Whole argument lists -/

variable {text : List Char} {pairs : List (String × String)} {e : ArgumentError}

/-- In a text that `IsListOf` pairs, each key stands once. -/
theorem IsListOf.nodup (h : IsListOf text pairs) : (pairs.map Prod.fst).Nodup := by
  obtain ⟨_, -, -, hkeys⟩ := h
  exact hkeys

/-- A text that `IsListOf` pairs is read by `parseFrom` as the map that
`insertAll` makes of them. -/
theorem IsListOf.parseFrom_eq (h : IsListOf text pairs) :
    parseFrom empty text = .ok (empty.insertAll pairs) := by
  obtain ⟨blanks, hlead, hblanks, hkeys⟩ := h
  rw [hlead.parseFrom_eq (fresh_empty hkeys), parseFrom_blank hblanks]

/-- The keys of a map that `insertAll` makes are those of the pairs it was made
of. -/
theorem mem_keys_insertAll_empty {key : String} :
    key ∈ (empty.insertAll pairs).keys ↔ key ∈ pairs.map Prod.fst :=
  ((perm_insertAll_empty pairs).map _).mem_iff

/-- A text whose first offending pair has an error, `OffendsFirst`, gives that
error in `parseFrom`. -/
theorem OffendsFirst.parseFrom_eq (h : OffendsFirst text e) : parseFrom empty text = .error e := by
  obtain ⟨pairs, blanks, bad, hlead, hblanks, hkeys, hbad⟩ := h
  rw [hlead.parseFrom_eq (fresh_empty hkeys)]
  exact (hbad.of_subset fun _ => mem_keys_insertAll_empty.mpr).parseFrom_eq hblanks

/-- Every text `IsListOf` some pairs, or has a first pair that offends,
`OffendsFirst`: this is `exists_leads` where there are no arguments yet. -/
theorem isListOf_or_offendsFirst (text : List Char) :
    (∃ pairs, IsListOf text pairs) ∨ ∃ e, OffendsFirst text e := by
  obtain ⟨pairs, rest, hlead, hfresh, hblank | ⟨blanks, bad, e, rfl, hblanks, hbad⟩⟩ :=
    exists_leads empty text
  · exact .inl ⟨pairs, rest, hlead, hblank, hfresh.1⟩
  · exact .inr ⟨e, pairs, blanks, bad, hlead, hblanks, hfresh.1,
      hbad.of_subset fun _ => mem_keys_insertAll_empty.mp⟩

/-- An argument list is read by `FlatArgs.parse` exactly when it has the form of
one (`IsListOf`), and then as the map of its pairs (`FlatArgs.Holds`). Any other
text gives the error of its first pair that offends (`OffendsFirst`), and no
other error. -/
theorem parse_iff_grammar (text : String) :
    (∀ args, parse text = .ok args ↔ ∃ pairs, IsListOf text.toList pairs ∧ args.Holds pairs)
      ∧ ∀ e, parse text = .error e ↔ OffendsFirst text.toList e := by
  constructor
  · intro args
    constructor
    · intro hread
      rcases isListOf_or_offendsFirst text.toList with ⟨pairs, hlist⟩ | ⟨e, hbad⟩
      · obtain rfl : empty.insertAll pairs = args :=
          Except.ok.inj (hlist.parseFrom_eq.symm.trans hread)
        exact ⟨pairs, hlist, holds_insertAll hlist.nodup⟩
      · exact absurd (hbad.parseFrom_eq.symm.trans hread) nofun
    · rintro ⟨pairs, hlist, hholds⟩
      exact hlist.parseFrom_eq.trans
        (congrArg _ ((holds_insertAll hlist.nodup).unique hholds))
  · intro e
    constructor
    · intro hread
      rcases isListOf_or_offendsFirst text.toList with ⟨pairs, hlist⟩ | ⟨e', hbad⟩
      · exact absurd (hlist.parseFrom_eq.symm.trans hread) nofun
      · obtain rfl : e' = e := Except.error.inj (hbad.parseFrom_eq.symm.trans hread)
        exact hbad
    · exact OffendsFirst.parseFrom_eq

/-- Behind a quote the next pair may follow at once, while a bare value goes
on up to the next white space. -/
example : parse "a=\x27b c\x27d=e\x27=" = .ok ⟨[("a", "b c"), ("d", "e\x27=")]⟩ := by cbv

end EchoAlign.FlatArgs
