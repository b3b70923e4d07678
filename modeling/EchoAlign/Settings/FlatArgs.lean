import EchoAlign.Text.Blank
import EchoAlign.Text.Number

/-!
# `EchoAlign.Settings.FlatArgs`: settings as `key=value` text

A flat argument list is a sequence of pairs with any amount of white
space before, between and after them. A key is a non-empty run of
characters other than `=` and white space. A value is either quoted,
and then ends at the same quote, or runs to the next white space and
may be empty. No key may occur twice.

`FlatArgs.parse` reads such a list, and keeps the pairs in the order of
their keys. The first pair that breaks the rules gives the error.
-/

set_option autoImplicit false

namespace EchoAlign

/-- What is wrong with an argument list, or with one of its values. -/
inductive ArgumentError where
  /-- A pair without a key, without `=`, or with an open quote. -/
  | malformed (text : String)
  | duplicate (key : String)
  | unknownKey (key : String)
  | invalidValue (key value : String)
  deriving DecidableEq, Repr

namespace ArgumentError

/-- The wording of the error. -/
def message : ArgumentError → String
  | malformed text => s!"Malformed argument: {text}"
  | duplicate key => s!"Duplicate argument: {key}"
  | unknownKey key => s!"Unknown argument: {key}"
  | invalidValue key value => s!"Invalid value for {key}: {value}"

end ArgumentError

/-- An argument list: pairs of a key and a value, in key order. -/
structure FlatArgs where
  pairs : List (String × String)
  deriving DecidableEq, Repr

namespace FlatArgs

/-- No arguments. -/
def empty : FlatArgs := ⟨[]⟩

/-- Whether there are no arguments. -/
def isEmpty (args : FlatArgs) : Bool := args.pairs.isEmpty

/-- The value of a key, if it was given. -/
def get? (args : FlatArgs) (key : String) : Option String := args.pairs.lookup key

/-- Puts a pair at its place in key order, behind those with the same key. -/
def insertPair (key value : String) : List (String × String) → List (String × String)
  | [] => [(key, value)]
  | pair :: rest =>
      if key < pair.1 then (key, value) :: pair :: rest
      else pair :: insertPair key value rest

/-- Adds a pair. -/
def insert (args : FlatArgs) (key value : String) : FlatArgs :=
  ⟨insertPair key value args.pairs⟩

/-- The value of a key, read by `read?`. A value that it cannot read is an error
which names both. -/
def read {α : Type} (args : FlatArgs) (key : String) (read? : String → Option α) :
    Except ArgumentError (Option α) :=
  match args.get? key with
  | none => .ok none
  | some value =>
      match read? value with
      | none => .error (.invalidValue key value)
      | some a => .ok (some a)

/-! ### Reading a list -/

/-- Whether a character may stand in a key. -/
def isKeyChar (c : Char) : Bool := c != '=' && !Text.isBlank c

/-- Whether a character opens and closes a quoted value. -/
def isQuote (c : Char) : Bool := c == '\x27' || c == '\x22'

/-- Reads the value behind `key=`, and leaves what follows it. A quoted value
ends with the same quote, any other with a blank. -/
def value (key : List Char) : List Char → Except ArgumentError (List Char × List Char)
  | [] => .ok ([], [])
  | c :: rest =>
      if isQuote c then
        let inner := rest.takeWhile (· != c)
        match rest.dropWhile (· != c) with
        | [] => .error (.malformed (String.ofList (key ++ '=' :: c :: inner)))
        | _ :: after => .ok (inner, after)
      else
        .ok ((c :: rest).takeWhile (!Text.isBlank ·), (c :: rest).dropWhile (!Text.isBlank ·))

/-- Reads one pair, and leaves what follows it. -/
def pair (text : List Char) : Except ArgumentError ((List Char × List Char) × List Char) :=
  let key := text.takeWhile isKeyChar
  match key, text.dropWhile isKeyChar with
  | _ :: _, '=' :: rest =>
      match value key rest with
      | .error e => .error e
      | .ok (value, rest) => .ok ((key, value), rest)
  | _, _ => .error (.malformed (String.ofList key))

/-- Leaving out the first items leaves no more than there were. -/
theorem length_dropWhile_le {α : Type} (p : α → Bool) (l : List α) :
    (l.dropWhile p).length ≤ l.length := by
  induction l with
  | nil => exact Nat.le_refl _
  | cons a l ih =>
      rw [List.dropWhile_cons]
      split
      · rw [List.length_cons]
        omega
      · exact Nat.le_refl _

/-- A `value` leaves no more than it was given. -/
theorem length_value_le {key text inner rest : List Char}
    (h : value key text = .ok (inner, rest)) : rest.length ≤ text.length := by
  cases text with
  | nil =>
      simp only [value, Except.ok.injEq, Prod.mk.injEq] at h
      exact h.2 ▸ Nat.le_refl _
  | cons c text =>
      rw [value] at h
      split at h
      · have hd := length_dropWhile_le (· != c) text
        split at h
        · contradiction
        · rename_i _ after heq
          simp only [Except.ok.injEq, Prod.mk.injEq] at h
          rw [← h.2]
          rw [heq, List.length_cons] at hd
          rw [List.length_cons]
          omega
      · simp only [Except.ok.injEq, Prod.mk.injEq] at h
        rw [← h.2]
        exact length_dropWhile_le _ _

/-- A `pair` takes at least its `=`, so that reading pairs comes to an end. -/
theorem length_pair_lt {text key value rest : List Char}
    (h : pair text = .ok ((key, value), rest)) : rest.length < text.length := by
  simp only [pair] at h
  split at h
  · rename_i _ _ after _ hdrop
    split at h
    · contradiction
    · rename_i _ _ _ hvalue
      simp only [Except.ok.injEq, Prod.mk.injEq] at h
      rw [← h.2]
      have h1 := length_value_le hvalue
      have h2 := length_dropWhile_le isKeyChar text
      rw [hdrop, List.length_cons] at h2
      omega
  · contradiction

/-- Reads the pairs that follow those read so far (`args`). A key that is there
already is an error. -/
def parseFrom (args : FlatArgs) (text : List Char) : Except ArgumentError FlatArgs :=
  match _hskip : text.dropWhile Text.isBlank with
  | [] => .ok args
  | c :: rest =>
      match _hpair : pair (c :: rest) with
      | .error e => .error e
      | .ok ((key, value), after) =>
          let name := String.ofList key
          if (args.get? name).isSome then .error (.duplicate name)
          else parseFrom (args.insert name (String.ofList value)) after
termination_by text.length
decreasing_by
  have h1 := length_pair_lt _hpair
  have h2 := length_dropWhile_le Text.isBlank text
  rw [_hskip] at h2
  omega

/-- Reads an argument list. -/
def parse (text : String) : Except ArgumentError FlatArgs := parseFrom empty text.toList

end FlatArgs

end EchoAlign
