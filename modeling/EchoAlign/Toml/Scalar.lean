import EchoAlign.Word
import EchoAlign.Toml.Value

/-!
# `EchoAlign.Toml.Scalar`: numbers, dates and switches

A scalar without quotes is one unbroken run of characters, and
`Scalar.read` says what it means, if anything. Only a date and a time
may be kept apart by a space; the two runs are then read as one.

* Integers are decimal with an optional sign, or hexadecimal, octal or
  binary without one. A single underscore may stand between two digits.
  They have to fit into 64 bits with a sign.
* Floats have a fraction, an exponent, or both, or are one of the words
  `inf` and `nan`. A positive float must not be too large for 64 bits.
* Dates and times are checked against the calendar and the clock.
-/

set_option autoImplicit false

namespace EchoAlign.Toml.Scalar

/-! ### Digits -/

/-- The value of a digit in a base of up to 36. -/
def digit? (base : Nat) (c : Char) : Option Nat :=
  let value :=
    if '0' ≤ c ∧ c ≤ '9' then some (c.toNat - 48)
    else if 'a' ≤ c ∧ c ≤ 'z' then some (c.toNat - 87)
    else if 'A' ≤ c ∧ c ≤ 'Z' then some (c.toNat - 55)
    else none
  value.filter (· < base)

/-- Reads the digits that follow those read so far. `fresh` says that the
last character was a digit, so that an underscore may follow. -/
def natFrom? (base acc : Nat) (fresh : Bool) : List Char → Option Nat
  | [] => if fresh then some acc else none
  | c :: rest =>
      if c = '_' then if fresh then natFrom? base acc false rest else none
      else (digit? base c).bind fun d => natFrom? base (base * acc + d) true rest

/-- Reads a non-empty run of digits with single underscores between
them. -/
def nat? (base : Nat) (text : List Char) : Option Nat := natFrom? base 0 false text

/-- Reads a decimal number without a needless leading zero. -/
def plainNat? (text : List Char) : Option Nat :=
  match text with
  | '0' :: _ :: _ => none
  | _ => nat? 10 text

/-- Reads a run of exactly `count` digits, without underscores. -/
def fixedNat? (count : Nat) (text : List Char) : Option Nat :=
  if text.length = count ∧ !text.contains '_' then nat? 10 text else none

/-! ### Integers -/

/-- Cuts off a sign, and says whether it is a minus. -/
def unsign : List Char → Bool × List Char
  | '+' :: rest => (false, rest)
  | '-' :: rest => (true, rest)
  | text => (false, text)

/-- Reads an integer of any size. -/
def anyInteger? : List Char → Option Int
  | '0' :: 'x' :: rest => (nat? 16 rest).map Int.ofNat
  | '0' :: 'o' :: rest => (nat? 8 rest).map Int.ofNat
  | '0' :: 'b' :: rest => (nat? 2 rest).map Int.ofNat
  | text =>
      let (negative, digits) := unsign text
      (plainNat? digits).map fun n => if negative then -(n : Int) else n

/-- Reads an integer of 64 bits. -/
def integer? (text : List Char) : Option Int :=
  (anyInteger? text).filter fun n => Word.IsSigned n

/-! ### Floats -/

/-- The smallest number that rounds to infinity in 64 bits. -/
def floatBound : Nat := 1 <<< 1024 - 1 <<< 970

/-- Whether `digits * 10 ^ exponent` is too large for 64 bits. -/
def overflows (digits : Nat) (exponent : Int) : Bool :=
  if digits = 0 then false
  else
    -- The number lies between 10 ^ (places - 1) and 10 ^ places.
    let places : Int := (Nat.toDigits 10 digits).length + exponent
    if 400 < places then true
    else if places < 300 then false
    else if exponent < 0 then floatBound * Nat.pow 10 exponent.natAbs ≤ digits
    else floatBound ≤ digits * Nat.pow 10 exponent.toNat

/-- The parts of a decimal float: whole digits, fraction digits, and the
exponent with its sign. Missing parts are `none`. -/
structure FloatParts where
  whole : List Char
  fraction? : Option (List Char)
  exponent? : Option (List Char)

/-- Whether a character begins an exponent. -/
def isExponentMark (c : Char) : Bool := c == 'e' || c == 'E'

/-- Takes a float without its sign apart. -/
def splitFloat (text : List Char) : FloatParts :=
  let mantissa := text.takeWhile (!isExponentMark ·)
  let exponent? := match text.dropWhile (!isExponentMark ·) with
    | _ :: rest => some rest
    | [] => none
  match mantissa.dropWhile (· != '.') with
  | _ :: fraction => ⟨mantissa.takeWhile (· != '.'), some fraction, exponent?⟩
  | [] => ⟨mantissa, none, exponent?⟩

/-- Reads an exponent. -/
def exponent? (text : List Char) : Option Int :=
  let (negative, digits) := unsign text
  (nat? 10 digits).map fun n => if negative then -(n : Int) else n

/-- Whether a text without sign is a float that does not overflow, or
overflows below zero. -/
def isDecimalFloat (negative : Bool) (text : List Char) : Bool :=
  let parts := splitFloat text
  let fraction := parts.fraction?.getD ['0']
  let exponent := parts.exponent?.getD ['0']
  if parts.fraction?.isNone && parts.exponent?.isNone then false
  else
    match plainNat? parts.whole, nat? 10 fraction, exponent? exponent with
    | some whole, some tail, some power =>
        let places := (fraction.filter (· != '_')).length
        negative || !overflows (whole * Nat.pow 10 places + tail) (power - places)
    | _, _, _ => false

/-- Whether a text is a float. -/
def isFloat (text : List Char) : Bool :=
  let (negative, digits) := unsign text
  digits = ['i', 'n', 'f'] || digits = ['n', 'a', 'n'] || isDecimalFloat negative digits

/-! ### Dates and times -/

/-- The number of days in a month. -/
def daysIn (year month : Nat) : Nat :=
  if month = 2 then
    if year % 4 = 0 ∧ (year % 100 ≠ 0 ∨ year % 400 = 0) then 29 else 28
  else if month ∈ [4, 6, 9, 11] then 30
  else 31

/-- Whether a text is a date of the calendar. -/
def isDate (text : List Char) : Bool :=
  match fixedNat? 4 (text.take 4), text.drop 4 with
  | some year, '-' :: rest =>
      match fixedNat? 2 (rest.take 2), rest.drop 2 with
      | some month, '-' :: day =>
          match fixedNat? 2 day with
          | some day => 1 ≤ month && month ≤ 12 && 1 ≤ day && day ≤ daysIn year month
          | none => false
      | _, _ => false
  | _, _ => false

/-- Reads two digits of at most `top` and what follows them. -/
def clockPart? (top : Nat) (text : List Char) : Option (List Char) :=
  ((fixedNat? 2 (text.take 2)).filter (· ≤ top)).map fun _ => text.drop 2

/-- Reads a colon. -/
def colon? : List Char → Option (List Char)
  | ':' :: rest => some rest
  | _ => none

/-- Reads a time of the clock, and leaves what follows its seconds. A
fraction of a second has at least one digit. -/
def timeOfDay? (text : List Char) : Option (List Char) := do
  let text ← clockPart? 23 text
  let text ← colon? text
  let text ← clockPart? 59 text
  let text ← colon? text
  let text ← clockPart? 60 text
  match text with
  | '.' :: fraction =>
      if (fraction.takeWhile Char.isDigit).isEmpty then none
      else some (fraction.dropWhile Char.isDigit)
  | _ => some text

/-- Whether a text says how far a time is from universal time. -/
def isOffset : List Char → Bool
  | ['Z'] => true
  | ['z'] => true
  | sign :: rest =>
      (sign == '+' || sign == '-') &&
        ((clockPart? 23 rest).bind colon? |>.bind (clockPart? 59)) == some []
  | [] => false

/-- Whether a text is a time of the clock. -/
def isTime (text : List Char) : Bool := timeOfDay? text == some []

/-- Whether a text is a time with an optional offset. -/
def isZonedTime (text : List Char) : Bool :=
  match timeOfDay? text with
  | some rest => rest.isEmpty || isOffset rest
  | none => false

/-- Whether a text is a date, a time, or both, with a `T` or a space
between them. -/
def isDateTime (text : List Char) : Bool :=
  match text.drop 10 with
  | [] => isDate text || isTime text
  | mark :: time =>
      (isDate (text.take 10) && (mark == 'T' || mark == 't' || mark == ' ') && isZonedTime time)
        || isTime text

/-! ### Scalars -/

/-- Whether a character can stand in a scalar. -/
def isScalarChar (c : Char) : Bool :=
  c.isAlphanum || c == '+' || c == '-' || c == '.' || c == '_' || c == ':'

/-- What a run of characters means. -/
def ofRun? (run : List Char) : Option Value :=
  if run = ['t', 'r', 'u', 'e'] then some (.boolean true)
  else if run = ['f', 'a', 'l', 's', 'e'] then some (.boolean false)
  else
    match integer? run with
    | some n => some (.integer n)
    | none =>
        if isFloat run then some (.float (String.ofList run))
        else if isDateTime run then some (.dateTime (String.ofList run))
        else none

/-- Reads a scalar, and leaves what follows it. -/
def read (text : List Char) : Option (Value × List Char) :=
  let run := text.takeWhile isScalarChar
  let rest := text.dropWhile isScalarChar
  match rest with
  | ' ' :: after =>
      let time := after.takeWhile isScalarChar
      if isDate run && isZonedTime time then
        some (.dateTime (String.ofList (run ++ ' ' :: time)), after.dropWhile isScalarChar)
      else (ofRun? run).map fun value => (value, rest)
  | _ => (ofRun? run).map fun value => (value, rest)

end EchoAlign.Toml.Scalar
