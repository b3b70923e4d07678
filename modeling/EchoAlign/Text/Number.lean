import EchoAlign.Word

/-!
# `EchoAlign.Text.Number`: numbers and switches given as text

The readers of flat arguments and of the command line. A number is
decimal digits only, after at most one sign, and has to fit its range;
nothing is trimmed and no digit separator is allowed.

* `natOfDigits?`: a non-empty run of ASCII digits.
* `readNat?`: an unsigned number up to a bound, with an optional `+`.
* `readInt?`: a signed 64-bit number.
* `readBool?`: exactly `true` or `false`.
* `readSwitch?`: the words for on and off, in either case.
* `readFloat?`: a decimal float, with a fraction or an exponent or both,
  or a word for infinity or for no number.
-/

set_option autoImplicit false

namespace EchoAlign.Text

/-- The value of a decimal digit. -/
def digit? (c : Char) : Option Nat :=
  if '0' ≤ c ∧ c ≤ '9' then some (c.toNat - '0'.toNat) else none

/-- Reads the digits that follow a number read so far. -/
def natFrom? (acc : Nat) : List Char → Option Nat
  | [] => some acc
  | c :: cs => (digit? c).bind fun d => natFrom? (10 * acc + d) cs

/-- Reads a non-empty run of decimal digits. -/
def natOfDigits? : List Char → Option Nat
  | [] => none
  | c :: cs => natFrom? 0 (c :: cs)

/-- Reads an unsigned number of at most `max`, with an optional `+`. -/
def readNat? (max : Nat) (text : String) : Option Nat :=
  let digits := match text.toList with
    | '+' :: cs => cs
    | cs => cs
  (natOfDigits? digits).filter (· ≤ max)

/-- Reads a signed 64-bit number with an optional sign. -/
def readInt? (text : String) : Option Int :=
  let value? : Option Int := match text.toList with
    | '-' :: cs => (natOfDigits? cs).map fun n => -(n : Int)
    | '+' :: cs => (natOfDigits? cs).map Int.ofNat
    | cs => (natOfDigits? cs).map Int.ofNat
  value?.filter fun n => Word.IsSigned n

/-- Reads `true` or `false`, in lower case. -/
def readBool? (text : String) : Option Bool :=
  if text = "true" then some true
  else if text = "false" then some false
  else none

/-- An ASCII letter in lower case; other characters stay. -/
def lowerAscii (text : String) : String := String.ofList (text.toList.map Char.toLower)

/-- Reads the words for on and off, in any mixture of cases. -/
def readSwitch? (text : String) : Option Bool :=
  let word := lowerAscii text
  if word ∈ ["1", "yes", "true", "on", "y", "t"] then some true
  else if word ∈ ["0", "no", "false", "off", "n", "f"] then some false
  else none

/-! ### Floats -/

/-- A decimal number `digits * 10 ^ exponent`, rounded to a float. -/
def floatOfDecimal (digits : Nat) (exponent : Int) : Float32 :=
  let places : Int := (Nat.toDigits 10 digits).length + exponent
  if digits = 0 ∨ places < -60 then 0.0
  else if 60 < places then 1.0 / 0.0
  else Float32.ofScientific digits (exponent < 0) exponent.natAbs

/-- Reads an exponent: at most one sign, and digits. -/
def exponent? : List Char → Option Int
  | '-' :: cs => (natOfDigits? cs).map fun n => -(n : Int)
  | '+' :: cs => (natOfDigits? cs).map Int.ofNat
  | cs => (natOfDigits? cs).map Int.ofNat

/-- Reads a float without a sign: digits with an optional point among
them or at either end, and an optional exponent. -/
def unsignedFloat? (cs : List Char) : Option Float32 := do
  let isMark (c : Char) : Bool := c == 'e' || c == 'E'
  let mantissa := cs.takeWhile (!isMark ·)
  let exponent ← match cs.dropWhile (!isMark ·) with
    | [] => some 0
    | _ :: rest => exponent? rest
  let whole := mantissa.takeWhile (· != '.')
  let fraction := (mantissa.dropWhile (· != '.')).drop 1
  let digits ← natOfDigits? (whole ++ fraction)
  return floatOfDecimal digits (exponent - fraction.length)

/-- Reads a float. -/
def readFloat? (text : String) : Option Float32 :=
  let (negative, cs) := match text.toList with
    | '-' :: cs => (true, cs)
    | '+' :: cs => (false, cs)
    | cs => (false, cs)
  let word := lowerAscii (String.ofList cs)
  let value? : Option Float32 :=
    if word ∈ ["inf", "infinity"] then some (1.0 / 0.0)
    else if word = "nan" then some (0.0 / 0.0)
    else unsignedFloat? cs
  value?.map fun value => if negative then -value else value

end EchoAlign.Text
