/-!
# `EchoAlign.Toml.Quoted`: strings in a TOML document

A TOML string has four written forms: between double quotes, where a
backslash escapes, or between single quotes, where nothing does; and
either of them on one line or, with the quote tripled, on several.

* `render` writes a text in the form that needs the fewest escapes
  (`Style.choose`).
* `decode` reads any of the four forms, from the opening quote on, and
  leaves what follows the closing one.
-/

set_option autoImplicit false

namespace EchoAlign.Toml

/-- The double quote. -/
def doubleQuote : Char := '\x22'

/-- The single quote. -/
def singleQuote : Char := '\x27'

/-- The backslash. -/
def backslash : Char := '\\'

/-- Whether a character may stand in a document outside of line ends:
no control character but the tab. -/
def isPlain (c : Char) : Bool := c == '\t' || (' ' ≤ c && c != '\x7f')

/-- Blanks within a line. -/
def isSpace (c : Char) : Bool := c == ' ' || c == '\t'

namespace Quoted

/-- The four written forms of a string. -/
inductive Style where
  | basic
  | literal
  | multiBasic
  | multiLiteral
  deriving DecidableEq, Repr

/-! ### Writing -/

/-- The longest run of `quote`, given the run read last and the longest
so far. -/
def longestRunFrom (quote : Char) (run longest : Nat) : List Char → Nat
  | [] => longest
  | c :: rest =>
      if c = quote then longestRunFrom quote (run + 1) (max longest (run + 1)) rest
      else longestRunFrom quote 0 longest rest

/-- The longest run of `quote` in a text. -/
def longestRun (quote : Char) (text : List Char) : Nat := longestRunFrom quote 0 0 text

/-- Whether a character can only be written with an escape: a control
character other than the tab and the line feed. -/
def needsEscape (c : Char) : Bool := (c < ' ' && c != '\t' && c != '\n') || c == '\x7f'

/-- The form a text is written in: the first of the four, in the order
of their simplicity, that holds it without an escape, and otherwise the
escaping form on as many lines as the text has. -/
def Style.choose (text : List Char) : Style :=
  let codes := text.any needsEscape
  let escapes := codes || text.contains backslash
  let lines := text.contains '\n'
  let doubles := longestRun doubleQuote text
  let singles := longestRun singleQuote text
  if !escapes && !lines && doubles == 0 then .basic
  else if !codes && !lines && singles == 0 then .literal
  else if !escapes && doubles ≤ 2 then .multiBasic
  else if !codes && singles ≤ 2 then .multiLiteral
  else if lines then .multiBasic
  else .basic

/-- The four hexadecimal digits of a small code point. -/
def hex4 (n : Nat) : List Char :=
  let digit (k : Nat) : Char :=
    let d := n / Nat.pow 16 k % 16
    Char.ofNat (if d < 10 then 48 + d else 55 + d)
  [digit 3, digit 2, digit 1, digit 0]

/-- How a character other than the double quote is written between
double quotes, on one line or on several. -/
def encodeChar (onLines : Bool) (c : Char) : List Char :=
  if c = '\x08' then [backslash, 'b']
  else if c = '\t' then [backslash, 't']
  else if c = '\n' then if onLines then ['\n'] else [backslash, 'n']
  else if c = '\x0c' then [backslash, 'f']
  else if c = '\r' then [backslash, 'r']
  else if c = backslash then [backslash, backslash]
  else if needsEscape c then backslash :: 'u' :: hex4 c.toNat
  else [c]

/-- How many double quotes in a row may stand for themselves. -/
def quotesAllowed (onLines : Bool) : Nat := if onLines then 2 else 0

/-- A text as it is written between double quotes, after `run` double
quotes that stand for themselves. -/
def encode (onLines : Bool) (run : Nat) : List Char → List Char
  | [] => []
  | c :: rest =>
      if c = doubleQuote then
        if quotesAllowed onLines ≤ run then backslash :: doubleQuote :: encode onLines 0 rest
        else doubleQuote :: encode onLines (run + 1) rest
      else encodeChar onLines c ++ encode onLines 0 rest

/-- The opening and closing quotes of a form. -/
def Style.delimiter : Style → List Char
  | .basic => [doubleQuote]
  | .literal => [singleQuote]
  | .multiBasic => [doubleQuote, doubleQuote, doubleQuote]
  | .multiLiteral => [singleQuote, singleQuote, singleQuote]

/-- What stands between the quotes. On several lines, the text starts on
a line of its own. -/
def Style.body (style : Style) (text : List Char) : List Char :=
  let lead := if text.contains '\n' then ['\n'] else []
  match style with
  | .basic => encode false 0 text
  | .literal => text
  | .multiBasic => lead ++ encode true 0 text
  | .multiLiteral => lead ++ text

/-- A text in a given form. -/
def renderAs (style : Style) (text : List Char) : List Char :=
  style.delimiter ++ style.body text ++ style.delimiter

/-- A text in the form that suits it. -/
def render (text : List Char) : List Char := renderAs (Style.choose text) text

/-! ### Reading -/

/-- The value of a hexadecimal digit. -/
def hexDigit? (c : Char) : Option Nat :=
  if '0' ≤ c ∧ c ≤ '9' then some (c.toNat - '0'.toNat)
  else if 'a' ≤ c ∧ c ≤ 'f' then some (c.toNat - 'a'.toNat + 10)
  else if 'A' ≤ c ∧ c ≤ 'F' then some (c.toNat - 'A'.toNat + 10)
  else none

/-- The number that hexadecimal digits spell. -/
def hexValue? (acc : Nat) : List Char → Option Nat
  | [] => some acc
  | c :: rest => (hexDigit? c).bind fun d => hexValue? (16 * acc + d) rest

/-- The character with this code point, if there is one. -/
def scalar? (n : Nat) : Option Char :=
  if h : n.isValidChar then some (Char.ofNatAux n h) else none

/-- Reads what stands behind a backslash, and leaves what follows. -/
def escape? : List Char → Option (Char × List Char)
  | 'b' :: rest => some ('\x08', rest)
  | 't' :: rest => some ('\t', rest)
  | 'n' :: rest => some ('\n', rest)
  | 'f' :: rest => some ('\x0c', rest)
  | 'r' :: rest => some ('\r', rest)
  | '\x22' :: rest => some (doubleQuote, rest)
  | '\\' :: rest => some (backslash, rest)
  | 'u' :: rest =>
      if (rest.take 4).length < 4 then none
      else ((hexValue? 0 (rest.take 4)).bind scalar?).map fun c => (c, rest.drop 4)
  | 'U' :: rest =>
      if (rest.take 8).length < 8 then none
      else ((hexValue? 0 (rest.take 8)).bind scalar?).map fun c => (c, rest.drop 8)
  | _ => none

/-- An escape takes at least one character. -/
theorem length_escape?_lt {text rest : List Char} {c : Char}
    (h : escape? text = some (c, rest)) : rest.length < text.length := by
  unfold escape? at h
  split at h
  all_goals first
    | (simp only [Option.some.injEq, Prod.mk.injEq] at h
       rw [← h.2, List.length_cons]
       exact Nat.lt_succ_self _)
    | contradiction
    | (split at h
       · contradiction
       · obtain ⟨_, _, heq⟩ := Option.map_eq_some_iff.mp h
         simp only [Prod.mk.injEq] at heq
         rw [← heq.2, List.length_drop, List.length_cons]
         omega)

/-- Puts a character in front of what was read behind it. -/
def consFst (c : Char) (r : Option (List Char × List Char)) : Option (List Char × List Char) :=
  r.map fun p => (c :: p.1, p.2)

/-- Reads a one-line text up to its closing double quote. -/
def decodeBasic : List Char → Option (List Char × List Char)
  | [] => none
  | c :: rest =>
      if c = doubleQuote then some ([], rest)
      else if c = backslash then
        match _h : escape? rest with
        | none => none
        | some (d, after) => consFst d (decodeBasic after)
      else if isPlain c then consFst c (decodeBasic rest)
      else none
termination_by text => text.length
decreasing_by
  · have := length_escape?_lt _h
    rw [List.length_cons]
    omega
  · rw [List.length_cons]
    exact Nat.lt_succ_self _

/-- Reads a one-line text up to its closing single quote. -/
def decodeLiteral : List Char → Option (List Char × List Char)
  | [] => none
  | c :: rest =>
      if c = singleQuote then some ([], rest)
      else if isPlain c then consFst c (decodeLiteral rest)
      else none

/-- Leaves out one line end at the start. -/
def skipLineEnd : List Char → Option (List Char)
  | '\n' :: rest => some rest
  | '\r' :: '\n' :: rest => some rest
  | _ => none

/-- Leaves out blanks and line ends. -/
def skipGap : List Char → List Char
  | ' ' :: rest => skipGap rest
  | '\t' :: rest => skipGap rest
  | '\n' :: rest => skipGap rest
  | '\r' :: '\n' :: rest => skipGap rest
  | text => text

/-- Skipping a gap leaves no more text than there was, so that reading on ends. -/
theorem length_skipGap_le (text : List Char) : (skipGap text).length ≤ text.length := by
  fun_induction skipGap text with
  | case1 rest ih => rw [List.length_cons]; omega
  | case2 rest ih => rw [List.length_cons]; omega
  | case3 rest ih => rw [List.length_cons]; omega
  | case4 rest ih => rw [List.length_cons, List.length_cons]; omega
  | case5 => exact Nat.le_refl _

/-- Reads what stands behind a backslash at the end of a line: blanks, a
line end, and then any gap. -/
def lineJoin? (text : List Char) : Option (List Char) :=
  (skipLineEnd (text.dropWhile isSpace)).map skipGap

/-- Skipping a line end leaves less text than there was. -/
theorem length_skipLineEnd_lt {text rest : List Char} (h : skipLineEnd text = some rest) :
    rest.length < text.length := by
  unfold skipLineEnd at h
  split at h
  · simp only [Option.some.injEq] at h
    rw [← h, List.length_cons]
    exact Nat.lt_succ_self _
  · simp only [Option.some.injEq] at h
    rw [← h, List.length_cons, List.length_cons]
    omega
  · contradiction

/-- Dropping characters from the front leaves no more text than there was. -/
theorem length_dropWhile_le (p : Char → Bool) (text : List Char) :
    (text.dropWhile p).length ≤ text.length :=
  (List.dropWhile_sublist p).length_le

/-- Skipping the join of two lines leaves less text than there was. -/
theorem length_lineJoin?_lt {text rest : List Char} (h : lineJoin? text = some rest) :
    rest.length < text.length := by
  obtain ⟨after, hskip, heq⟩ := Option.map_eq_some_iff.mp h
  have h1 := length_skipLineEnd_lt hskip
  have h2 := length_dropWhile_le isSpace text
  have h3 := length_skipGap_le after
  rw [← heq]
  omega

/-- Reads the end of a text that is closed by three quotes: up to two
quotes before them belong to the text. -/
def closing? (quote : Char) : List Char → Option (List Char × List Char)
  | a :: b :: c :: rest =>
      if a = quote ∧ b = quote ∧ c = quote then
        match rest with
        | d :: e :: rest' =>
            if d = quote then
              if e = quote then some ([quote, quote], rest') else some ([quote], e :: rest')
            else some ([], rest)
        | [d] => if d = quote then some ([quote], []) else some ([], rest)
        | [] => some ([], [])
      else none
  | _ => none

/-- Reads a text on several lines up to three closing double quotes. A
line end is read as a line feed. -/
def decodeMultiBasic : List Char → Option (List Char × List Char)
  | [] => none
  | c :: rest =>
      if c = doubleQuote then
        match closing? doubleQuote (c :: rest) with
        | some done => some done
        | none => consFst c (decodeMultiBasic rest)
      else if c = backslash then
        match _he : escape? rest with
        | some (d, after) => consFst d (decodeMultiBasic after)
        | none =>
            match _hj : lineJoin? rest with
            | some after => decodeMultiBasic after
            | none => none
      else
        match _hl : skipLineEnd (c :: rest) with
        | some after => consFst '\n' (decodeMultiBasic after)
        | none => if isPlain c then consFst c (decodeMultiBasic rest) else none
termination_by text => text.length
decreasing_by
  · rw [List.length_cons]; exact Nat.lt_succ_self _
  · have := length_escape?_lt _he
    rw [List.length_cons]
    omega
  · have := length_lineJoin?_lt _hj
    rw [List.length_cons]
    omega
  · exact length_skipLineEnd_lt _hl
  · rw [List.length_cons]; exact Nat.lt_succ_self _

/-- Reads a text on several lines up to three closing single quotes. A
line end is read as a line feed. -/
def decodeMultiLiteral : List Char → Option (List Char × List Char)
  | [] => none
  | c :: rest =>
      if c = singleQuote then
        match closing? singleQuote (c :: rest) with
        | some done => some done
        | none => consFst c (decodeMultiLiteral rest)
      else
        match _hl : skipLineEnd (c :: rest) with
        | some after => consFst '\n' (decodeMultiLiteral after)
        | none => if isPlain c then consFst c (decodeMultiLiteral rest) else none
termination_by text => text.length
decreasing_by
  · rw [List.length_cons]; exact Nat.lt_succ_self _
  · exact length_skipLineEnd_lt _hl
  · rw [List.length_cons]; exact Nat.lt_succ_self _

/-- Leaves out a line end that follows three opening quotes. -/
def trimLead (text : List Char) : List Char := (skipLineEnd text).getD text

/-- Reads a string in any of its forms, and leaves what follows it. -/
def decode : List Char → Option (List Char × List Char)
  | '\x22' :: '\x22' :: '\x22' :: rest => decodeMultiBasic (trimLead rest)
  | '\x27' :: '\x27' :: '\x27' :: rest => decodeMultiLiteral (trimLead rest)
  | '\x22' :: rest => decodeBasic rest
  | '\x27' :: rest => decodeLiteral rest
  | _ => none

/-- Reads a string that has to stand on one line. -/
def decodeLine : List Char → Option (List Char × List Char)
  | '\x22' :: rest => decodeBasic rest
  | '\x27' :: rest => decodeLiteral rest
  | _ => none

end Quoted

end EchoAlign.Toml
