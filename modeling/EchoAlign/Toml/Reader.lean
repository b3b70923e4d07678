import EchoAlign.Toml.Quoted
import EchoAlign.Toml.Scalar
import EchoAlign.Toml.Tree

/-!
# `EchoAlign.Toml.Reader`: the statements of a document

A TOML document is a sequence of statements: pairs of a key and a value,
and headers, which say to which table the pairs after them belong.
`statements?` reads them; what they come to is the business of
`EchoAlign.Toml.Tree`.

The readers here take a text and answer with what they read and what
follows it. Those that call themselves take a bound on the number of
calls; the bound of a document is its length, since every call but one
in a row reads a character.
-/

set_option autoImplicit false

namespace EchoAlign.Toml

/-- A statement of a document. -/
inductive Statement where
  /-- A key path without its last key, that key, and its value. -/
  | pair (path : List String) (key : String) (value : Value)
  /-- A table of its own: the path of its parent, and its key. -/
  | header (path : List String) (key : String)
  /-- One more table in an array of tables. -/
  | arrayHeader (path : List String) (key : String)

namespace Reader

/-! ### Blanks, comments and line ends -/

/-- Leaves out blanks within a line. -/
def skipSpace (text : List Char) : List Char := text.dropWhile isSpace

/-- Leaves out a comment. -/
def skipComment : List Char → List Char
  | '#' :: rest => rest.dropWhile isPlain
  | text => text

/-- Reads the end of a line, with a comment before it, or the end of the
document. -/
def lineEnd? (text : List Char) : Option (List Char) :=
  match skipComment (skipSpace text) with
  | [] => some []
  | '\n' :: rest => some rest
  | '\r' :: '\n' :: rest => some rest
  | _ => none

/-- A comment is left out, or nothing is. -/
theorem length_skipComment_le (text : List Char) : (skipComment text).length ≤ text.length := by
  unfold skipComment
  split
  · exact Nat.le_succ_of_le (Quoted.length_dropWhile_le _ _)
  · exact Nat.le_of_eq rfl

/-- Leaves out blanks, comments and line ends. -/
def skipGaps (text : List Char) : List Char :=
  match _h : skipComment (skipSpace text) with
  | '\n' :: rest => skipGaps rest
  | '\r' :: '\n' :: rest => skipGaps rest
  | rest => rest
termination_by text.length
decreasing_by
  all_goals
    have h1 := length_skipComment_le (skipSpace text)
    have h2 := Quoted.length_dropWhile_le isSpace text
    rw [_h] at h1
    simp only [List.length_cons, skipSpace] at h1 ⊢
    omega

/-! ### Keys -/

/-- Whether a character may stand in a key without quotes. -/
def isBareChar (c : Char) : Bool := c.isAlphanum || c == '_' || c == '-'

/-- Reads one key. -/
def key? (text : List Char) : Option (String × List Char) :=
  match text.takeWhile isBareChar with
  | [] => (Quoted.decodeLine text).map fun r => (String.ofList r.1, r.2)
  | bare => some (String.ofList bare, text.dropWhile isBareChar)

/-- Reads at most so many keys with dots between them, and leaves what
follows them and any blanks. -/
def keys? : Nat → List Char → Option (List String × List Char)
  | 0, _ => none
  | fuel + 1, text => do
      let (key, rest) ← key? (skipSpace text)
      match skipSpace rest with
      | '.' :: more =>
          let (keys, rest) ← keys? fuel more
          return (key :: keys, rest)
      | rest => return ([key], rest)

/-- The most keys a path may have. -/
def maxKeys : Nat := 79

/-- Reads a key path, and answers with the last key apart. -/
def keyPath? (text : List Char) : Option ((List String × String) × List Char) := do
  let (keys, rest) ← keys? (maxKeys + 1) text
  if maxKeys < keys.length then none
  match keys.getLast? with
  | some key => return ((keys.dropLast, key), rest)
  | none => none

/-- Reads the sign between a key and its value. -/
def equals? : List Char → Option (List Char)
  | '=' :: rest => some (skipSpace rest)
  | _ => none

/-! ### Values -/

/-- How deep arrays and inline tables may be nested. -/
def maxDepth : Nat := 79

mutual

/-- Reads a value. `depth` says how many more arrays and inline tables
may be nested in it. -/
def value? : Nat → Nat → List Char → Option (Value × List Char)
  | 0, _, _ => none
  | fuel + 1, depth, text =>
      match text, depth with
      | '[' :: _, 0 => none
      | '\x7b' :: _, 0 => none
      | '[' :: rest, depth + 1 => do
          let (items, rest) ← items? fuel depth rest
          return (.array items, rest)
      | '\x7b' :: rest, depth + 1 =>
          match skipSpace rest with
          | '\x7d' :: rest => some (.table [], rest)
          | _ => do
              let (pairs, rest) ← pairs? fuel depth rest
              let entries ← inlineTable? pairs
              return (.table entries, rest)
      | '\x22' :: _, _ => (Quoted.decode text).map fun r => (.string (String.ofList r.1), r.2)
      | '\x27' :: _, _ => (Quoted.decode text).map fun r => (.string (String.ofList r.1), r.2)
      | _, _ => Scalar.read text

/-- Reads the items of an array that are left, and its closing
bracket. -/
def items? : Nat → Nat → List Char → Option (List Value × List Char)
  | 0, _, _ => none
  | fuel + 1, depth, text =>
      match skipGaps text with
      | ']' :: rest => some ([], rest)
      | text => do
          let (value, rest) ← value? fuel depth text
          match skipGaps rest with
          | ',' :: rest =>
              let (items, rest) ← items? fuel depth rest
              return (value :: items, rest)
          | ']' :: rest => return ([value], rest)
          | _ => none

/-- Reads the pairs of an inline table that are left, and its closing
brace. -/
def pairs? : Nat → Nat → List Char → Option (List (KeyedValue) × List Char)
  | 0, _, _ => none
  | fuel + 1, depth, text => do
      let ((path, key), rest) ← keyPath? text
      let rest ← equals? rest
      let (value, rest) ← value? fuel depth rest
      match skipSpace rest with
      | ',' :: rest =>
          let (pairs, rest) ← pairs? fuel depth rest
          return (⟨path, key, value⟩ :: pairs, rest)
      | '\x7d' :: rest => return ([⟨path, key, value⟩], rest)
      | _ => none

end

/-! ### Statements -/

/-- Reads the closing brackets of a header. -/
def closeHeader? (double : Bool) (text : List Char) : Option (List Char) :=
  match double, text with
  | false, ']' :: rest => lineEnd? rest
  | true, ']' :: ']' :: rest => lineEnd? rest
  | _, _ => none

/-- Reads a statement that begins the text, and the end of its line. The
text is no longer than `bound`. -/
def statement? (bound : Nat) (text : List Char) : Option (Statement × List Char) :=
  match text with
  | '[' :: '[' :: rest => do
      let ((path, key), rest) ← keyPath? rest
      let rest ← closeHeader? true rest
      return (.arrayHeader path key, rest)
  | '[' :: rest => do
      let ((path, key), rest) ← keyPath? rest
      let rest ← closeHeader? false rest
      return (.header path key, rest)
  | _ => do
      let ((path, key), rest) ← keyPath? text
      let rest ← equals? rest
      let (value, rest) ← value? (2 * bound + 2) maxDepth rest
      let rest ← lineEnd? rest
      return (.pair path key value, rest)

/-- Reads the statements of a document, with one unit of fuel for each
line. -/
def statements? : Nat → List Char → Option (List Statement)
  | 0, text => if text.isEmpty then some [] else none
  | fuel + 1, text =>
      match skipSpace text with
      | [] => some []
      | c :: rest =>
          if c = '#' ∨ c = '\n' ∨ c = '\r' then
            (lineEnd? (c :: rest)).bind (statements? fuel)
          else do
            let (statement, rest) ← statement? fuel (c :: rest)
            let statements ← statements? fuel rest
            return statement :: statements

end Reader

/-- The mark that a text may begin with. -/
def byteOrderMark : Char := '\ufeff'

/-- Leaves out a byte order mark. -/
def skipMark : List Char → List Char
  | c :: rest => if c = byteOrderMark then rest else c :: rest
  | [] => []

/-- Reads the statements of a document. -/
def statements? (text : String) : Option (List Statement) :=
  let chars := skipMark text.toList
  Reader.statements? (chars.length + 1) chars

end EchoAlign.Toml
