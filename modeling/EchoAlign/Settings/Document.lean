import EchoAlign.Files
import EchoAlign.Settings.Basic
import EchoAlign.Toml.Document

/-!
# `EchoAlign.Settings.Document`: settings as a document

Settings can be kept in a TOML file. `Settings.render` writes them all,
`Settings.parse` reads them; what a document does not name stays at its
standard, and names that are no settings are passed over.

A setting has to have the right kind of value and fit its range, or else
the document is not a settings document at all. Whether a session can
run on the settings is then up to `Settings.validate`.
-/

set_option autoImplicit false

namespace EchoAlign.Settings

open EchoAlign.Toml (Value)

/-- The entries of a settings document. -/
abbrev Entries := List (String × Value)

/-! ### Reading -/

/-- A number from zero to `max`. -/
def natOf? (max : Nat) : Value → Option Nat
  | .integer n => if 0 ≤ n ∧ n ≤ max then some n.toNat else none
  | _ => none

/-- Whether a value is empty, as the content of a named choice has to
be. -/
def isEmptyValue : Value → Bool
  | .array items => items.isEmpty
  | .table entries => entries.isEmpty
  | _ => false

/-- The name of a choice: a string, or the key of a table that holds
nothing else. -/
def choiceOf? : Value → Option String
  | .string name => some name
  | .table [(name, content)] => if isEmptyValue content then some name else none
  | _ => none

/-- The choice that has this name among several. -/
def named? {α : Type} (choices : List α) (label : α → String) (value : Value) : Option α :=
  (choiceOf? value).bind fun name => choices.find? fun choice => label choice == name

/-- A text. -/
def textOf? : Value → Option String
  | .string text => some text
  | _ => none

/-- A switch. -/
def switchOf? : Value → Option Bool
  | .boolean b => some b
  | _ => none

/-- What a key has, read by `read?`, or else `standing`. -/
def entryOr {α : Type} (entries : Entries) (key : String) (read? : Value → Option α)
    (standing : α) : Option α :=
  match entries.lookup key with
  | none => some standing
  | some value => read? value

/-- One item of a list, or else `standing`. -/
def itemOr (items : List Value) (i standing : Nat) : Option Nat :=
  match items[i]? with
  | none => some standing
  | some value => natOf? CancellerTuning.maxSize value

/-- The sizes of a canceller: a table, or a list of the sizes in their
order. A date is taken for a table with no sizes in it. -/
def tuningOf? : Value → Option CancellerTuning
  | .table entries => do
      let frameMs ← entryOr entries CancellerTuning.frameKey (natOf? CancellerTuning.maxSize)
        CancellerTuning.standard.frameMs
      let filterMs ← entryOr entries CancellerTuning.filterKey (natOf? CancellerTuning.maxSize)
        CancellerTuning.standard.filterMs
      return ⟨frameMs, filterMs⟩
  | .array items => do
      let frameMs ← itemOr items 0 CancellerTuning.standard.frameMs
      let filterMs ← itemOr items 1 CancellerTuning.standard.filterMs
      return ⟨frameMs, filterMs⟩
  | .dateTime _ => some .standard
  | _ => none

/-- Reads settings from the entries of a document. What is not there stays at
its `standard`, and entries of other names are passed over. -/
def ofEntries? (entries : Entries) : Option Settings := do
  let rate ← entryOr entries rateKey (natOf? maxRate) standard.rate
  let channels ← entryOr entries channelsKey (natOf? maxGivenChannels) standard.channels
  let format ← entryOr entries formatKey (named? [.s16le, .f32le] SampleFormat.label) standard.format
  let method ← entryOr entries methodKey (named? [.nlms, .null] CancellerMethod.label) standard.method
  let adjustTime ← entryOr entries adjustTimeKey (natOf? Word.maxUnsigned) standard.adjustTime
  let saveDumps ← entryOr entries saveDumpsKey switchOf? standard.saveDumps
  let dumpDir ← entryOr entries dumpDirKey textOf? standard.dumpDir
  let messageCapacity ←
    entryOr entries messageCapacityKey (natOf? Word.maxUnsigned) standard.messageCapacity
  let timingTimeoutMs ←
    entryOr entries timingTimeoutKey (natOf? Word.maxUnsigned) standard.timingTimeoutMs
  let tuning ← entryOr entries tuningKey tuningOf? standard.tuning
  return { rate, channels, format, method, tuning, adjustTime, saveDumps, dumpDir, messageCapacity,
           timingTimeoutMs }

/-- Reads settings from the text of a document (`Toml.parse`), and validates
them. -/
def parse (text : String) : Except SettingsError Settings :=
  match (Toml.parse text).bind ofEntries? with
  | none => .error .notDocument
  | some settings => settings.validate.map fun _ => settings

/-- The text of a file that is called `path`. -/
def textOfFile (path : String) (node : Except FileError FileNode) : Except SettingsError String :=
  match node.bind FileTree.contents with
  | .error reason => .error (.unreadable path reason)
  | .ok bytes =>
      match String.fromUTF8? bytes with
      | some text => .ok text
      | none => .error (.unreadable path .notText)

/-- Reads settings from the contents of a file that is called `path`. -/
def ofFile (path : String) (node : Except FileError FileNode) : Except SettingsError Settings :=
  (textOfFile path node).bind parse

/-- Reads settings from a file, which has to be a text and a document. -/
def load (tree : FileTree) (path : String) : Except SettingsError Settings :=
  ofFile path (tree.find path)

/-! ### Writing -/

/-- A number in decimal digits. -/
def digits (n : Nat) : List Char := Nat.toDigits 10 n

/-- The words for on and off. -/
def switchText (b : Bool) : List Char := if b then "true".toList else "false".toList

/-- One line: a key and the text of its value. -/
def line (key : String) (value : List Char) : List Char :=
  key.toList ++ " = ".toList ++ value ++ ['\n']

/-- The lines of a document that holds settings, with the sizes of the canceller
in a table of their own behind the others. -/
def renderChars (s : Settings) : List Char :=
  line rateKey (digits s.rate)
    ++ line channelsKey (digits s.channels)
    ++ line formatKey (Toml.Quoted.render s.format.label.toList)
    ++ line methodKey (Toml.Quoted.render s.method.label.toList)
    ++ line adjustTimeKey (digits s.adjustTime)
    ++ line saveDumpsKey (switchText s.saveDumps)
    ++ line dumpDirKey (Toml.Quoted.render s.dumpDir.toList)
    ++ line messageCapacityKey (digits s.messageCapacity)
    ++ line timingTimeoutKey (digits s.timingTimeoutMs)
    ++ ['\n', '['] ++ tuningKey.toList ++ [']', '\n']
    ++ line CancellerTuning.frameKey (digits s.tuning.frameMs)
    ++ line CancellerTuning.filterKey (digits s.tuning.filterMs)

/-- Whether a document can hold the settings: its numbers have 64 bits
with a sign. -/
def fitsDocument (s : Settings) : Bool :=
  s.adjustTime ≤ Word.maxSigned && s.messageCapacity ≤ Word.maxSigned
    && s.timingTimeoutMs ≤ Word.maxSigned

/-- Writes settings, unless a number is too large for a document
(`fitsDocument`). -/
def render? (s : Settings) : Option String :=
  if s.fitsDocument then some (String.ofList s.renderChars) else none

end EchoAlign.Settings
