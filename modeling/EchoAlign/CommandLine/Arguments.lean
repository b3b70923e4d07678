import EchoAlign.Word
import EchoAlign.Text.Number

/-!
# `EchoAlign.CommandLine.Arguments`: what a command line asks for

A command line is a command, perhaps a second one, and options around
them. `Request.parse` reads it from left to right. The first word that
breaks the rules ends the reading, and so does the first that asks for
help or for the version.

* A long option takes its value behind an `=` or as the next word. A
  short option takes it as the rest of its own word, with or without an
  `=`, or as the next word.
* A value that is a word of its own must not look like an option.
* Short options without values can share a word.
* No option may be given twice, and a switch takes no value.
-/

set_option autoImplicit false

namespace EchoAlign

/-! ### Options -/

/-- What an option stands for. -/
inductive OptionRole where
  /-- Something that is on or off. -/
  | switch
  /-- Something with a value, of which only some are accepted. -/
  | valued (accepts : String → Bool)
  | help
  | version

/-- An option. -/
structure OptionRule where
  short? : Option Char
  long : String
  role : OptionRole

/-- Why a command line asks for nothing that could be done. -/
inductive Halt where
  | help
  | version
  | misuse
  deriving DecidableEq, Repr

/-- The options given so far, by their long names (`OptionRule.long`). A switch
has an empty value. -/
abbrev Given := List (String × String)

namespace Given

/-- Adds an option that was not given before. A second time is a `misuse`. -/
def add (given : Given) (long value : String) : Except Halt Given :=
  if (given.lookup long).isSome then .error .misuse else .ok ((long, value) :: given)

/-- Whether a switch is on. -/
def has (given : Given) (long : String) : Bool := (given.lookup long).isSome

end Given

namespace OptionRule

/-- Takes a value for an option, if the `rule` accepts it. -/
def take (rule : OptionRule) (value : String) (given : Given) : Except Halt Given :=
  match rule.role with
  | .valued accepts => if accepts value then given.add rule.long value else .error .misuse
  | _ => .error .misuse

/-- Takes an option that comes without a value, if it can do without. Help and
the version `Halt` the reading there. -/
def takeBare (rule : OptionRule) (given : Given) : Except Halt Given :=
  match rule.role with
  | .switch => given.add rule.long ""
  | .help => .error .help
  | .version => .error .version
  | .valued _ => .error .misuse

/-- Whether the option needs a value. -/
def needsValue (rule : OptionRule) : Bool :=
  match rule.role with
  | .valued _ => true
  | _ => false

end OptionRule

/-- What is left to do after a word: the options of `given`, and one that may
still wait for its value. -/
structure Progress where
  given : Given
  waiting? : Option OptionRule

namespace Progress

/-- Nothing given yet. -/
def start : Progress := ⟨[], none⟩

/-- Reads the long option in a word, behind its two dashes. -/
def long (p : Progress) (rules : List OptionRule) (word : List Char) : Except Halt Progress := do
  let name := String.ofList (word.takeWhile (· != '='))
  match rules.find? fun rule => rule.long == name with
  | none => throw .misuse
  | some rule =>
      match word.dropWhile (· != '=') with
      | _ :: value => return ⟨← rule.take (String.ofList value) p.given, none⟩
      | [] =>
          if rule.needsValue then return ⟨p.given, some rule⟩
          else return ⟨← rule.takeBare p.given, none⟩

/-- Reads the short options in a word, behind its dash. The first that needs a
value (`needsValue`) takes the rest of the word, or waits for the next one. -/
def short (p : Progress) (rules : List OptionRule) : List Char → Except Halt Progress
  | [] => .ok p
  | c :: rest =>
      match rules.find? fun rule => rule.short? == some c with
      | none => .error .misuse
      | some rule =>
          if rule.needsValue then
            match rest with
            | [] => .ok ⟨p.given, some rule⟩
            | '=' :: value => (rule.take (String.ofList value) p.given).map (⟨·, none⟩)
            | value => (rule.take (String.ofList value) p.given).map (⟨·, none⟩)
          else
            match rule.takeBare p.given with
            | .error halt => .error halt
            | .ok given => short ⟨given, none⟩ rules rest

end Progress

/-- Reads words up to one of the given `commands`, and answers with the options
before it, the command, and the words behind it. -/
def scan (rules : List OptionRule) (commands : List String) (p : Progress) :
    List String → Except Halt (Given × Option (String × List String))
  | [] => if p.waiting?.isSome then .error .misuse else .ok (p.given, none)
  | word :: rest =>
      match word.toList, p.waiting? with
      | ['-', '-'], none => if rest.isEmpty then .ok (p.given, none) else .error .misuse
      | '-' :: '-' :: name, none =>
          match p.long rules name with
          | .error halt => .error halt
          | .ok p => scan rules commands p rest
      | '-' :: c :: name, none =>
          match p.short rules (c :: name) with
          | .error halt => .error halt
          | .ok p => scan rules commands p rest
      | '-' :: _ :: _, some _ => .error .misuse
      | _, some rule =>
          match rule.take word p.given with
          | .error halt => .error halt
          | .ok given => scan rules commands ⟨given, none⟩ rest
      | _, none =>
          if commands.contains word then .ok (p.given, some (word, rest)) else .error .misuse

/-! ### Requests -/

/-- Where settings come from. -/
structure SettingsSource where
  /-- A settings file. -/
  file? : Option String
  /-- A flat argument list. -/
  flat? : Option String
  deriving DecidableEq, Repr

/-- What a run is asked to do. -/
structure RunOptions where
  inputDevice? : Option String
  outputDevice? : Option String
  /-- The file to play instead of a tone. -/
  play? : Option String
  /-- Whether the file is played again and again. -/
  looping : Bool
  /-- The frequency of the tone, in Hertz. -/
  tone : Float32
  /-- Where the cleaned stream goes. -/
  output? : Option String
  /-- Seconds until the run ends by itself. -/
  duration? : Option Nat

/-- What a command line asks for, if it does not `Halt`. -/
inductive Request where
  | listDevices
  | showSettings (source : SettingsSource)
  | run (source : SettingsSource) (options : RunOptions)

namespace Request

/-- The switch for more output, which goes with every command. -/
def verboseRule : OptionRule := ⟨some 'v', "verbose", .switch⟩

/-- The option that asks for the commands and options there are. -/
def helpRule : OptionRule := ⟨some 'h', "help", .help⟩

/-- The option that asks for the version of the program. -/
def versionRule : OptionRule := ⟨some 'V', "version", .version⟩

/-- A value that can be any text. -/
def anyText : OptionRole := .valued fun _ => true

/-- A value that is a path, which is never empty. -/
def pathText : OptionRole := .valued fun value => value != ""

/-- The options that say where settings come from. -/
def settingsRules : List OptionRule :=
  [⟨some 'c', "config", pathText⟩, ⟨some 'a', "args", anyText⟩]

/-- The options of a run. -/
def runRules : List OptionRule :=
  [⟨none, "input-device", anyText⟩,
   ⟨none, "output-device", anyText⟩,
   ⟨none, "play", pathText⟩,
   ⟨none, "loop", .switch⟩,
   ⟨none, "tone", .valued fun value => (Text.readFloat? value).isSome⟩,
   ⟨some 'o', "output", pathText⟩,
   ⟨some 'd', "duration", .valued fun value => (Text.readNat? Word.maxUnsigned value).isSome⟩]

/-- The frequency of the tone when none is given. -/
def standardTone : Float32 := 440.0

/-- Where settings come from. A file named in the environment counts
where the command line names none. -/
def sourceOf (given : Given) (environment? : Option String) : Except Halt SettingsSource :=
  match given.lookup "config", environment? with
  | some path, _ => .ok ⟨some path, given.lookup "args"⟩
  | none, some "" => .error .misuse
  | none, file? => .ok ⟨file?, given.lookup "args"⟩

/-- The options of a run, of which the values have been accepted by `runRules`. -/
def runOptionsOf (given : Given) : RunOptions :=
  { inputDevice? := given.lookup "input-device"
    outputDevice? := given.lookup "output-device"
    play? := given.lookup "play"
    looping := given.has "loop"
    tone := ((given.lookup "tone").bind Text.readFloat?).getD standardTone
    output? := given.lookup "output"
    duration? := (given.lookup "duration").bind (Text.readNat? Word.maxUnsigned) }

/-- The commands, and the commands that follow each. -/
inductive CommandTree where
  | node (children : List (String × CommandTree))

namespace CommandTree

/-- The commands that can follow. -/
def children : CommandTree → List (String × CommandTree)
  | node children => children

/-- Whether words name a command, one word for each level of the tree. Where
other commands follow, `help` is one of them. -/
def knows : CommandTree → List String → Bool
  | _, [] => true
  | tree, word :: rest =>
      match tree.children.lookup word with
      | some child => knows child rest
      | none => !tree.children.isEmpty && word == "help" && rest.isEmpty

end CommandTree

/-- All commands but those that ask for help. -/
def commands : CommandTree :=
  .node [("devices", .node [("list", .node [])]), ("run", .node []), ("config", .node [])]

/-- The answer to a command for help: it has to name a command that the tree
`knows`. -/
def helpOn (tree : CommandTree) (words : List String) : Halt :=
  if tree.knows words then .help else .misuse

/-- Reads a command that has no others after it, with the options that go with
every command and those of `rules`. -/
def leaf (rules : List OptionRule) (words : List String) : Except Halt Given :=
  (scan (verboseRule :: helpRule :: rules) [] .start words).map (·.1)

/-- Reads what follows the command for devices. -/
def devices (words : List String) : Except Halt Request := do
  match ← scan [verboseRule, helpRule] ["list", "help"] .start words with
  | (_, some ("list", rest)) =>
      let _ ← leaf [] rest
      return .listDevices
  | (_, some (_, rest)) => throw (helpOn (.node [("list", .node [])]) rest)
  | (_, none) => throw .misuse

/-- Reads a command line. -/
def parse (words : List String) (environment? : Option String) : Except Halt Request := do
  match ← scan [verboseRule, helpRule, versionRule] ["devices", "run", "config", "help"] .start
      words with
  | (_, some ("devices", rest)) => devices rest
  | (_, some ("run", rest)) =>
      let given ← leaf (settingsRules ++ runRules) rest
      return .run (← sourceOf given environment?) (runOptionsOf given)
  | (_, some ("config", rest)) =>
      let given ← leaf settingsRules rest
      return .showSettings (← sourceOf given environment?)
  | (_, some (_, rest)) => throw (helpOn commands rest)
  | (_, none) => throw .misuse

end Request

end EchoAlign
