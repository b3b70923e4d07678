import EchoAlign.Toml.Value

/-!
# `EchoAlign.Toml.Tree`: what the statements of a document come to

The pairs and headers of a document grow a tree of tables. Every table
remembers how it came to be, because that decides whether it may still
be added to:

* A header makes its table an `explicit` one. No other header may name
  it again, and no dotted key may reach into it from outside.
* The tables on the way to a header's table are `implicit`. A later
  header may still name them.
* The tables on the way of a dotted key are `dotted`. Only dotted keys
  of the same table may add to them.

No key may get a value twice.
-/

set_option autoImplicit false

namespace EchoAlign.Toml

/-- A pair whose key is a path: the keys before the last, the last, and
the value. -/
structure KeyedValue where
  path : List String
  key : String
  value : Value

/-- How a table came to be. -/
inductive Origin where
  | explicit
  | implicit
  | dotted
  deriving DecidableEq, Repr

/-- A node of the tree. -/
inductive Node where
  | leaf (value : Value)
  | table (origin : Origin) (entries : List (String × Node))
  /-- An array of tables, each made by a header of its own. -/
  | tables (elements : List (List (String × Node)))

/-- The entries of a table, in the order in which they came. -/
abbrev Entries := List (String × Node)

namespace Entries

/-- Replaces what a key has, or gives it something. -/
def change? (key : String) (f : Option Node → Option Node) : Entries → Option Entries
  | [] => (f none).map fun node => [(key, node)]
  | (k, node) :: rest =>
      if k = key then (f (some node)).map fun node => (k, node) :: rest
      else (change? key f rest).map ((k, node) :: ·)

/-- Changes the last element of an array of tables. -/
def changeLast? (f : Entries → Option Entries) : List Entries → Option (List Entries)
  | [] => none
  | [last] => (f last).map ([·])
  | first :: rest => (changeLast? f rest).map (first :: ·)

/-- Changes the table at the end of a header's path. Tables that are not
there are made, and of an array of tables the last one is meant. -/
def within? (f : Entries → Option Entries) : List String → Entries → Option Entries
  | [], entries => f entries
  | key :: path, entries =>
      entries.change? key fun
        | none => (within? f path []).map (.table .implicit)
        | some (.leaf _) => none
        | some (.table origin inner) => (within? f path inner).map (.table origin)
        | some (.tables elements) => (changeLast? (within? f path) elements).map .tables

/-- Gives a new key its value. -/
def add? (key : String) (value : Value) (entries : Entries) : Option Entries :=
  entries.change? key fun
    | none => some (.leaf value)
    | some _ => none

/-- Gives a dotted key its value. The table before the last key has to be
one that dotted keys have made. -/
def addDotted? (key : String) (value : Value) : List String → Entries → Option Entries
  | [], entries => add? key value entries
  | first :: path, entries =>
      entries.change? first fun
        | none => (addDotted? key value path []).map (.table .dotted)
        | some (.table .dotted inner) => (addDotted? key value path inner).map (.table .dotted)
        | some (.table .implicit inner) =>
            if path.isEmpty then none
            else (addDotted? key value path inner).map (.table .implicit)
        | some (.tables elements) =>
            if path.isEmpty then none
            else (changeLast? (addDotted? key value path) elements).map .tables
        | some _ => none

/-- Makes the table a header names. -/
def open? (key : String) (entries : Entries) : Option Entries :=
  entries.change? key fun
    | none => some (.table .explicit [])
    | some (.table .implicit inner) => some (.table .explicit inner)
    | some _ => none

/-- Adds a table to the array of tables a header names. -/
def openElement? (key : String) (entries : Entries) : Option Entries :=
  entries.change? key fun
    | none => some (.tables [[]])
    | some (.tables elements) => some (.tables (elements ++ [[]]))
    | some _ => none

end Entries

mutual

/-- The value a node stands for. -/
def Node.toValue : Node → Value
  | .leaf value => value
  | .table _ entries => .table (entriesToValues entries)
  | .tables elements => .array (elementsToValues elements)

/-- The entries of a table as values. -/
def entriesToValues : List (String × Node) → List (String × Value)
  | [] => []
  | (key, node) :: rest => (key, node.toValue) :: entriesToValues rest

/-- The elements of an array of tables as values. -/
def elementsToValues : List (List (String × Node)) → List Value
  | [] => []
  | entries :: rest => .table (entriesToValues entries) :: elementsToValues rest

end

/-- The table that the pairs of an inline table come to. -/
def inlineTable? (pairs : List KeyedValue) : Option (List (String × Value)) :=
  (pairs.foldlM (fun entries p => Entries.addDotted? p.key p.value p.path entries) []).map
    entriesToValues

end EchoAlign.Toml
