import EchoAlign.Toml.Reader

/-!
# `EchoAlign.Toml.Document`: reading a document

`Document.parse` reads a text as a table of values, or finds that it is
no TOML document.
-/

set_option autoImplicit false

namespace EchoAlign.Toml

/-- A document in the making: its tree, and the table that pairs now
belong to. -/
structure Draft where
  root : Entries
  current : List String

namespace Draft

/-- Nothing written yet. -/
def empty : Draft := ⟨[], []⟩

/-- Takes in a statement. -/
def add? (d : Draft) : Statement → Option Draft
  | .pair path key value =>
      (Entries.within? (Entries.addDotted? key value path) d.current d.root).map fun root =>
        { d with root }
  | .header path key =>
      (Entries.within? (Entries.open? key) path d.root).map fun root => ⟨root, path ++ [key]⟩
  | .arrayHeader path key =>
      (Entries.within? (Entries.openElement? key) path d.root).map fun root => ⟨root, path ++ [key]⟩

end Draft

/-- Reads a document. -/
def parse (text : String) : Option (List (String × Value)) := do
  let statements ← statements? text
  let draft ← statements.foldlM Draft.add? Draft.empty
  return entriesToValues draft.root

end EchoAlign.Toml
