/-!
# `EchoAlign.Toml.Value`: what a TOML document says

A document is a table: keys with their values, in the order in which
they were first named. Floats and dates can stand in a document, but
nothing that is read here looks at them, so they are kept as they were
written.
-/

set_option autoImplicit false

namespace EchoAlign.Toml

/-- A value of a document. -/
inductive Value where
  | string (text : String)
  | integer (n : Int)
  | float (written : String)
  | boolean (b : Bool)
  | dateTime (written : String)
  | array (items : List Value)
  | table (entries : List (String × Value))

/-- Where any value will do, a switch that is off does. -/
instance : Inhabited Value := ⟨.boolean false⟩

end EchoAlign.Toml
