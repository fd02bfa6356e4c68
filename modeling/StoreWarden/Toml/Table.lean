import StoreWarden.Toml.Text

/-!
# Tables in TOML

A document of fields at the top followed by tables of fields.  A field is a line of a name and a
value; a table begins with its name in brackets after an empty line.
-/

namespace StoreWarden.Toml

inductive Value where
  | integer (n : Nat)
  | boolean (b : Bool)
  | string (s : String)
deriving DecidableEq, Repr

abbrev Fields := List (String × Value)

structure Table where
  fields : Fields
  tables : List (String × Fields)
deriving DecidableEq, Repr

def Value.text : Value → List Char
  | .integer n => (toString n).toList
  | .boolean b => (toString b).toList
  | .string s => stringText s.toList

def fieldLine (name : String) (value : Value) : List Char :=
  name.toList ++ " = ".toList ++ value.text ++ ['\n']

def fieldLines (fs : Fields) : List Char := fs.flatMap fun (name, value) => fieldLine name value

def tableLines (name : String) (fs : Fields) : List Char :=
  "\n[".toList ++ name.toList ++ "]\n".toList ++ fieldLines fs

def Table.text (t : Table) : List Char :=
  fieldLines t.fields ++ t.tables.flatMap fun (name, fs) => tableLines name fs

end StoreWarden.Toml
