import StoreWarden.Decimal.Binary64
import StoreWarden.Document.Fault

/-!
# Values of documents

A document's content without the marks of the language it was written in.  A value may name the
file that it was read from, which messages then repeat; a value that was put together from parts
names none.
-/

namespace StoreWarden.Document

inductive Value where
  | nil (origin : Option String)
  | boolean (b : Bool) (origin : Option String)
  | integer (n : Int) (origin : Option String)
  | float (x : Binary64) (origin : Option String)
  | text (s : String) (origin : Option String)
  | list (items : List Value) (origin : Option String)
  | table (entries : List (String × Value)) (origin : Option String)
deriving Inhabited

namespace Value

def origin : Value → Option String
  | .nil o => o
  | .boolean _ o => o
  | .integer _ o => o
  | .float _ o => o
  | .text _ o => o
  | .list _ o => o
  | .table _ o => o

def shown : Value → Shown
  | .nil _ => .unit
  | .boolean b _ => .boolean b
  | .integer n _ => .integer n
  | .float x _ => .float x.pointText
  | .text s _ => .text s
  | .list .. => .sequence
  | .table .. => .map

def get? (entries : List (String × Value)) (key : String) : Option Value :=
  entries.lookup key

/-- The entries with a key set, at its old place or at the end. -/
def put (entries : List (String × Value)) (key : String) (value : Value) :
    List (String × Value) :=
  if entries.any (·.1 = key) then
    entries.map fun entry => if entry.1 = key then (key, value) else entry
  else entries ++ [(key, value)]

/-- The entries of a table; any other value has none. -/
def entries : Value → List (String × Value)
  | .table es _ => es
  | _ => []

/-- The items of a list; any other value has none. -/
def items : Value → List Value
  | .list xs _ => xs
  | _ => []

end Value

end StoreWarden.Document
