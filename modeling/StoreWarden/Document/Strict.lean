import StoreWarden.Document.Value
import StoreWarden.Os.Path

/-!
# Strict reading of values

Reading without any change of type: a text field takes text only, a number field integers in its
range only.  A group of fields is a table, where missing fields have defaults and unknown ones are
passed over, or a list of the fields in order, which may end early but must not go on.
-/

namespace StoreWarden.Document.Strict

abbrev Decoder (α : Type) := Value → Option α

def text : Decoder String
  | .text s _ => some s
  | _ => none

def boolean : Decoder Bool
  | .boolean b _ => some b
  | _ => none

def natBelow (bound : Nat) : Decoder Nat
  | .integer n _ => if 0 ≤ n && n < bound then some n.toNat else none
  | _ => none

def word16 : Decoder UInt16 := fun v => (natBelow UInt16.size v).map UInt16.ofNat

def word64 : Decoder UInt64 := fun v => (natBelow UInt64.size v).map UInt64.ofNat

def path : Decoder Path := fun v => (text v).map Path.ofString

def optional {α : Type} (d : Decoder α) : Decoder (Option α)
  | .nil _ => some none
  | v => (d v).map some

/-- The fields of a group: the value of each, if it is given. -/
abbrev Fields := List (Option Value)

/-- The fields of a group by their names in order; in a list, at least `least` must be given. -/
def fields (names : List String) (least : Nat) : Value → Option Fields
  | .table es _ => some (names.map (Value.get? es))
  | .list items _ =>
    if least ≤ items.length && items.length ≤ names.length then
      some (items.map some ++ List.replicate (names.length - items.length) none)
    else none
  | _ => none

/-- A field by its place, or its default. -/
def field {α : Type} (fs : Fields) (i : Nat) (d : Decoder α) (default : α) : Option α :=
  match fs.getD i none with
  | some v => d v
  | none => some default

end StoreWarden.Document.Strict
