import StoreWarden.Document.Value
import StoreWarden.Text.Lowercase

/-!
# Keys that are paths

A key at the top of a document may lead into tables and lists below it: `a.b` names `b` in the
table `a`, and `a[2]` the third item of the list `a`.  A key of any other form stands for itself.
Setting a value along a path makes the tables and lists that are missing.  Keys count in lower
case, except inside lists.
-/

namespace StoreWarden.Document

inductive KeyStep where
  | child (key : String)
  | index (i : Int)
deriving DecidableEq, Repr

structure KeyPath where
  head : String
  steps : List KeyStep
deriving DecidableEq, Repr

namespace KeyPath

def isKeyChar (c : Char) : Bool :=
  c.isAlpha || ('0' ≤ c && c ≤ '9') || c = ' ' || c = '_' || c = '-'

/-- A blank around an index. -/
def isIndexBlank (c : Char) : Bool := c = ' ' || c = '\t' || c = '\r' || c = '\n'

def maxIndex : Int := 9223372036854775807

/-- Reads an index between brackets, after the opening one. -/
def index? (cs : List Char) : Option (Int × List Char) :=
  let cs := cs.dropWhile isIndexBlank
  let (negative, ds) := Binary64.splitSign cs
  let digits := ds.takeWhile Binary64.isDigit
  let rest := (ds.dropWhile Binary64.isDigit).dropWhile isIndexBlank
  let n : Int := Binary64.digitsValue 0 digits
  let value := if negative then -n else n
  match rest with
  | ']' :: rest =>
    if digits = [] || value > maxIndex || value < -maxIndex - 1 then none
    else some (value, rest)
  | _ => none

/-- Reads the steps after a key. -/
def steps? : (fuel : Nat) → List Char → Option (List KeyStep)
  | _, [] => some []
  | 0, _ => none
  | fuel + 1, '.' :: rest =>
    let key := rest.takeWhile isKeyChar
    if key = [] then none
    else (steps? fuel (rest.dropWhile isKeyChar)).map (.child (String.ofList key) :: ·)
  | fuel + 1, '[' :: rest =>
    match index? rest with
    | none => none
    | some (i, rest) => (steps? fuel rest).map (.index i :: ·)
  | _, _ => none

/-- The path that a key spells; a key that spells none is a path by itself. -/
def ofKey (key : String) : KeyPath :=
  let cs := key.toList
  let head := cs.takeWhile isKeyChar
  if head = [] then ⟨key, []⟩
  else
    match steps? cs.length (cs.dropWhile isKeyChar) with
    | some steps => ⟨String.ofList head, steps⟩
    | none => ⟨key, []⟩

end KeyPath

namespace Value

/-- Sets a key of a table.  A table is merged into the one that is there, key by key.  Anything
but a table gives way to one. -/
def setKey (target : Value) (key : String) : Value → Value
  | .table incoming _ =>
    let key := Text.lowered key
    let es := target.entries
    let inner := (get? es key).getD (.table [] none)
    let merged := mergeAll (if incoming.isEmpty then inner else .table inner.entries none) incoming
    .table (put es key merged) none
  | value => .table (put target.entries (Text.lowered key) value) none
where
  /-- Sets keys of a table one after another. -/
  mergeAll (target : Value) : List (String × Value) → Value
    | [] => target
    | (key, value) :: rest => mergeAll (setKey target key value) rest

/-- A list with at least `n + 1` items, filled up with nothing. -/
def fillTo (items : List Value) (n : Nat) : List Value :=
  items ++ List.replicate (n + 1 - items.length) (.nil none)

/-- The place an index means in a list of a length; a negative one counts from the end. -/
def place? (length : Nat) (i : Int) : Option Nat :=
  if 0 ≤ i then some i.toNat
  else if (-i).toNat ≤ length then some (length - (-i).toNat)
  else none

/-- Sets what is reached from `target` by steps. -/
def setSteps (target : Value) (value : Value) : List KeyStep → Option Value
  | [] => some value
  | [.child key] => some (target.setKey key value)
  | .child key :: rest =>
    let key := Text.lowered key
    let es := target.entries
    match ((get? es key).getD (.nil none)).setSteps value rest with
    | none => none
    | some inner => some (.table (put es key inner) none)
  | .index i :: rest =>
    let origin :=
      match target with
      | .list _ o => o
      | _ => none
    let xs := target.items
    match place? xs.length i with
    | none => none
    | some n =>
      let xs := fillTo xs n
      match (xs.getD n (.nil none)).setSteps value rest with
      | none => none
      | some inner => some (.list (xs.set n inner) origin)

/-- Sets a value at a path of a table.  There is none if an index counts beyond a list's start. -/
def setPath (target : Value) (path : KeyPath) (value : Value) : Option Value :=
  target.setSteps value (.child path.head :: path.steps)

end Value

end StoreWarden.Document
