import StoreWarden.Document.KeyPath
import StoreWarden.Failure
import StoreWarden.Os.FileSystem
import StoreWarden.Yaml.Node

/-!
# Reading a document

From a path to a table of values: finding the file, reading its text, and bringing the keys of its
one document into place.
-/

namespace StoreWarden.Document

open Os (FileSystem)

/-- The endings tried when there is no file of the very name. -/
def endings : List String := [".yaml", ".yml"]

/-- The paths at which the document is looked for. -/
def candidates (path : Path) : List Path :=
  match path.fileName? with
  | none => [path]
  | some name =>
    path :: endings.map fun ending =>
      ⟨Path.push path.splitLast.1 (name ++ Bytes.ofString ending)⟩

/-- The first of the candidates that is a file. -/
def locate? (fs : FileSystem) (path : Path) : Option Path := (candidates path).find? fs.isFile

/-- The parts of `target` from the directory with the parts `base`. -/
def relativeParts : (base target : List Bytes) → List Bytes
  | [], target => target
  | base, [] => base.map fun _ => Path.dotDot
  | b :: base, t :: target =>
    if b = t then relativeParts base target
    else (b :: base).map (fun _ => Path.dotDot) ++ t :: target

/-- A file's name in messages: its path from the working directory. -/
def shownFile (fs : FileSystem) (path : Path) : String :=
  let own := path.parts.filter (· ≠ Path.dot)
  let parts := if path.isAbsolute then relativeParts fs.home own else own
  Bytes.toStringLossy (List.intercalate [Path.slash] parts)

mutual

def ofNode (file : String) : Yaml.Node → Except Failure Value
  | .void => .ok (.nil (some file))
  | .null => .ok (.nil (some file))
  | .boolean b => .ok (.boolean b (some file))
  | .integer n => .ok (.integer n (some file))
  | .real text =>
    match Binary64.read? text.toList with
    | some x => .ok (.float x (some file))
    | none => .error (.document (.badFloat text file))
  | .string s => .ok (.text s (some file))
  | .sequence items => do
    let xs ← ofNodes file items
    return .list xs (some file)
  | .mapping pairs => do
    let es ← ofPairs file pairs []
    return .table es (some file)

def ofNodes (file : String) : List Yaml.Node → Except Failure (List Value)
  | [] => .ok []
  | node :: rest => do
    let value ← ofNode file node
    let values ← ofNodes file rest
    return value :: values

/-- The entries of a mapping's pairs.  A key must be text or an integer. -/
def ofPairs (file : String) :
    List (Yaml.Node × Yaml.Node) → List (String × Value) → Except Failure (List (String × Value))
  | [], es => .ok es
  | (.string key, node) :: rest, es => do
    let value ← ofNode file node
    ofPairs file rest (Value.put es key value)
  | (.integer n, node) :: rest, es => do
    let value ← ofNode file node
    ofPairs file rest (Value.put es (toString n) value)
  | _, _ => .error (.defect .documentKey)

end

/-- How a value is shown that stands where a whole document was expected. -/
def shownRoot : Value → Shown
  | .integer n _ => .wideInteger n
  | .float x _ => .float x.text
  | value => value.shown

def entriesOf (file : String) (text : List Char) : Except Failure (List (String × Value)) :=
  match Yaml.documentsOf text with
  | .error _ => .error (.document .malformed)
  | .ok [] => .ok []
  | .ok [node] =>
    match ofNode file node with
    | .error failure => .error failure
    | .ok (.table es _) => .ok es
    | .ok value => .error (.document (.notMapping (shownRoot value) file))
  | .ok docs => .error (.document (.documentCount docs.length file))

/-- Sets entries one after another, each at the path its key spells. -/
def settle : Value → List (String × Value) → Except Failure Value
  | target, [] => .ok target
  | target, (key, value) :: rest =>
    match target.setPath (KeyPath.ofKey key) value with
    | some next => settle next rest
    | none => .error (.defect .documentIndex)

def read (fs : FileSystem) (path : Path) : Except Failure Value :=
  match locate? fs path with
  | none => .error (.document (.missing path.display))
  | some found =>
    match fs.readText found with
    | .error fault => .error (.document (.unreadable fault))
    | .ok text =>
      match entriesOf (shownFile fs found) text with
      | .error failure => .error failure
      | .ok es => settle (.table [] none) es

end StoreWarden.Document
