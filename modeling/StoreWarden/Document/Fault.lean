import StoreWarden.Os.Fault
import StoreWarden.Text.Quoted

/-!
# Unusable documents

Why the document at a path did not give the settings asked for.  A fault found at a value names
the file the value was read from, where the value has one.
-/

namespace StoreWarden.Document

inductive Shown where
  | unit
  | boolean (b : Bool)
  | integer (n : Int)
  /-- An integer shown with its width. -/
  | wideInteger (n : Int)
  | float (digits : String)
  | text (content : String)
  | sequence
  | map
deriving DecidableEq, Repr

def Shown.words : Shown → String
  | .unit => "unit value"
  | .boolean b => "boolean `" ++ toString b ++ "`"
  | .integer n => "integer `" ++ toString n ++ "`"
  | .wideInteger n => "64-bit integer `" ++ toString n ++ "`"
  | .float digits => "floating point `" ++ digits ++ "`"
  | .text content => "string " ++ Text.quoted content
  | .sequence => "sequence"
  | .map => "map"

inductive Fault where
  /-- No file at the path. -/
  | missing (path : String)
  /-- The file could not be read as text. -/
  | unreadable (fault : Os.Fault)
  /-- The text breaks the rules of the document language. -/
  | malformed
  /-- A number written with a leading dot form that no reader accepts. -/
  | badFloat (text : String) (file : String)
  /-- The document is not a mapping. -/
  | notMapping (found : Shown) (file : String)
  /-- The file holds several documents. -/
  | documentCount (n : Nat) (file : String)
  /-- The value of a key has the wrong type. -/
  | wrongType (found : Shown) (expected : String) (key : String) (file : Option String)
  /-- A value that must be a group of settings is a single one. -/
  | notGroup (found : Shown) (group : String)
  /-- A fault known by its text. -/
  | described (text : String)
deriving DecidableEq, Repr

/-- The text of a fault.  Malformed text has none of its own. -/
def Fault.message : Fault → String
  | .missing path => "configuration file \"" ++ path ++ "\" not found"
  | .unreadable fault => fault.message
  | .malformed => "malformed document"
  | .badFloat text file => "Parsing " ++ text ++ " as floating point number failed in " ++ file
  | .notMapping found file =>
    "invalid type: " ++ found.words ++ ", expected a map in " ++ file ++ " in " ++ file
  | .documentCount n file => "Got " ++ toString n ++ " YAML documents, expected 1 in " ++ file
  | .wrongType found expected key file =>
    "invalid type: " ++ found.words ++ ", expected " ++ expected ++ " for key `" ++ key ++ "`" ++
      (match file with
       | some f => " in " ++ f
       | none => "")
  | .notGroup found group => "invalid type: " ++ found.words ++ ", expected struct " ++ group
  | .described text => text

end StoreWarden.Document
