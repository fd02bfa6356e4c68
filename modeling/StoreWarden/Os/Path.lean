import StoreWarden.Text.Utf8

/-!
# Paths

A path is the byte string that an operator or a document gives.  Its parts are what stands between
slashes; repeated slashes count once.  A file name is the last part unless the path ends in a dot
part that names a directory relative to another.
-/

namespace StoreWarden

structure Path where
  bytes : Bytes
deriving DecidableEq, Repr

namespace Path

def slash : UInt8 := 47
def dot : Bytes := [46]
def dotDot : Bytes := [46, 46]

def ofString (s : String) : Path := ⟨Bytes.ofString s⟩

/-- The path as text, with U+FFFD where it is not UTF-8. -/
def display (p : Path) : String := p.bytes.toStringLossy

def toString? (p : Path) : Option String := p.bytes.toString?

def splitSlashes : Bytes → List Bytes
  | [] => [[]]
  | b :: rest =>
    if b = slash then [] :: splitSlashes rest
    else
      match splitSlashes rest with
      | [] => [[b]]
      | part :: parts => (b :: part) :: parts

/-- The parts between slashes, without empty ones. -/
def parts (p : Path) : List Bytes := (splitSlashes p.bytes).filter (· ≠ [])

def isAbsolute (p : Path) : Bool := p.bytes.head? == some slash

def endsInSlash (p : Path) : Bool := p.bytes.getLast? == some slash

/-- Drops from the back what tells nothing about the last part: slashes, and single dots that
follow one. -/
def dropIdle : Nat → Bytes → Bytes
  | 0, back => back
  | fuel + 1, back =>
    match back with
    | 47 :: rest => dropIdle fuel rest
    | 46 :: 47 :: rest => dropIdle fuel (47 :: rest)
    | _ => back

/-- A path cut into what stands before its last telling part and that part. -/
def splitLast (p : Path) : Bytes × Bytes :=
  let back := dropIdle p.bytes.length p.bytes.reverse
  let name := back.takeWhile (· ≠ slash)
  let before := back.dropWhile (· ≠ slash)
  let kept := dropIdle before.length before
  let kept := if kept = [] && before ≠ [] then [slash] else kept
  (kept.reverse, name.reverse)

def fileName? (p : Path) : Option Bytes :=
  let (_, name) := p.splitLast
  if name = [] || name = dot || name = dotDot then none else some name

/-- Appends a name, with a slash between if one is needed. -/
def push (base : Bytes) (name : Bytes) : Bytes :=
  match base.getLast? with
  | none => name
  | some b => if b = slash then base ++ name else base ++ slash :: name

/-- The path with another file name; without a file name the new one is appended. -/
def withFileName (p : Path) (name : Bytes) : Path :=
  match p.fileName? with
  | some _ => ⟨push p.splitLast.1 name⟩
  | none => ⟨push p.bytes name⟩

end Path

end StoreWarden
