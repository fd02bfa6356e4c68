import StoreWarden.Pem.Fault

/-!
# Armoured blocks

A file of armoured blocks is read line by line.  A line that begins a block gives its label, and
the lines up to the one that ends the block with the same label are its text; everything outside a
block is passed over.  A block that is begun inside another takes over what that had collected.
After a fault reading goes on with the next line, outside any block.
-/

namespace StoreWarden.Pem

/-- A block: its label and the text between its borders, without blanks at the ends of lines. -/
structure Block where
  label : Bytes
  text : Bytes
deriving DecidableEq, Repr

def endsLine (b : UInt8) : Bool := b = 10 || b = 13

/-- The lines of a text, each with the byte that ends it. -/
def lines : Bytes → List Bytes
  | [] => []
  | b :: rest =>
    if endsLine b then [b] :: lines rest
    else
      match lines rest with
      | [] => [[b]]
      | line :: more => (b :: line) :: more

/-- Whether a byte may stand at the end of a line without a meaning. -/
def isTail (b : UInt8) : Bool := endsLine b || b = 32

def trimmed (line : Bytes) : Bytes := (line.reverse.dropWhile isTail).reverse

def beginMark : Bytes := Bytes.ofString "-----BEGIN "

def endMark : Bytes := Bytes.ofString "-----END "

/-- The dashes around the words of such a line. -/
def dashes : Bytes := Bytes.ofString "-----"

def dash : UInt8 := '-'.toUInt8

/-- What a line is with respect to the beginning of blocks. -/
inductive Opening where
  | absent
  | broken
  | label (label : Bytes)
deriving DecidableEq, Repr

/-- Reads the beginning of a block.  The line ends with exactly five dashes, between and after
which blanks do not count. -/
def opening (line : Bytes) : Opening :=
  if beginMark.isPrefixOf line then
    let back := line.reverse
    let tail := (back.takeWhile fun b => b = dash || isTail b).reverse
    if tail.count dash = dashes.length then
      let front := (back.dropWhile fun b => b = dash || isTail b).reverse
      .label ((front ++ tail.takeWhile (· ≠ dash)).drop beginMark.length)
    else .broken
  else .absent

/-- Whether a line ends the block with this label. -/
def ends (label line : Bytes) : Bool := (endMark ++ label ++ dashes).isPrefixOf line

/-- Goes through lines, possibly inside a block of which some text has been read. -/
def scan : Option Block → List Bytes → List (Except Fault Block)
  | none, [] => []
  | some block, [] => [.error (.unclosed block.label)]
  | inside, line :: rest =>
    match opening line, inside with
    | .broken, _ => .error (.badStart line) :: scan none rest
    | .label label, none => scan (some ⟨label, []⟩) rest
    | .label label, some block => scan (some ⟨label, block.text⟩) rest
    | .absent, none => scan none rest
    | .absent, some block =>
      if ends block.label line then .ok block :: scan none rest
      else scan (some { block with text := block.text ++ trimmed line }) rest

/-- The blocks of a text and the faults between them. -/
def blocks (text : Bytes) : List (Except Fault Block) := scan none (lines text)

end StoreWarden.Pem
