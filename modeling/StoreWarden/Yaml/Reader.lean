import StoreWarden.Yaml.Token

/-!
# Reading position

Where a reader stands in a text, and the ways to move on.  A move over blanks keeps the note that
nothing but blanks has been seen on the line; any other move drops it.
-/

namespace StoreWarden.Yaml

/-- A level of indentation left behind, and whether its end has to be marked by a token. -/
structure Indent where
  column : Int
  marked : Bool

/-- A token that may turn out to be a key when a colon follows. -/
structure PossibleKey where
  possible : Bool
  required : Bool
  /-- The position of the token among all. -/
  position : Nat
  line : Nat
  col : Nat
  index : Nat

/-- Not a key. -/
def PossibleKey.none : PossibleKey := ⟨false, false, 0, 0, 0, 0⟩

structure Reader where
  rest : List Char
  index : Nat
  line : Nat
  col : Nat
  /-- Only blanks have been seen on this line. -/
  leading : Bool
  /-- The tokens read so far. -/
  tokens : Array Placed
  /-- Where a colon needs no blank after it, because it follows a quoted key. -/
  adjacentAt : Nat
  keyAllowed : Bool
  /-- One candidate for each open flow collection, the innermost first, and one for the block. -/
  keys : List PossibleKey
  indent : Int
  indents : List Indent
  flowDepth : Nat
  inFlowMapping : Bool
  impliedMapping : Bool

/-- The reader at the start of a text. -/
def Reader.start (text : List Char) : Reader :=
  ⟨text, 0, 0, 0, true, #[], 0, true, [PossibleKey.none], -1, [], 0, false, false⟩

/-- A step of reading. -/
abbrev Read := StateT Reader (Except Malformed)

namespace Read

def fail {α : Type} : Read α := do
  let r ← get
  throw ⟨r.line, r.col⟩

def failIf (condition : Bool) : Read Unit := if condition then fail else pure ()

def peek (n : Nat) : Read Char := do
  return (← get).rest.getD n '\x00'

def next : Read Char := peek 0

/-- Moves over `n` characters that are not blanks. -/
def skip (n : Nat) : Read Unit :=
  modify fun r =>
    { r with rest := r.rest.drop n, index := r.index + n, col := r.col + n, leading := false }

def skipGap : Read Unit :=
  modify fun r => { r with rest := r.rest.drop 1, index := r.index + 1, col := r.col + 1 }

/-- Moves over a line break of one or two characters, if there is one. -/
def skipBreak : Read Unit := do
  let a ← next
  let b ← peek 1
  if a = '\r' && b = '\n' then skipGap
  if isBreak a then
    modify fun r =>
      { r with rest := r.rest.drop 1, index := r.index + 1, col := 0, line := r.line + 1,
               leading := true }

/-- Reads the characters of a class, none of which breaks the line. -/
def takeWhile (class' : Char → Bool) : Read (List Char) := do
  let r ← get
  let taken := r.rest.takeWhile class'
  if taken = [] then return []
  else
    skip taken.length
    return taken

def skipLine : Read Unit := do
  let _ ← takeWhile (fun c => !isBreakOrEnd c)

def emitAt (token : Token) (line col : Nat) : Read Unit :=
  modify fun r => { r with tokens := r.tokens.push ⟨token, col, line⟩ }

/-- Appends a token that stands at the current place. -/
def emit (token : Token) : Read Unit := do
  let r ← get
  emitAt token r.line r.col

def insertAt (position : Nat) (token : Token) (line col : Nat) : Read Unit :=
  modify fun r =>
    { r with tokens := r.tokens.insertIdxIfInBounds position ⟨token, col, line⟩ }

def allowKey (allowed : Bool) : Read Unit := modify fun r => { r with keyAllowed := allowed }

def column : Read Int := do
  return (← get).col

/-- What a run of blanks held. -/
structure Gap where
  tab : Bool
  space : Bool

/-- Moves over blanks and a comment to the end of the line or the next token; a comment must be
set off by a blank.  Tabs count as blanks only if `tabs` says so. -/
def skipToEndOfLine (tabs : Bool) : (fuel : Nat) → Gap → Read Gap
  | 0, gap => pure gap
  | fuel + 1, gap => do
    let c ← next
    if c = ' ' then
      skipGap
      skipToEndOfLine tabs fuel { gap with space := true }
    else if c = '\t' && tabs then
      skipGap
      skipToEndOfLine tabs fuel { gap with tab := true }
    else if c = '#' then
      failIf (!gap.tab && !gap.space)
      skipLine
      pure gap
    else pure gap

/-- `skipToEndOfLine` from no blank. -/
def skipGapAndComment (tabs : Bool) : Read Gap := do
  skipToEndOfLine tabs ((← get).rest.length + 1) ⟨false, false⟩

/-- Leaves the levels deeper than `column`, marking the ends that need it. -/
def leaveLevels (column : Int) : List Indent → Int → Read Unit
  | [], _ => pure ()
  | level :: rest, indent => do
    if indent > column then
      if level.marked then emit .blockEnd
      modify fun r => { r with indent := level.column, indents := rest }
      leaveLevels column rest level.column

/-- Leaves the levels deeper than `column`, except inside flow collections. -/
def closeIndents (column : Int) : Read Unit := do
  let r ← get
  if r.flowDepth = 0 then leaveLevels column r.indents r.indent

/-- The current level and those behind it, once levels that no token marks are forgotten. -/
def markedLevels : List Indent → Int → Int × List Indent
  | [], indent => (indent, [])
  | level :: rest, indent =>
    if level.marked then (indent, level :: rest) else markedLevels rest level.column

/-- Forgets the levels that no token marks. -/
def dropUnmarked : Read Unit :=
  modify fun r =>
    let (indent, indents) := markedLevels r.indents r.indent
    { r with indent, indents }

/-- Opens a level at `col`, if it is deeper than the current one, with a token before the one at
`position` or at the end. -/
def openIndent (col : Nat) (position : Option Nat) (token : Token) (line tokenCol : Nat) :
    Read Unit := do
  let r ← get
  if r.flowDepth > 0 then return
  if r.indent ≤ col then
    match r.indents with
    | level :: rest =>
      if !level.marked then modify fun r => { r with indent := level.column, indents := rest }
    | [] => pure ()
  let r ← get
  if r.indent < col then
    modify fun r => { r with indents := ⟨r.indent, true⟩ :: r.indents, indent := col }
    match position with
    | some p => insertAt p token line tokenCol
    | none => emitAt token line tokenCol

/-- Opens a level one column deeper, which no token marks. -/
def openOneColumn : Read Unit := do
  let r ← get
  if r.flowDepth = 0 && r.indents.head?.any (·.marked) then
    modify fun r => { r with indents := ⟨r.indent, false⟩ :: r.indents, indent := r.indent + 1 }

def saveKey : Read Unit := do
  let r ← get
  if r.keyAllowed then
    let required := r.flowDepth = 0 && r.indent = r.col && r.indents.head?.any (·.marked)
    let candidate : PossibleKey := ⟨true, required, r.tokens.size, r.line, r.col, r.index⟩
    set { r with keys := candidate :: r.keys.drop 1 }

def dropKey : Read Unit := do
  let r ← get
  match r.keys with
  | candidate :: rest =>
    failIf (candidate.possible && candidate.required)
    set { r with keys := { candidate with possible := false } :: rest }
  | [] => pure ()

/-- The longest distance between the start of a key and its colon. -/
def maxKeyLength : Nat := 1024

/-- Notes that candidates left behind are no keys: in a block a key stands on one line with its
colon, and not too far from it. -/
def dropStaleKeys : Read Unit := do
  let r ← get
  let stale (k : PossibleKey) : Bool :=
    k.possible && r.flowDepth = 0 && (k.line < r.line || k.index + maxKeyLength < r.index)
  failIf (r.keys.any fun k => stale k && k.required)
  set { r with keys := r.keys.map fun k => if stale k then { k with possible := false } else k }

end Read

end StoreWarden.Yaml
