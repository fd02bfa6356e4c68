import StoreWarden.Yaml.Reader

/-!
# Scalars

Reading of block scalars, quoted scalars and plain scalars.  Each gives the text that the scalar
stands for, with line breaks folded or kept by the rules of its form.
-/

namespace StoreWarden.Yaml.Read

def lineBreak : Read (List Char) := do
  skipBreak
  return ['\n']

/-- Whether a document indicator of three such characters stands here. -/
def atIndicator (c : Char) : Read Bool := do
  let r ← get
  return r.col = 0 && r.rest.getD 0 '\x00' = c && r.rest.getD 1 '\x00' = c &&
    r.rest.getD 2 '\x00' = c && isGapOrEnd (r.rest.getD 3 '\x00')

/-- Whether either document indicator stands here. -/
def atAnyIndicator : Read Bool := do
  return (← atIndicator '-') || (← atIndicator '.')

/-! ## Block scalars -/

/-- What becomes of the line breaks at the end of a block scalar. -/
inductive Chomping where
  | strip
  | clip
  | keep
deriving DecidableEq

def chompingSign : Read (Option Chomping) := do
  let c ← next
  if c = '+' then
    skip 1
    return some .keep
  else if c = '-' then
    skip 1
    return some .strip
  else return none

/-- Reads the digit that sets the indentation. -/
def indentDigit : Read Nat := do
  let c ← next
  if isDigit c then
    failIf (c = '0')
    skip 1
    return c.toNat - '0'.toNat
  else return 0

/-- Reads the signs after a block scalar's indicator, in either order. -/
def blockHeader : Read (Chomping × Nat) := do
  match ← chompingSign with
  | some chomping =>
    let digit ← indentDigit
    return (chomping, digit)
  | none =>
    let digit ← indentDigit
    if digit = 0 then return (.clip, 0)
    else
      let chomping ← chompingSign
      return (chomping.getD .clip, digit)

/-- Moves over spaces up to column `limit`, or over all of them. -/
def skipSpaces (limit : Option Nat) : (fuel : Nat) → Read Unit
  | 0 => pure ()
  | fuel + 1 => do
    let r ← get
    let c ← next
    if c = ' ' && limit.all (r.col < ·) then
      skipGap
      skipSpaces limit fuel

/-- Moves over empty lines and up to column `limit` of the next line.  Gives the breaks met. -/
def skipIndent (limit : Nat) : (fuel : Nat) → List Char → Read (List Char)
  | 0, breaks => pure breaks
  | fuel + 1, breaks => do
    skipSpaces (some limit) (limit + 1)
    if isBreak (← next) then skipIndent limit fuel (breaks ++ (← lineBreak))
    else pure breaks

/-- Moves over empty lines and the spaces of the first other line.  Gives the deepest column and
the breaks met. -/
def findIndent : (fuel : Nat) → Nat → List Char → Read (Nat × List Char)
  | 0, deepest, breaks => pure (deepest, breaks)
  | fuel + 1, deepest, breaks => do
    let r ← get
    skipSpaces none (r.rest.length + 1)
    let deepest := max deepest (← get).col
    if isBreak (← next) then findIndent fuel deepest (breaks ++ (← lineBreak))
    else pure (deepest, breaks)

/-- What has been read of a block scalar's lines. -/
structure BlockLines where
  text : List Char
  /-- The break after the last line. -/
  lastBreak : List Char
  /-- The empty lines after that. -/
  breaks : List Char
  /-- The last line started with a blank. -/
  startedBlank : Bool

/-- Reads the lines of a block scalar that stand at column `indent`. -/
def blockLines (literal : Bool) (indent : Nat) : (fuel : Nat) → BlockLines → Read BlockLines
  | 0, lines => pure lines
  | fuel + 1, lines => do
    let r ← get
    if r.col ≠ indent || isEnd (← next) then return lines
    if indent = 0 && (← atIndicator '.') then return lines
    let blank := isGap (← next)
    let joined :=
      if !literal && lines.lastBreak ≠ [] && !lines.startedBlank && !blank then
        lines.text ++ (if lines.breaks = [] then [' '] else lines.breaks)
      else lines.text ++ lines.lastBreak ++ lines.breaks
    let line ← takeWhile (fun c => !isBreakOrEnd c)
    let text := joined ++ line
    if isEnd (← next) then return ⟨text, [], [], blank⟩
    let lastBreak ← lineBreak
    let breaks ← skipIndent indent ((← get).rest.length + 1) []
    blockLines literal indent fuel ⟨text, lastBreak, breaks, blank⟩

/-- Reads a block scalar from its indicator on. -/
def blockScalar (literal : Bool) : Read (List Char) := do
  let startLine := (← get).line
  skip 1
  dropUnmarked
  let (chomping, digit) ← blockHeader
  let _ ← skipGapAndComment true
  failIf (!isBreakOrEnd (← next))
  let firstBreak ← if isBreak (← next) then lineBreak else pure []
  failIf ((← next) = '\t')
  let r ← get
  let fuel := r.rest.length + 1
  let (indent, breaks) ←
    if digit > 0 then do
      let indent := if r.indent ≥ 0 then (r.indent + digit).toNat else digit
      let breaks ← skipIndent indent fuel []
      pure (indent, breaks)
    else do
      let (deepest, breaks) ← findIndent fuel 0 []
      let indent := max deepest (r.indent + 1).toNat
      pure (if r.indent > 0 then max indent 1 else indent, breaks)
  let r ← get
  if isEnd (← next) then
    return match chomping with
      | .strip => []
      | .clip => if r.line = startLine then [] else firstBreak
      | .keep =>
        if r.line = startLine then [] else if breaks = [] then firstBreak else breaks
  failIf (r.col < indent && r.col > r.indent)
  let lines ← blockLines literal indent fuel ⟨[], [], breaks, false⟩
  let r ← get
  let atEnd := isEnd (← next) && r.col ≥ max indent 1
  let tail :=
    match chomping with
    | .strip => []
    | .clip => lines.lastBreak ++ (if atEnd then ['\n'] else [])
    | .keep => lines.lastBreak ++ (if atEnd then ['\n'] else []) ++ lines.breaks
  return lines.text ++ tail

/-! ## Quoted scalars -/

/-- Reads a code of `count` digits to base 16. -/
def hexCode : (count : Nat) → Nat → Read Nat
  | 0, value => pure value
  | count + 1, value => do
    match hexValue? (← next) with
    | some d =>
      skip 1
      hexCode count (value * 16 + d)
    | none => fail

/-- Reads the character that an escape sequence stands for. -/
def escape : Read Char := do
  let c ← peek 1
  let plain (image : Char) : Read Char := do
    skip 2
    return image
  let code (count : Nat) : Read Char := do
    skip 2
    let n ← hexCode count 0
    match charOfNat? n with
    | some image => return image
    | none => fail
  match c with
  | '0' => plain '\x00'
  | 'a' => plain '\x07'
  | 'b' => plain '\x08'
  | 't' => plain '\t'
  | '\t' => plain '\t'
  | 'n' => plain '\n'
  | 'v' => plain '\x0b'
  | 'f' => plain '\x0c'
  | 'r' => plain '\r'
  | 'e' => plain '\x1b'
  | ' ' => plain ' '
  | '"' => plain '"'
  | '/' => plain '/'
  | '\\' => plain '\\'
  | 'N' => plain '\u0085'
  | '_' => plain '\u00A0'
  | 'L' => plain '\u2028'
  | 'P' => plain '\u2029'
  | 'x' => code 2
  | 'u' => code 4
  | 'U' => code 8
  | _ => fail

/-- Reads a quoted scalar's characters up to a blank, a break or the closing quote.  Tells whether
it stopped at an escaped line break.  `word` holds those read so far, the latest first. -/
def quotedWord (single : Bool) : (fuel : Nat) → List Char → Read (List Char × Bool)
  | 0, word => pure (word.reverse, false)
  | fuel + 1, word => do
    let c ← next
    let d ← peek 1
    if isGapOrEnd c then pure (word.reverse, false)
    else if single && c = '\'' then
      if d = '\'' then
        skip 2
        quotedWord single fuel ('\'' :: word)
      else pure (word.reverse, false)
    else if !single && c = '"' then pure (word.reverse, false)
    else if !single && c = '\\' then
      if isBreak d then
        skip 1
        skipBreak
        pure (word.reverse, true)
      else quotedWord single fuel ((← escape) :: word)
    else
      skip 1
      quotedWord single fuel (c :: word)

/-- Blanks and breaks between the words of a scalar. -/
structure Between where
  /-- Blanks on the line of the word before. -/
  blanks : List Char
  /-- The first break. -/
  firstBreak : List Char
  /-- The breaks after it. -/
  breaks : List Char
  /-- A break has been met. -/
  leading : Bool

/-- What the blanks and breaks between two words come to. -/
def Between.fold (b : Between) : List Char :=
  if b.leading then
    if b.firstBreak = [] then b.breaks
    else if b.breaks = [] then [' '] else b.breaks
  else b.blanks

/-- Reads blanks and breaks inside a quoted scalar. -/
def quotedBetween : (fuel : Nat) → Between → Read Between
  | 0, b => pure b
  | fuel + 1, b => do
    let c ← next
    if isGap c then
      if b.leading then
        let r ← get
        failIf (c = '\t' && r.col < r.indent)
        skipGap
        quotedBetween fuel b
      else
        skipGap
        quotedBetween fuel { b with blanks := b.blanks ++ [c] }
    else if isBreak c then
      let br ← lineBreak
      if b.leading then quotedBetween fuel { b with breaks := b.breaks ++ br }
      else quotedBetween fuel { b with blanks := [], firstBreak := br, leading := true }
    else pure b

/-- Reads the inside of a quoted scalar up to its closing quote. -/
def quotedLoop (single : Bool) : (fuel : Nat) → List Char → Read (List Char)
  | 0, _ => fail
  | fuel + 1, text => do
    failIf (← atAnyIndicator)
    failIf (isEnd (← next))
    let r ← get
    failIf (r.col < r.indent)
    let (word, broken) ← quotedWord single (r.rest.length + 1) []
    let c ← next
    if (single && c = '\'') || (!single && c = '"') then return text ++ word
    let between ← quotedBetween ((← get).rest.length + 1) ⟨[], [], [], broken⟩
    quotedLoop single fuel (text ++ word ++ between.fold)

/-- Reads a quoted scalar and what may follow it on its line. -/
def quotedScalar (single : Bool) : Read (List Char) := do
  let start ← get
  skip 1
  let text ← quotedLoop single (start.rest.length + 1) []
  skip 1
  let _ ← skipGapAndComment true
  let r ← get
  let c ← next
  let inFlow := r.flowDepth > 0
  if (c = ',' || c = '}' || c = ']') && inFlow then return text
  else if isBreakOrEnd c then return text
  else if c = ':' && (inFlow || start.line = r.line) then return text
  else fail

/-! ## Plain scalars -/

/-- Whether the next character can stand inside a plain scalar. -/
def canContinue : Read Bool := do
  let inFlow := (← get).flowDepth > 0
  let c ← next
  let d ← peek 1
  if c = ':' && (isGapOrEnd d || (inFlow && isFlow d)) then return false
  else return !(inFlow && isFlow c)

/-- Reads the characters of a plain scalar up to a blank, a break or what ends it.  `word` holds
those read so far, the latest first. -/
def plainWord : (fuel : Nat) → List Char → Read (List Char)
  | 0, word => pure word.reverse
  | fuel + 1, word => do
    let c ← next
    if isGapOrEnd c then pure word.reverse
    else if ← canContinue then
      skip 1
      plainWord fuel (c :: word)
    else pure word.reverse

/-- Reads blanks and breaks inside a plain scalar that is indented to `indent`. -/
def plainBetween (indent : Int) : (fuel : Nat) → Between → Read Between
  | 0, b => pure b
  | fuel + 1, b => do
    let r ← get
    let c ← next
    if isGap c then
      if !b.leading then
        skipGap
        plainBetween indent fuel { b with blanks := b.blanks ++ [c] }
      else if r.col < indent && c = '\t' then
        let _ ← skipGapAndComment true
        failIf (!isBreakOrEnd (← next))
        plainBetween indent fuel b
      else
        skipGap
        plainBetween indent fuel b
    else if isBreak c then
      let br ← lineBreak
      if b.leading then plainBetween indent fuel { b with breaks := b.breaks ++ br }
      else plainBetween indent fuel { b with blanks := [], firstBreak := br, leading := true }
    else pure b

/-- Reads a plain scalar word by word.  `before` is what stands between the words read so far and
the next one. -/
def plainLoop (indent : Int) : (fuel : Nat) → List Char → Between → Read (List Char × Bool)
  | 0, text, before => pure (text, before.leading)
  | fuel + 1, text, before => do
    if (← atAnyIndicator) || (← next) = '#' then return (text, before.leading)
    let r ← get
    failIf (r.flowDepth > 0 && (← next) = '-' && isFlow (← peek 1))
    let word ← plainWord (r.rest.length + 1) []
    let (text, before) :=
      if word = [] then (text, before) else (text ++ before.fold ++ word, ⟨[], [], [], false⟩)
    let c ← next
    if !(isGap c || isBreak c) then return (text, before.leading)
    let before ← plainBetween indent (r.rest.length + 1) before
    let r ← get
    if r.flowDepth = 0 && r.col < indent then return (text, before.leading)
    plainLoop indent fuel text before

def plainScalar : Read (List Char) := do
  dropUnmarked
  let r ← get
  let indent := r.indent + 1
  failIf (r.flowDepth > 0 && r.col < indent)
  let (text, leading) ← plainLoop indent (r.rest.length + 1) [] ⟨[], [], [], r.leading⟩
  modify fun r => { r with leading := leading }
  if leading then allowKey true
  return text

end StoreWarden.Yaml.Read
