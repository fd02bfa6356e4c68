import StoreWarden.Yaml.Scalar

/-!
# From text to tokens

The next token is chosen by the character that stands at the current place.  Where a colon shows
that an earlier token was a key, the tokens that say so are put in before it.
-/

namespace StoreWarden.Yaml.Read

/-! ## Names, tags and directives -/

/-- How many bytes a character takes whose first byte is this, if it is a first byte. -/
def byteWidth? (byte : Nat) : Option Nat :=
  if byte < 0x80 then some 1
  else if byte < 0xC0 then none
  else if byte < 0xE0 then some 2
  else if byte < 0xF0 then some 3
  else if byte < 0xF8 then some 4
  else none

/-- Reads one byte written as a percent sign and two digits to base 16. -/
def escapedByte : Read Nat := do
  let c ← next
  let a ← peek 1
  let b ← peek 2
  match c, hexValue? a, hexValue? b with
  | '%', some high, some low =>
    skip 3
    return high * 16 + low
  | _, _, _ => fail

/-- Reads the further bytes of an escaped character. -/
def escapedTail : (count : Nat) → Nat → Read Nat
  | 0, code => pure code
  | count + 1, code => do
    let byte ← escapedByte
    failIf (byte / 64 ≠ 2)
    escapedTail count (code * 256 + byte)

/-- Reads a character of an address that is written byte by byte. -/
def escapedChar : Read Char := do
  let byte ← escapedByte
  match byteWidth? byte with
  | none => fail
  | some width =>
    let code ← escapedTail (width - 1) byte
    match charOfNat? code with
    | some c => return c
    | none => fail

/-- Reads characters of a class, some of which may be escaped. -/
def addressChars (class' : Char → Bool) : (fuel : Nat) → List Char → Read (List Char)
  | 0, cs => pure cs.reverse
  | fuel + 1, cs => do
    let c ← next
    if !class' c then pure cs.reverse
    else if c = '%' then addressChars class' fuel ((← escapedChar) :: cs)
    else
      skip 1
      addressChars class' fuel (c :: cs)

/-- `addressChars` from the current place. -/
def address (class' : Char → Bool) : Read (List Char) := do
  addressChars class' ((← get).rest.length + 1) []

def tagHandle (directive : Bool) : Read (List Char) := do
  failIf ((← next) ≠ '!')
  skip 1
  let name ← takeWhile isNameChar
  if (← next) = '!' then
    skip 1
    return '!' :: name ++ ['!']
  else
    failIf (directive && name ≠ [])
    return '!' :: name

/-- Reads the address that a tag directive gives for a handle. -/
def tagStart : Read (List Char) := do
  let c ← next
  let first ←
    if c = '!' then do
      skip 1
      pure c
    else if !isTagChar c then fail
    else if c = '%' then escapedChar
    else do
      skip 1
      pure c
  return first :: (← address isAddressChar)

def skipGaps : Read Unit := do
  let r ← get
  let n := (r.rest.takeWhile isGap).length
  set { r with rest := r.rest.drop n, index := r.index + n, col := r.col + n }

def tag : Read Token := do
  let (handle, suffix) ←
    if (← peek 1) = '<' then do
      skip 2
      let suffix ← address isAddressChar
      failIf ((← next) ≠ '>')
      skip 1
      pure ([], suffix)
    else do
      let handle ← tagHandle false
      if handle.length ≥ 2 && handle.getLast? = some '!' then do
        let suffix ← address isTagChar
        failIf (suffix = [])
        pure (handle, suffix)
      else do
        let suffix := handle.drop 1 ++ (← address isTagChar)
        pure (if suffix = [] then ([], ['!']) else (['!'], suffix))
  let c ← next
  failIf (!(isGapOrEnd c || ((← get).flowDepth > 0 && isFlow c)))
  return .tag (String.ofList handle) (String.ofList suffix)

def versionNumber : Read Unit := do
  let ds ← takeWhile isDigit
  failIf (ds = [] || ds.length > 9)

def directive : Read Token := do
  skip 1
  let name ← takeWhile isNameChar
  failIf (name = [] || !isGapOrEnd (← next))
  let token ←
    if name = "YAML".toList then do
      skipGaps
      versionNumber
      failIf ((← next) ≠ '.')
      skip 1
      versionNumber
      pure Token.versionDirective
    else if name = "TAG".toList then do
      skipGaps
      let handle ← tagHandle true
      skipGaps
      let start ← tagStart
      failIf (!isGapOrEnd (← next))
      pure (Token.tagDirective (String.ofList handle) (String.ofList start))
    else do
      skipLine
      pure (Token.tagDirective "" "")
  let _ ← skipGapAndComment true
  failIf (!isBreakOrEnd (← next))
  skipBreak
  return token

def anchorName : Read String := do
  skip 1
  let name ← takeWhile isAnchorChar
  failIf (name = [])
  return String.ofList name

/-! ## Structure -/

/-- Reads a token that may be a key itself, by `body`. -/
def node (allowAfter : Bool) (body : Read Token) : Read Unit := do
  saveKey
  allowKey allowAfter
  let r ← get
  let token ← body
  emitAt token r.line r.col

/-- Ends a mapping of one pair that stands in a flow sequence without braces. -/
def endImpliedMapping : Read Unit := do
  let r ← get
  if r.impliedMapping then
    set { r with impliedMapping := false, inFlowMapping := false }
    emit .flowMappingEnd

def maxFlowDepth : Nat := 255

def flowStart (mapping : Bool) : Read Unit := do
  saveKey
  openOneColumn
  failIf ((← get).flowDepth ≥ maxFlowDepth)
  modify fun r => { r with keys := PossibleKey.none :: r.keys, flowDepth := r.flowDepth + 1 }
  allowKey true
  let r ← get
  skip 1
  if mapping then modify fun r => { r with inFlowMapping := true }
  let _ ← skipGapAndComment true
  emitAt (if mapping then .flowMappingStart else .flowSequenceStart) r.line r.col

def flowEnd (mapping : Bool) : Read Unit := do
  dropKey
  modify fun r =>
    if r.flowDepth > 0 then { r with flowDepth := r.flowDepth - 1, keys := r.keys.drop 1 } else r
  allowKey false
  endImpliedMapping
  let r ← get
  skip 1
  let _ ← skipGapAndComment true
  modify fun r => if r.flowDepth > 0 then { r with adjacentAt := r.index } else r
  emitAt (if mapping then .flowMappingEnd else .flowSequenceEnd) r.line r.col

/-- Reads a comma between the entries of a flow collection. -/
def flowEntry : Read Unit := do
  dropKey
  allowKey true
  endImpliedMapping
  let r ← get
  skip 1
  let _ ← skipGapAndComment true
  emitAt .flowEntry r.line r.col

/-- Whether a token belongs to the node after it. -/
def isNodeProperty : Token → Bool
  | .anchor _ => true
  | .tag .. => true
  | _ => false

/-- Reads the hyphen of a block sequence's entry. -/
def blockEntry : Read Unit := do
  let r ← get
  failIf (r.flowDepth > 0 || !r.keyAllowed)
  match r.tokens.back? with
  | some last =>
    failIf (isNodeProperty last.token && r.col = 0 && last.col = 0 && r.indent > -1)
  | none => pure ()
  skip 1
  openIndent r.col none .blockSequenceStart r.line r.col
  let gap ← skipGapAndComment true
  failIf (gap.tab && (← next) = '-' && isGapOrEnd (← peek 1))
  let _ ← skipGapAndComment false
  let c ← next
  if isBreak c || isFlow c then openOneColumn
  dropKey
  allowKey true
  emit .blockEntry

/-- Moves over blanks, breaks and comments; there must be at least one blank or break. -/
def skipWhite : (fuel : Nat) → (seen : Bool) → Read Unit
  | 0, seen => failIf (!seen)
  | fuel + 1, seen => do
    let c ← next
    if c = ' ' then
      skipGap
      skipWhite fuel true
    else if isBreak c then
      skipBreak
      if (← get).flowDepth = 0 then allowKey true
      skipWhite fuel true
    else if c = '#' then
      skipLine
      skipWhite fuel seen
    else failIf (!seen)

def explicitKey : Read Unit := do
  let r ← get
  if r.flowDepth = 0 then
    failIf (!r.keyAllowed)
    openIndent r.col none .blockMappingStart r.line r.col
  else modify fun r => { r with inFlowMapping := true }
  dropKey
  allowKey ((← get).flowDepth = 0)
  skip 1
  skipWhite ((← get).rest.length + 1) false
  failIf ((← next) = '\t')
  emitAt .key r.line r.col

def mappingValue : Read Unit := do
  let start ← get
  let candidate := start.keys.head?.getD PossibleKey.none
  let implied := start.flowDepth > 0 && !start.inFlowMapping
  modify fun r => { r with impliedMapping := implied }
  skip 1
  if (← next) = '\t' then
    let gap ← skipGapAndComment true
    let c ← next
    failIf (!gap.space && (c = '-' || isNameChar c))
  if candidate.possible then
    insertAt candidate.position .key candidate.line candidate.col
    if implied then
      failIf (candidate.line < start.line)
      let r ← get
      insertAt candidate.position .flowMappingStart r.line r.col
    openIndent candidate.col (some candidate.position) .blockMappingStart start.line start.col
    openOneColumn
    modify fun r =>
      { r with keys := { candidate with possible := false } :: r.keys.drop 1 }
    allowKey false
  else
    if implied then emit .flowMappingStart
    let inBlock := start.flowDepth = 0
    if inBlock then
      failIf (!(← get).keyAllowed)
      openIndent start.col none .blockMappingStart start.line start.col
    openOneColumn
    allowKey inBlock
  emitAt .value start.line start.col

/-- Reads the mark that starts or ends a document. -/
def documentMark (token : Token) : Read Unit := do
  closeIndents (-1)
  dropKey
  allowKey false
  let r ← get
  skip 3
  emitAt token r.line r.col

def streamEnd : Read Unit := do
  modify fun r => if r.col = 0 then r else { r with col := 0, line := r.line + 1 }
  let r ← get
  failIf (r.keys.any fun k => k.required && k.possible)
  modify fun r => { r with keys := r.keys.map fun k => { k with possible := false } }
  closeIndents (-1)
  dropKey
  allowKey false
  emit .streamEnd

/-- Moves over blanks, breaks and comments to the next token. -/
def skipToToken : (fuel : Nat) → Read Unit
  | 0 => pure ()
  | fuel + 1 => do
    let r ← get
    let c ← next
    if c = '\t' && r.indents.length > 0 && r.leading && r.col < r.indent then
      let _ ← skipGapAndComment true
      failIf (!isBreakOrEnd (← next))
      skipToToken fuel
    else if isGap c then
      skipGap
      skipToToken fuel
    else if isBreak c then
      skipBreak
      if r.flowDepth = 0 then allowKey true
      skipToToken fuel
    else if c = '#' then
      skipLine
      skipToToken fuel

/-- Reads a quoted scalar; a colon may follow it at once. -/
def quotedNode (single : Bool) : Read Unit := do
  saveKey
  allowKey false
  let r ← get
  let text ← quotedScalar single
  skipToToken ((← get).rest.length + 1)
  modify fun r => { r with adjacentAt := r.index }
  emitAt (.scalar false (String.ofList text)) r.line r.col

def plainNode : Read Unit :=
  node false do
    return .scalar true (String.ofList (← plainScalar))

def blockNode (literal : Bool) : Read Unit :=
  node true do
    return .scalar false (String.ofList (← blockScalar literal))

/-- Reads the next token, and tells whether the text has ended. -/
def token : Read Bool := do
  skipToToken ((← get).rest.length + 1)
  dropStaleKeys
  closeIndents (← column)
  let r ← get
  let c ← next
  let d ← peek 1
  let inFlow := r.flowDepth > 0
  if isEnd c then
    streamEnd
    return true
  else
    if r.col = 0 && c = '%' then
      closeIndents (-1)
      dropKey
      allowKey false
      let t ← directive
      emitAt t r.line r.col
    else if ← atIndicator '-' then documentMark .documentStart
    else if ← atIndicator '.' then
      documentMark .documentEnd
      let _ ← skipGapAndComment true
      failIf (!isBreakOrEnd (← next))
    else
      failIf (r.col < r.indent)
      if c = '[' then flowStart false
      else if c = '{' then flowStart true
      else if c = ']' then flowEnd false
      else if c = '}' then flowEnd true
      else if c = ',' then flowEntry
      else if c = '-' && isGapOrEnd d then blockEntry
      else if c = '?' && isGapOrEnd d then explicitKey
      else if c = ':' && (isGapOrEnd d || (inFlow && (isFlow d || r.index = r.adjacentAt))) then
        mappingValue
      else if c = '*' then node false do return .alias (← anchorName)
      else if c = '&' then node false do return .anchor (← anchorName)
      else if c = '!' then node false tag
      else if c = '|' && !inFlow then blockNode true
      else if c = '>' && !inFlow then blockNode false
      else if c = '\'' then quotedNode true
      else if c = '"' then quotedNode false
      else if c = '-' then plainNode
      else if (c = ':' || c = '?') && !inFlow then plainNode
      else if c = '%' || c = '@' || c = '`' then fail
      else plainNode
    return false

def allTokens : (fuel : Nat) → Read Unit
  | 0 => fail
  | fuel + 1 => do
    if ← token then pure () else allTokens fuel

end StoreWarden.Yaml.Read

namespace StoreWarden.Yaml

def tokensOf (text : List Char) : Except Malformed (List Token) := do
  let (_, r) ← (Read.allTokens (text.length + 2)).run (Reader.start text)
  return r.tokens.toList.map (·.token)

end StoreWarden.Yaml
