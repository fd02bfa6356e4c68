import StoreWarden.Decimal.Binary64
import StoreWarden.Yaml.Lexer

/-!
# Nodes

What a text of the document language stands for: scalars with their types, sequences and mappings.
A mapping keeps its pairs in order and has no two equal keys.  A scalar whose tag does not fit its
text, and an alias to a node that is not complete yet, stand for nothing.
-/

namespace StoreWarden.Yaml

inductive Node where
  /-- Nothing, for want of a meaning. -/
  | void
  | null
  | boolean (b : Bool)
  | integer (n : Int)
  /-- A number with a fraction, known by its text. -/
  | real (text : String)
  | string (s : String)
  | sequence (items : List Node)
  | mapping (pairs : List (Node × Node))
deriving BEq

namespace Node

def isVoid : Node → Bool
  | .void => true
  | _ => false

/-! ## Types of plain scalars -/

/-- The value of digits to a base, if all are digits of it. -/
def digitsValue? (base : Nat) (cs : List Char) : Option Nat :=
  if cs = [] then none
  else
    cs.foldl
      (fun value c =>
        match value, hexValue? c with
        | some n, some d => if d < base then some (n * base + d) else none
        | _, _ => none)
      (some 0)

/-- Reads an integer of 64 bits, with an optional sign. -/
def integer? (base : Nat) (cs : List Char) : Option Int :=
  let (negative, ds) := Binary64.splitSign cs
  match digitsValue? base ds with
  | none => none
  | some n =>
    let value : Int := if negative then -n else n
    if -9223372036854775808 ≤ value && value ≤ 9223372036854775807 then some value else none

/-- Names of values beyond the finite numbers. -/
def beyondNames : List String :=
  [".inf", ".Inf", ".INF", "+.inf", "+.Inf", "+.INF", "-.inf", "-.Inf", "-.INF", ".nan", "NaN",
    ".NAN"]

/-- Whether a text is that of a number with a fraction. -/
def isReal (text : String) : Bool :=
  beyondNames.contains text || (Binary64.read? text.toList).isSome

/-- Reads an integer that is written with a base or a plus sign. -/
def markedInteger? : List Char → Option Int
  | '0' :: 'x' :: ds => integer? 16 ds
  | '0' :: 'o' :: ds => integer? 8 ds
  | '+' :: ds => integer? 10 ds
  | _ => none

/-- A plain scalar without a tag. -/
def ofPlain (text : String) : Node :=
  let cs := text.toList
  match markedInteger? cs with
  | some n => .integer n
  | none =>
    if text = "" || text = "~" || text = "null" then .null
    else if text = "true" then .boolean true
    else if text = "false" then .boolean false
    else
      match integer? 10 cs with
      | some n => .integer n
      | none => if isReal text then .real text else .string text

/-- The start of the tags that the language defines. -/
def coreStart : String := "tag:yaml.org,2002:"

/-- A plain scalar with a tag. -/
def ofTagged (start suffix text : String) : Node :=
  if start ≠ coreStart then .string text
  else if suffix = "bool" then
    if text = "true" then .boolean true
    else if text = "false" then .boolean false
    else .void
  else if suffix = "int" then
    match integer? 10 text.toList with
    | some n => .integer n
    | none => .void
  else if suffix = "float" then if isReal text then .real text else .void
  else if suffix = "null" then if text = "~" || text = "null" then .null else .void
  else .string text

end Node

/-! ## From tokens to nodes -/

/-- What is known while tokens are read. -/
structure Known where
  rest : List Token
  /-- The anchors of this document, the latest first. -/
  anchors : List (String × Nat)
  /-- The nodes that are complete, by the number of their anchor. -/
  nodes : List (Nat × Node)
  nextAnchor : Nat
  /-- The tag handles of this document. -/
  handles : List (String × String)

/-- A step of reading tokens. -/
abbrev Build := StateT Known (Except Malformed)

namespace Build

def fail {α : Type} : Build α := throw ⟨0, 0⟩

def peek : Build Token := do
  return (← get).rest.head?.getD .streamEnd

def skip : Build Unit := modify fun k => { k with rest := k.rest.drop 1 }

def resolveTag (handle suffix : String) : Build (String × String) := do
  let k ← get
  let declared (h : String) : Option String := k.handles.lookup h
  if handle = "!!" then return ((declared "!!").getD Node.coreStart, suffix)
  else if handle = "" && suffix = "!" then return ((declared "").getD "", suffix)
  else
    match declared handle with
    | some start => return (start, suffix)
    | none =>
      if handle.length ≥ 2 && handle.toList.getLast? = some '!' then fail
      else return (handle, suffix)

def newAnchor (name : String) : Build Nat := do
  let k ← get
  set { k with anchors := (name, k.nextAnchor) :: k.anchors, nextAnchor := k.nextAnchor + 1 }
  return k.nextAnchor

structure Properties where
  anchor : Option Nat
  tag : Option (String × String)

/-- Reads an anchor and a tag, in either order. -/
def properties : Build Properties := do
  match ← peek with
  | .anchor name =>
    skip
    let anchor ← newAnchor name
    match ← peek with
    | .tag handle suffix =>
      skip
      return ⟨some anchor, some (← resolveTag handle suffix)⟩
    | _ => return ⟨some anchor, none⟩
  | .tag handle suffix =>
    skip
    let tag ← resolveTag handle suffix
    match ← peek with
    | .anchor name =>
      skip
      return ⟨some (← newAnchor name), some tag⟩
    | _ => return ⟨none, some tag⟩
  | _ => return ⟨none, none⟩

def complete (p : Properties) (node : Node) : Build Node := do
  match p.anchor with
  | some id => modify fun k => { k with nodes := (id, node) :: k.nodes }
  | none => pure ()
  return node

/-- A mapping from its keys and values in turn.  A key that stands for nothing is passed over, so
that what follows it is taken for the key. -/
def mappingOf : Option Node → List (Node × Node) → List Node → Build Node
  | _, pairs, [] => return .mapping pairs.reverse
  | none, pairs, node :: rest =>
    mappingOf (if node.isVoid then none else some node) pairs rest
  | some key, pairs, node :: rest => do
    if pairs.any (·.1 == key) then fail
    mappingOf none ((key, node) :: pairs) rest

/-- A node of which only the anchor or the tag is there. -/
def bare (p : Properties) : Build Node :=
  match p.tag, p.anchor with
  | some (start, suffix), _ => complete p (.ofTagged start suffix "")
  | none, some _ => complete p (.ofPlain "")
  | none, none => fail

/-- Whether a token ends the place of a key or a value in a block mapping. -/
def endsBlockPlace : Token → Bool
  | .key => true
  | .value => true
  | .blockEnd => true
  | _ => false

mutual

/-- Reads a node.  A block collection may start only where `block` says so, and a sequence without
a level of its own only where `indentless` says so. -/
def node : (fuel : Nat) → (block indentless : Bool) → Build Node
  | 0, _, _ => fail
  | fuel + 1, block, indentless => do
    match ← peek with
    | .alias name =>
      skip
      let k ← get
      match k.anchors.lookup name with
      | none => fail
      | some id => return (k.nodes.lookup id).getD .void
    | _ =>
      let p ← properties
      match ← peek with
      | .blockEntry =>
        if indentless then complete p (.sequence (← indentlessItems fuel []))
        else bare p
      | .scalar plain text =>
        skip
        complete p (
          if !plain then .string text
          else
            match p.tag with
            | some (start, suffix) => .ofTagged start suffix text
            | none => .ofPlain text)
      | .flowSequenceStart =>
        skip
        complete p (.sequence (← flowItems fuel true []))
      | .flowMappingStart =>
        skip
        complete p (← mappingOf none [] (← flowPairs fuel true []))
      | .blockSequenceStart =>
        if block then
          skip
          complete p (.sequence (← blockItems fuel []))
        else bare p
      | .blockMappingStart =>
        if block then
          skip
          complete p (← mappingOf none [] (← blockPairs fuel []))
        else bare p
      | _ => bare p

/-- Reads the entries of a sequence that stands at its key's level. -/
def indentlessItems : (fuel : Nat) → List Node → Build (List Node)
  | 0, _ => fail
  | fuel + 1, items => do
    match ← peek with
    | .blockEntry =>
      skip
      let t ← peek
      if endsBlockPlace t || t = .blockEntry then indentlessItems fuel (.null :: items)
      else indentlessItems fuel ((← node fuel true false) :: items)
    | _ => return items.reverse

def blockItems : (fuel : Nat) → List Node → Build (List Node)
  | 0, _ => fail
  | fuel + 1, items => do
    match ← peek with
    | .blockEnd =>
      skip
      return items.reverse
    | .blockEntry =>
      skip
      let t ← peek
      if t = .blockEntry || t = .blockEnd then blockItems fuel (.null :: items)
      else blockItems fuel ((← node fuel true false) :: items)
    | _ => fail

/-- Reads the keys and values of a block mapping in turn, the latest first in `seen`. -/
def blockPairs : (fuel : Nat) → List Node → Build (List Node)
  | 0, _ => fail
  | fuel + 1, seen => do
    match ← peek with
    | .key =>
      skip
      if endsBlockPlace (← peek) then blockValue fuel (.null :: seen)
      else blockValue fuel ((← node fuel true true) :: seen)
    | .value => blockValue fuel (.null :: seen)
    | .blockEnd =>
      skip
      return seen.reverse
    | _ => fail

/-- Reads the value of a block mapping's key, and on. -/
def blockValue : (fuel : Nat) → List Node → Build (List Node)
  | 0, _ => fail
  | fuel + 1, seen => do
    match ← peek with
    | .value =>
      skip
      if endsBlockPlace (← peek) then blockPairs fuel (.null :: seen)
      else blockPairs fuel ((← node fuel true true) :: seen)
    | _ => blockPairs fuel (.null :: seen)

def flowItems : (fuel : Nat) → (first : Bool) → List Node → Build (List Node)
  | 0, _, _ => fail
  | fuel + 1, first, items => do
    let t ← peek
    if t = .flowSequenceEnd then
      skip
      return items.reverse
    if !first then
      if t = .flowEntry then skip else fail
    match ← peek with
    | .flowSequenceEnd =>
      skip
      return items.reverse
    | .key =>
      skip
      let pair ← flowPair fuel
      flowItems fuel false ((← mappingOf none [] pair) :: items)
    | _ => flowItems fuel false ((← node fuel false false) :: items)

/-- Reads the key and the value of a pair that is an entry of a flow sequence. -/
def flowPair : (fuel : Nat) → Build (List Node)
  | 0 => fail
  | fuel + 1 => do
    let t ← peek
    let key ←
      if t = .value || t = .flowEntry || t = .flowSequenceEnd then do
        skip
        pure Node.null
      else node fuel false false
    match ← peek with
    | .value =>
      skip
      let t ← peek
      if t = .flowEntry || t = .flowSequenceEnd then return [key, .null]
      else return [key, ← node fuel false false]
    | _ => return [key, .null]

/-- Reads the keys and values of a flow mapping in turn, the latest first in `seen`. -/
def flowPairs : (fuel : Nat) → (first : Bool) → List Node → Build (List Node)
  | 0, _, _ => fail
  | fuel + 1, first, seen => do
    let t ← peek
    if t = .flowMappingEnd then
      skip
      return seen.reverse
    if !first then
      if t = .flowEntry then skip else fail
    match ← peek with
    | .key =>
      skip
      let t ← peek
      if t = .value || t = .flowEntry || t = .flowMappingEnd then flowValue fuel (.null :: seen)
      else flowValue fuel ((← node fuel false false) :: seen)
    | .value => flowValue fuel (.null :: seen)
    | .flowMappingEnd =>
      skip
      return seen.reverse
    | _ => flowPairs fuel false (.null :: (← node fuel false false) :: seen)

/-- Reads the value of a flow mapping's key, and on. -/
def flowValue : (fuel : Nat) → List Node → Build (List Node)
  | 0, _ => fail
  | fuel + 1, seen => do
    match ← peek with
    | .value =>
      skip
      let t ← peek
      if t = .flowEntry || t = .flowMappingEnd then flowPairs fuel false (.null :: seen)
      else flowPairs fuel false ((← node fuel false false) :: seen)
    | _ => flowPairs fuel false (.null :: seen)

end

/-- Reads directives.  Of several tag directives the last one holds. -/
def directives : (fuel : Nat) → (version : Bool) → Build Unit
  | 0, _ => fail
  | fuel + 1, version => do
    match ← peek with
    | .versionDirective =>
      if version then fail
      modify fun k => { k with handles := [] }
      skip
      directives fuel true
    | .tagDirective handle start =>
      modify fun k => { k with handles := [(handle, start)] }
      skip
      directives fuel version
    | _ => pure ()

def skipDocumentEnds : (fuel : Nat) → Build Unit
  | 0 => pure ()
  | fuel + 1 => do
    if (← peek) = .documentEnd then
      skip
      skipDocumentEnds fuel

/-- Whether a token cannot belong to a document's content. -/
def endsDocument : Token → Bool
  | .versionDirective => true
  | .tagDirective .. => true
  | .documentStart => true
  | .documentEnd => true
  | .streamEnd => true
  | _ => false

/-- Reads documents to the end of the tokens; the next one may start without a mark only if
`implicit` says so. -/
def documents : (fuel : Nat) → (implicit : Bool) → List Node → Build (List Node)
  | 0, _, _ => fail
  | fuel + 1, implicit, docs => do
    skipDocumentEnds (fuel + 1)
    let t ← peek
    if t = .streamEnd then return docs.reverse
    let marked :=
      match t with
      | .versionDirective => true
      | .tagDirective .. => true
      | .documentStart => true
      | _ => !implicit
    modify fun k => { k with anchors := [] }
    if marked then
      directives (fuel + 1) false
      if (← peek) = .documentStart then skip else fail
    let doc ←
      if marked && endsDocument (← peek) then pure Node.null
      else node (4 * (← get).rest.length + 16) true false
    modify fun k => { k with handles := [] }
    let t ← peek
    if t = .documentEnd then
      skip
      documents fuel true (doc :: docs)
    else
      match t with
      | .versionDirective => fail
      | .tagDirective .. => fail
      | _ => documents fuel false (doc :: docs)

end Build

def documentsOf (text : List Char) : Except Malformed (List Node) := do
  let tokens ← tokensOf text
  let start : Known := ⟨tokens, [], [], 1, []⟩
  let (docs, _) ← (Build.documents (tokens.length + 2) true []).run start
  return docs

end StoreWarden.Yaml
