/-!
# Tokens of the document language

What a document's text is cut into, and the classes of characters that decide where.  The end of
the text and a zero character read alike.
-/

namespace StoreWarden.Yaml

structure Malformed where
  line : Nat
  col : Nat
deriving DecidableEq, Repr

inductive Token where
  | versionDirective
  | tagDirective (handle start : String)
  | documentStart
  | documentEnd
  | blockSequenceStart
  | blockMappingStart
  | blockEnd
  | flowSequenceStart
  | flowSequenceEnd
  | flowMappingStart
  | flowMappingEnd
  | blockEntry
  | flowEntry
  | key
  | value
  | alias (name : String)
  | anchor (name : String)
  | tag (handle suffix : String)
  | scalar (plain : Bool) (text : String)
  | streamEnd
deriving DecidableEq, Repr

/-- A token and the column at which it stands. -/
structure Placed where
  token : Token
  col : Nat
  line : Nat

def isBreak (c : Char) : Bool := c = '\n' || c = '\r'

def isEnd (c : Char) : Bool := c = '\x00'

def isBreakOrEnd (c : Char) : Bool := isBreak c || isEnd c

def isGap (c : Char) : Bool := c = ' ' || c = '\t'

def isGapOrEnd (c : Char) : Bool := isGap c || isBreakOrEnd c

def isDigit (c : Char) : Bool := '0' ≤ c && c ≤ '9'

/-- A letter, a digit, an underscore or a hyphen. -/
def isNameChar (c : Char) : Bool := c.isAlpha || isDigit c || c = '_' || c = '-'

/-- A character that separates or encloses the parts of a flow collection. -/
def isFlow (c : Char) : Bool := c = ',' || c = '[' || c = ']' || c = '{' || c = '}'

def isAnchorChar (c : Char) : Bool :=
  !isBreak c && c.toNat ≠ 0xFEFF && !isGap c && !isFlow c && !isEnd c

def isAddressChar (c : Char) : Bool :=
  (isNameChar c && c ≠ '_') || "#;/?:@&=+$,_.!~*'()[]%".toList.contains c

def isTagChar (c : Char) : Bool := isAddressChar c && !isFlow c && c ≠ '!'

def hexValue? (c : Char) : Option Nat :=
  if isDigit c then some (c.toNat - '0'.toNat)
  else if 'a' ≤ c && c ≤ 'f' then some (c.toNat - 'a'.toNat + 10)
  else if 'A' ≤ c && c ≤ 'F' then some (c.toNat - 'A'.toNat + 10)
  else none

/-- The character with a number, if there is one. -/
def charOfNat? (n : Nat) : Option Char := if n.isValidChar then some (Char.ofNat n) else none

end StoreWarden.Yaml
