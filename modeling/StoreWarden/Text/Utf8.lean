/-!
# UTF-8

Bytes to characters and back.  Decoding runs one byte at a time; a byte that cannot continue the
character begun so far ends it as malformed and is then taken as a first byte itself, so every
longest well-started piece of a malformed sequence counts once.
-/

namespace StoreWarden

abbrev Bytes := List UInt8

namespace Text.Utf8

/-- A character of which some bytes are still owed: how many, the range of the next one, and the
bits read so far. -/
structure Pending where
  owed : Nat
  low : Nat
  high : Nat
  bits : Nat

/-- What a first byte means: a whole character, the start of one, or neither. -/
inductive First where
  | whole (c : Char)
  | start (p : Pending)
  | malformed

def first (byte : UInt8) : First :=
  let b := byte.toNat
  if b < 0x80 then .whole (Char.ofNat b)
  else if b < 0xC2 then .malformed
  else if b < 0xE0 then .start ⟨1, 0x80, 0xBF, b - 0xC0⟩
  else if b = 0xE0 then .start ⟨2, 0xA0, 0xBF, 0⟩
  else if b = 0xED then .start ⟨2, 0x80, 0x9F, 0xD⟩
  else if b < 0xF0 then .start ⟨2, 0x80, 0xBF, b - 0xE0⟩
  else if b = 0xF0 then .start ⟨3, 0x90, 0xBF, 0⟩
  else if b < 0xF4 then .start ⟨3, 0x80, 0xBF, b - 0xF0⟩
  else if b = 0xF4 then .start ⟨3, 0x80, 0x8F, 4⟩
  else .malformed

/-- The pieces read from a first byte on: characters, and `none` for a malformed piece. -/
def afterFirst (byte : UInt8) : List (Option Char) × Option Pending :=
  match first byte with
  | .whole c => ([some c], none)
  | .start p => ([], some p)
  | .malformed => ([none], none)

/-- One byte: the pieces it ends, and the character it leaves open. -/
def step (pending : Option Pending) (byte : UInt8) : List (Option Char) × Option Pending :=
  match pending with
  | none => afterFirst byte
  | some p =>
    let b := byte.toNat
    if p.low ≤ b && b ≤ p.high then
      let bits := p.bits * 64 + (b - 0x80)
      if p.owed ≤ 1 then ([some (Char.ofNat bits)], none)
      else ([], some ⟨p.owed - 1, 0x80, 0xBF, bits⟩)
    else
      let (pieces, next) := afterFirst byte
      (none :: pieces, next)

/-- The pieces of a byte sequence, after `pending`. -/
def piecesFrom : Option Pending → Bytes → List (Option Char)
  | none, [] => []
  | some _, [] => [none]
  | pending, b :: rest =>
    let (pieces, next) := step pending b
    pieces ++ piecesFrom next rest

/-- The pieces of a byte sequence: its characters, with `none` for each malformed piece. -/
def pieces (bytes : Bytes) : List (Option Char) := piecesFrom none bytes

/-- The text the bytes spell, if all of them are well formed. -/
def decode? (bytes : Bytes) : Option (List Char) := (pieces bytes).mapM id

/-- The text the bytes spell, with U+FFFD for every malformed piece. -/
def decodeLossy (bytes : Bytes) : List Char := (pieces bytes).map (·.getD '\uFFFD')

/-- The characters before the first byte that belongs to none. -/
def decodeStart (bytes : Bytes) : List Char := (pieces bytes).takeWhile (·.isSome) |>.filterMap id

def encode (cs : List Char) : Bytes := cs.flatMap String.utf8EncodeChar

end Text.Utf8

def Bytes.ofString (s : String) : Bytes := Text.Utf8.encode s.toList

/-- The string a byte sequence spells, if it is well formed. -/
def Bytes.toString? (bytes : Bytes) : Option String := (Text.Utf8.decode? bytes).map String.ofList

/-- The string a byte sequence spells, with U+FFFD for every malformed piece. -/
def Bytes.toStringLossy (bytes : Bytes) : String := String.ofList (Text.Utf8.decodeLossy bytes)

end StoreWarden
