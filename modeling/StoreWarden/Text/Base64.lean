import StoreWarden.Pem.Fault

/-!
# Base64

Four characters of an alphabet of 64 stand for three bytes.  A last group of two or three
characters stands for one or two bytes, and is filled up to four with padding, which may be
missing.  Readers differ in what else they tolerate; that is told by `Base64.Rules`.
-/

namespace StoreWarden.Base64

def value? (c : UInt8) : Option Nat :=
  let n := c.toNat
  if 65 ≤ n ∧ n ≤ 90 then some (n - 65)
  else if 97 ≤ n ∧ n ≤ 122 then some (n - 71)
  else if 48 ≤ n ∧ n ≤ 57 then some (n + 4)
  else if n = 43 then some 62
  else if n = 47 then some 63
  else none

def pad : UInt8 := '='.toUInt8

def isBlank (b : UInt8) : Bool := b = 9 || b = 10 || b = 13 || b = 32

/-- What a reader tolerates. -/
structure Rules where
  /-- Blanks between the characters. -/
  blanks : Bool
  /-- Some of the padding without the rest. -/
  partialPadding : Bool
  /-- Bits of the last group that belong to no byte and are not zero. -/
  looseBits : Bool

/-- The bytes of a last group, if the bits that are left may be. -/
def lastGroup (r : Rules) : List Nat → Except Base64Fault Bytes
  | [] => .ok []
  | [a, b] =>
    if r.looseBits || b % 16 = 0 then .ok [UInt8.ofNat (a * 4 + b / 16)]
    else .error .trailingPadding
  | [a, b, c] =>
    if r.looseBits || c % 4 = 0 then
      .ok [UInt8.ofNat (a * 4 + b / 16), UInt8.ofNat (b % 16 * 16 + c / 4)]
    else .error .trailingPadding
  | _ => .error .trailingPadding

/-- The bytes of characters without padding. -/
def groups (r : Rules) : List Nat → Except Base64Fault Bytes
  | a :: b :: c :: d :: rest =>
    (groups r rest).map fun more =>
      UInt8.ofNat (a * 4 + b / 16) :: UInt8.ofNat (b % 16 * 16 + c / 4) ::
        UInt8.ofNat (c % 4 * 64 + d) :: more
  | last => lastGroup r last

/-- Whether this much padding may follow this many characters. -/
def paddingFits (r : Rules) (characters pads : Nat) : Bool :=
  pads = 0 || (characters + pads) % 4 = 0 && characters % 4 ≠ 1 && pads ≤ 2 ||
    r.partialPadding && characters % 4 ≥ 2 && characters % 4 + pads ≤ 4

def decode (r : Rules) (text : Bytes) : Except Base64Fault Bytes :=
  let text := if r.blanks then text.filter (!isBlank ·) else text
  match text.find? fun b => b ≠ pad && (value? b).isNone with
  | some b => .error (.character b)
  | none =>
    let body := text.takeWhile (· ≠ pad)
    let tail := text.dropWhile (· ≠ pad)
    if tail.any (· ≠ pad) then .error .earlyPadding
    else if paddingFits r body.length tail.length then groups r (body.filterMap value?)
    else .error .trailingPadding

end StoreWarden.Base64
