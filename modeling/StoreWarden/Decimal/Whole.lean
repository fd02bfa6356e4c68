/-!
# Whole numbers between bounds

A whole number is a sign and decimal digits, and nothing else.  It is read digit by digit: the
first character that is no digit, or the first digit that takes the number out of its bounds,
ends the reading.  A minus sign is known only where numbers below zero are.
-/

namespace StoreWarden.Decimal

/-- Why a text is not a whole number between the bounds. -/
inductive WholeFault where
  | empty
  | notDigit
  | tooLarge
  | tooSmall
  /-- A number, but not of a narrower kind. -/
  | outside (value least greatest : Int)
deriving DecidableEq, Repr

def WholeFault.message : WholeFault → String
  | .empty => "cannot parse integer from empty string"
  | .notDigit => "invalid digit found in string"
  | .tooLarge => "number too large to fit in target type"
  | .tooSmall => "number too small to fit in target type"
  | .outside value least greatest =>
    toString value ++ " is not in " ++ toString least ++ "..=" ++ toString greatest

def digit? (c : Char) : Option Nat := if c.isDigit then some (c.toNat - '0'.toNat) else none

/-- Reads digits onto a value, which never goes beyond `greatest`. -/
def readDigits (greatest : Nat) (overflow : WholeFault) : Nat → List Char → Except WholeFault Nat
  | value, [] => .ok value
  | value, c :: rest =>
    match digit? c with
    | none => .error .notDigit
    | some d =>
      if value * 10 + d > greatest then .error overflow
      else readDigits greatest overflow (value * 10 + d) rest

/-- Reads a number from 0 to `greatest`. -/
def readNat (greatest : Nat) (text : String) : Except WholeFault Nat :=
  match text.toList with
  | [] => .error .empty
  | ['+'] => .error .notDigit
  | '+' :: digits | digits => readDigits greatest .tooLarge 0 digits

/-- Reads a number from `-least` to `greatest`. -/
def readInt (least greatest : Nat) (text : String) : Except WholeFault Int :=
  match text.toList with
  | [] => .error .empty
  | ['+'] | ['-'] => .error .notDigit
  | '-' :: digits => (readDigits least .tooSmall 0 digits).map fun n => -Int.ofNat n
  | '+' :: digits | digits => (readDigits greatest .tooLarge 0 digits).map Int.ofNat

/-- The greatest number of 64 bits with a sign. -/
def greatestSigned : Nat := Nat.pow 2 63 - 1

/-- Reads a number of 16 bits, as one of 64 bits with a sign that lies within them. -/
def readUInt16 (text : String) : Except WholeFault UInt16 :=
  match readInt (greatestSigned + 1) greatestSigned text with
  | .error fault => .error fault
  | .ok n =>
    if 0 ≤ n ∧ n ≤ 65535 then .ok (UInt16.ofNat n.toNat) else .error (.outside n 0 65535)

def readUInt64 (text : String) : Except WholeFault UInt64 :=
  (readNat (UInt64.size - 1) text).map UInt64.ofNat

end StoreWarden.Decimal
