import StoreWarden.Text.Quoted
import StoreWarden.Text.Utf8

/-!
# Malformed armoured text

What can be wrong with the base64 text of a block, and with the lines around it.
-/

namespace StoreWarden

inductive Base64Fault where
  /-- A byte outside the alphabet. -/
  | character (byte : UInt8)
  /-- Padding before the last group. -/
  | earlyPadding
  /-- Padding that does not complete the last group. -/
  | trailingPadding
deriving DecidableEq, Repr

def Base64Fault.message : Base64Fault → String
  | .character byte => "InvalidCharacter(" ++ toString byte.toNat ++ ")"
  | .earlyPadding => "PrematurePadding"
  | .trailingPadding => "InvalidTrailingPadding"

namespace Pem

/-- What is wrong with a file of armoured blocks. -/
inductive Fault where
  /-- The line that would end the block with this label is missing. -/
  | unclosed (label : Bytes)
  /-- A line starts a block and does not close its dashes. -/
  | badStart (line : Bytes)
  /-- The block does not hold base64 text. -/
  | badBase64 (fault : Base64Fault)
deriving DecidableEq, Repr

def Fault.message : Fault → String
  | .unclosed label => "section end " ++ Text.quoted label.toStringLossy ++ " missing"
  | .badStart line => "illegal section start: " ++ Text.quoted line.toStringLossy
  | .badBase64 fault => fault.message

end Pem

end StoreWarden
