import StoreWarden.Der

/-!
# Public keys and certificates

A certificate is looked at from outside only: that it has the parts of one, and which public key
it is for.
-/

namespace StoreWarden.Tls

/-- A public key: the algorithm it is for and its bits. -/
structure PublicKey where
  algorithm : Bytes
  bits : Bytes
deriving DecidableEq, Repr

def PublicKey.ofContent? (content : Bytes) : Option PublicKey :=
  match Der.readAll? content with
  | some [algorithm, bits] =>
    if algorithm.tag = Der.sequence && bits.tag = Der.bitString then
      some ⟨algorithm.content, bits.content⟩
    else none
  | _ => none

namespace Certificate

/-- Whether values have these tags, one after the other. -/
def haveTags (items : List Der.Item) (tags : List UInt8) : Bool := items.map (·.tag) = tags

/-- The parts of what is signed after the version: serial number, algorithm, issuer, validity,
subject and public key. -/
def partTags : List UInt8 :=
  [Der.integer, Der.sequence, Der.sequence, Der.sequence, Der.sequence, Der.sequence]

/-- The public key in what is signed.  A version may stand in front and extensions at the end. -/
def subjectKey? (content : Bytes) : Option PublicKey := do
  let items ← Der.readAll? content
  let items :=
    match items with
    | first :: rest => if first.tag = Der.part 0 then rest else first :: rest
    | [] => []
  if haveTags (items.take 6) partTags && (items.drop 6).all (·.tag = Der.part 3) then
    items[5]?.bind fun item => PublicKey.ofContent? item.content
  else none

/-- Reads a certificate, and gives the public key it is for. -/
def publicKey? (der : Bytes) : Option PublicKey := do
  let items ← Der.sequence? der
  match items with
  | [signed, algorithm, signature] =>
    if haveTags [signed, algorithm, signature] [Der.sequence, Der.sequence, Der.bitString] then
      subjectKey? signed.content
    else none
  | _ => none

end Certificate

end StoreWarden.Tls
