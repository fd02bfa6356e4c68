import StoreWarden.Tls.PublicKey

/-!
# Private keys

A private key comes in one of three wrappings: one that names the algorithm, one of the RSA
numbers alone and one of an elliptic curve alone.  A key is usable if it is for a known algorithm
and is large enough.
-/

namespace StoreWarden.Tls

inductive PrivateKey where
  | rsa (key : PublicKey)
  | curve (key : PublicKey)
  | edwards
deriving DecidableEq, Repr

inductive Curve where
  | p256
  | p384
deriving DecidableEq, Repr

namespace Curve

def all : List Curve := [.p256, .p384]

def name : Curve → Bytes
  | .p256 => [0x06, 0x08, 0x2A, 0x86, 0x48, 0xCE, 0x3D, 0x03, 0x01, 0x07]
  | .p384 => [0x06, 0x05, 0x2B, 0x81, 0x04, 0x00, 0x22]

/-- How many bytes a private key and each half of a public key have. -/
def size : Curve → Nat
  | .p256 => 32
  | .p384 => 48

/-- The value that names keys on elliptic curves. -/
def family : Bytes := [0x06, 0x07, 0x2A, 0x86, 0x48, 0xCE, 0x3D, 0x02, 0x01]

def algorithm (c : Curve) : Bytes := family ++ c.name

end Curve

namespace PrivateKey

def rsaAlgorithm : Bytes :=
  [0x06, 0x09, 0x2A, 0x86, 0x48, 0x86, 0xF7, 0x0D, 0x01, 0x01, 0x01, 0x05, 0x00]

/-- The algorithm of keys on the Edwards curve. -/
def edwardsAlgorithm : Bytes := [0x06, 0x03, 0x2B, 0x65, 0x70]

/-- The least and the most bits of an RSA key. -/
def rsaBits : Nat × Nat := (2048, 4096)

/-- The public key of a modulus and an exponent. -/
def rsaPublic (modulus exponent : Der.Item) : PublicKey :=
  ⟨rsaAlgorithm, 0 :: (Der.Item.mk Der.sequence (modulus.encode ++ exponent.encode)).encode⟩

/-- The key of the RSA numbers: a version, the modulus, the exponent, and six more. -/
def ofRsa? (der : Bytes) : Option PrivateKey := do
  let items ← Der.sequence? der
  match items with
  | version :: modulus :: exponent :: rest =>
    let bits := Der.bitLength modulus.content
    if version = ⟨Der.integer, [0]⟩ && rest.length = 6 &&
        (modulus :: exponent :: rest).all (·.tag = Der.integer) && rsaBits.1 ≤ bits &&
        bits ≤ rsaBits.2 then
      some (.rsa (rsaPublic modulus exponent))
    else none
  | _ => none

/-- The public key that goes with a private one, where it is given. -/
def curvePublic? (c : Curve) : List Der.Item → Option PublicKey
  | [] => none
  | item :: rest =>
    if item.tag = Der.part 1 then
      match Der.only? Der.bitString item.content with
      | some (0 :: 4 :: point) =>
        if point.length = 2 * c.size then some ⟨c.algorithm, 0 :: 4 :: point⟩ else none
      | _ => none
    else if item = ⟨Der.part 0, c.name⟩ then curvePublic? c rest
    else none

/-- The key of a curve: a version, the private part and the public one. -/
def ofCurve? (c : Curve) (der : Bytes) : Option PrivateKey := do
  let items ← Der.sequence? der
  match items with
  | version :: secret :: rest =>
    if version = ⟨Der.integer, [1]⟩ && secret.tag = Der.octetString &&
        secret.content.length = c.size then
      (curvePublic? c rest).map .curve
    else none
  | _ => none

/-- The key of whichever curve fits. -/
def ofAnyCurve? (der : Bytes) : Option PrivateKey := Curve.all.findSome? (ofCurve? · der)

/-- The key in a wrapping that names the algorithm. -/
def ofWrapped? (der : Bytes) : Option PrivateKey := do
  let items ← Der.sequence? der
  match items with
  | version :: algorithm :: secret :: _ =>
    if version.tag = Der.integer && algorithm.tag = Der.sequence &&
        secret.tag = Der.octetString then
      if algorithm.content = rsaAlgorithm then ofRsa? secret.content
      else if algorithm.content = edwardsAlgorithm then
        (Der.only? Der.octetString secret.content).bind fun seed =>
          if seed.length = 32 then some .edwards else none
      else
        (Curve.all.find? (·.algorithm = algorithm.content)).bind (ofCurve? · secret.content)
    else none
  | _ => none

/-- Reads a private key in any of its wrappings. -/
def ofDer? (der : Bytes) : Option PrivateKey :=
  ((ofRsa? der).orElse fun _ => ofWrapped? der).orElse fun _ => ofAnyCurve? der

/-- The public key that is known to go with a private one. -/
def publicKey? : PrivateKey → Option PublicKey
  | .rsa key => some key
  | .curve key => some key
  | .edwards => none

/-- Whether bytes have the outline of a private key: a sequence that starts with a version and
with what comes next in one of the wrappings. -/
def hasOutline : Bytes → Bool
  | tag :: length :: rest =>
    let skip := if length.toNat < 0x80 then 0 else length.toNat - 0x80
    tag = Der.sequence && skip ≤ rest.length &&
      (match rest.drop skip with
      | 0x02 :: 0x01 :: version :: next =>
        next.head? = some Der.sequence || version = 0 || next.head? = some Der.octetString
      | _ => false)
  | _ => false

end PrivateKey

end StoreWarden.Tls
