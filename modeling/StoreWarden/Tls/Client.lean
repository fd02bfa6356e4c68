import StoreWarden.Failure
import StoreWarden.Os.FileSystem
import StoreWarden.Pem.Block
import StoreWarden.Text.Base64
import StoreWarden.Tls.PrivateKey

/-!
# TLS material of a client

A client trusts the certificates of a bundle, and may show an identity: a chain of certificates
and a key.  Loading looks at the armour only; whether the certificates and the key are of use is
found when the client is built from them.
-/

namespace StoreWarden.Tls

open Os (FileSystem)

/-- What a client tolerates in base64 text: padding may be cut short, nothing else. -/
def clientRules : Base64.Rules := ⟨false, true, false⟩

/-- What a block is for a client. -/
inductive Kind where
  | certificate
  | key
  /-- A list of revoked certificates, for which a client has no use. -/
  | revocations
  | other
deriving DecidableEq, Repr

def Kind.labels : List (String × Kind) :=
  [("CERTIFICATE", .certificate), ("PRIVATE KEY", .key), ("RSA PRIVATE KEY", .key),
    ("EC PRIVATE KEY", .key), ("X509 CRL", .revocations)]

def Kind.ofLabel (label : Bytes) : Kind :=
  (label.toString?.bind fun s => Kind.labels.lookup s).getD .other

/-- A block with its content, or nothing if it is malformed. -/
def content? (rules : Base64.Rules) : Except Pem.Fault Pem.Block → Option (Kind × Bytes)
  | .error _ => none
  | .ok block =>
    (Base64.decode rules block.text).toOption.map fun der => (Kind.ofLabel block.label, der)

def failAt {α : Type} (path : Path) (fault : Fault) : Except Failure α :=
  .error (.tls path.display fault)

def readFile (fs : FileSystem) (path : Path) : Except Failure Bytes :=
  match fs.read path with
  | .ok content => .ok content
  | .error fault => failAt path (.unreadable fault)

/-- The certificates in a text, if none of its blocks is malformed. -/
def certificates? (text : Bytes) : Option (List Bytes) :=
  ((Pem.blocks text).mapM (content? clientRules)).map fun items =>
    items.filterMap fun (kind, der) => if kind = .certificate then some der else none

/-- Loads the certificates of a bundle.  There must be some. -/
def loadBundle (fs : FileSystem) (path : Path) : Except Failure (List Bytes) := do
  match certificates? (← readFile fs path) with
  | none => failAt path .bundleMalformed
  | some [] => failAt path .bundleEmpty
  | some certificates => return certificates

/-- A chain of certificates and the key of the first. -/
structure Identity where
  chain : List Bytes
  key : Bytes
deriving DecidableEq, Repr

/-- What has been found of an identity. -/
structure Found where
  chain : List Bytes
  key : Option Bytes

/-- Takes in one block.  Of several keys the last counts. -/
def Found.add (found : Found) (block : Except Pem.Fault Pem.Block) : Except Fault Found :=
  match content? clientRules block with
  | none => .error .identityMalformed
  | some (.certificate, der) => .ok { found with chain := found.chain ++ [der] }
  | some (.key, der) => .ok { found with key := some der }
  | some (.revocations, _) => .error .identityForeign
  | some (.other, _) => .ok found

def identityOf (text : Bytes) : Except Fault Identity := do
  let found ← (Pem.blocks text).foldlM Found.add ⟨[], none⟩
  match found.chain, found.key with
  | _ :: _, some key => return ⟨found.chain, key⟩
  | _, _ => throw .identityIncomplete

/-- Two texts one after the other, the second on a line of its own. -/
def join (first second : Bytes) : Bytes :=
  if first.getLast? = some 10 then first ++ second else first ++ 10 :: second

/-- Loads an identity from the file of the certificates and that of the key. -/
def loadIdentity (fs : FileSystem) (cert key : Path) : Except Failure Identity := do
  let chain ← readFile fs cert
  let secret ← readFile fs key
  match identityOf (join chain secret) with
  | .ok identity => return identity
  | .error fault => failAt cert fault

/-- Whether a client can be built from material: every certificate it trusts must be one, and the
key of its identity usable. -/
def isUsable (roots : List Bytes) (identity : Option Identity) : Bool :=
  roots.all (fun der => (Certificate.publicKey? der).isSome) &&
    identity.all fun i => (PrivateKey.ofDer? i.key).isSome

def buildClient (roots : List Bytes) (identity : Option Identity) : Except Failure Unit :=
  if isUsable roots identity then .ok () else .error (.http .builder)

end StoreWarden.Tls
