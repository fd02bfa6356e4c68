import StoreWarden.Tls.Client

/-!
# TLS material of the server

The server shows the certificates of one file and uses the only key of another.  Both are loaded
before anything is served, and every fault is told with the certificate's path.
-/

namespace StoreWarden.Tls

open Os (FileSystem)

/-- What the server tolerates in base64 text: blanks, and loose bits at the end. -/
def serverRules : Base64.Rules := ⟨true, false, true⟩

def serverLabels : List String :=
  ["CERTIFICATE", "PUBLIC KEY", "RSA PRIVATE KEY", "PRIVATE KEY", "EC PRIVATE KEY", "X509 CRL",
    "CERTIFICATE REQUEST"]

/-- The blocks that the server reads, and the faults. -/
def serverItems (text : Bytes) : List (Except Pem.Fault (Kind × Bytes)) :=
  (Pem.blocks text).filterMap fun
    | .error fault => some (.error fault)
    | .ok block =>
      if serverLabels.any fun label => block.label = Bytes.ofString label then
        match Base64.decode serverRules block.text with
        | .ok der => some (.ok (Kind.ofLabel block.label, der))
        | .error fault => some (.error (.badBase64 fault))
      else none

/-- The certificates in a text; the first fault is told. -/
def serverChain (text : Bytes) : Except Pem.Fault (List Bytes) := do
  let items ← (serverItems text).mapM id
  return items.filterMap fun (kind, der) => if kind = .certificate then some der else none

/-- The keys in a text; faults are passed over. -/
def serverKeys (text : Bytes) : List Bytes :=
  (serverItems text).filterMap fun
    | .ok (.key, der) => some der
    | _ => none

/-- Checks that a key is usable and belongs to the first certificate of a chain. -/
def checkPair (chain : List Bytes) (der : Bytes) : Except Fault Unit :=
  if !PrivateKey.hasOutline der then .error .servedKeyFormat
  else
    match PrivateKey.ofDer? der with
    | none => .error .servedKeyUnusable
    | some key =>
      match chain with
      | [] => .error .servedNoCertificate
      | first :: _ =>
        match key.publicKey?, Certificate.publicKey? first with
        | none, _ => .ok ()
        | some _, none => .error .servedBadCertificate
        | some mine, some certified =>
          if mine = certified then .ok () else .error .servedKeyMismatch

def checkServed (cert key : Bytes) : Except Fault Unit :=
  match serverChain cert with
  | .error fault => .error (.servedMalformed fault)
  | .ok chain =>
    match serverKeys key with
    | [der] => checkPair chain der
    | _ => .error .servedKeyCount

def loadServed (fs : FileSystem) (cert key : Path) : Except Failure Unit :=
  match fs.read cert with
  | .error fault => failAt cert (.servedUnreadable cert.display fault)
  | .ok chain =>
    match fs.read key with
    | .error fault => failAt cert (.servedUnreadable key.display fault)
    | .ok secret =>
      match checkServed chain secret with
      | .ok () => .ok ()
      | .error fault => failAt cert fault

end StoreWarden.Tls
