import StoreWarden.Document.Source
import StoreWarden.Text.Blank

/-!
# The etcd document

The part of etcd's own configuration that matters here: the member's name and data directory, its
client addresses, and the certificate files of its client endpoint.
-/

namespace StoreWarden.Engine

open Document (Value Shown)

/-- Certificate settings of the client endpoint. -/
structure TransportSecurity where
  certFile : String
  keyFile : String
  trustedCaFile : String
  clientCertAuth : Bool
deriving DecidableEq, Repr

structure Settings where
  name : String
  dataDir : String
  /-- A list separated by commas, as etcd expects it. -/
  listenClientUrls : String
  advertiseClientUrls : String
  security : TransportSecurity
deriving DecidableEq, Repr

/-- Client certificate files that belong together. -/
structure ClientFiles where
  cert : Path
  key : Path
  ca : Path
deriving DecidableEq, Repr

def TransportSecurity.empty : TransportSecurity := ⟨"", "", "", false⟩

namespace Settings

def empty : Settings := ⟨"", "", "", "", .empty⟩

/-- The data directory must not be blank. -/
def validate (s : Settings) : Except Failure Unit :=
  if Text.isBlankString s.dataDir then .error (.settings .dataDirectoryBlank) else .ok ()

/-- The client certificate files; they are of use only together. -/
def clientFiles? (s : Settings) : Option ClientFiles :=
  let tls := s.security
  if tls.certFile = "" || tls.keyFile = "" || tls.trustedCaFile = "" then none
  else some ⟨.ofString tls.certFile, .ofString tls.keyFile, .ofString tls.trustedCaFile⟩

end Settings

/-! ## Reading a document's values

Text may be written as a number or a truth value, and a truth value as a number or a word. -/

def mismatch {α : Type} (found : Shown) (expected : String) (key : String)
    (origin : Option String) : Except Failure α :=
  .error (.document (.wrongType found expected key origin))

def textOf (key : String) : Value → Except Failure String
  | .text s _ => .ok s
  | .boolean b _ => .ok (toString b)
  | .integer n _ => .ok (toString n)
  | .float x _ => .ok x.text
  | value => mismatch value.shown "a string" key value.origin

def trueWords : List String := ["1", "true", "on", "yes"]

def falseWords : List String := ["0", "false", "off", "no"]

def flagOf (key : String) : Value → Except Failure Bool
  | .boolean b _ => .ok b
  | .integer n _ => .ok (n ≠ 0)
  | .float x _ => .ok x.isNonzero
  | .text s origin =>
    let word := Text.lowered s
    if trueWords.contains word then .ok true
    else if falseWords.contains word then .ok false
    else mismatch (.text word) "a boolean" key origin
  | value => mismatch value.shown "a boolean" key value.origin

def TransportSecurity.set (t : TransportSecurity) (shownKey key : String) (value : Value) :
    Except Failure TransportSecurity :=
  if key = "cert-file" then do return { t with certFile := ← textOf shownKey value }
  else if key = "key-file" then do return { t with keyFile := ← textOf shownKey value }
  else if key = "trusted-ca-file" then do
    return { t with trustedCaFile := ← textOf shownKey value }
  else if key = "client-cert-auth" then do
    return { t with clientCertAuth := ← flagOf shownKey value }
  else .ok t

/-- The certificate settings in the order in which a list gives them. -/
def TransportSecurity.keys : List String :=
  ["cert-file", "key-file", "trusted-ca-file", "client-cert-auth"]

/-- Certificate settings from a table, or from a list of their values in order. -/
def TransportSecurity.ofValue (group : String) : Value → Except Failure TransportSecurity
  | .table es _ =>
    es.foldlM (fun t (key, value) => t.set (group ++ "." ++ key) key value) .empty
  | .list items _ =>
    ((TransportSecurity.keys.zip items).zipIdx).foldlM
      (fun t ((key, value), i) => t.set (group ++ "[" ++ toString i ++ "]") key value) .empty
  | value => .error (.document (.notGroup value.shown "TransportSecurity"))

def securityKey : String := "client-transport-security"

def Settings.set (s : Settings) (key : String) (value : Value) : Except Failure Settings :=
  if key = "name" then do return { s with name := ← textOf key value }
  else if key = "data-dir" then do return { s with dataDir := ← textOf key value }
  else if key = "listen-client-urls" then do
    return { s with listenClientUrls := ← textOf key value }
  else if key = "advertise-client-urls" then do
    return { s with advertiseClientUrls := ← textOf key value }
  else if key = securityKey then do
    return { s with security := ← TransportSecurity.ofValue key value }
  else .ok s

/-- Settings from the table of a document; other keys are passed over. -/
def Settings.ofValue (root : Value) : Except Failure Settings :=
  root.entries.foldlM (fun s (key, value) => s.set key value) .empty

def Settings.load (fs : Os.FileSystem) (path : Path) : Except Failure Settings :=
  match Document.read fs path with
  | .error failure => .error failure
  | .ok root =>
    match Settings.ofValue root with
    | .error failure => .error failure
    | .ok settings =>
      match settings.validate with
      | .error failure => .error failure
      | .ok () => .ok settings

end StoreWarden.Engine
