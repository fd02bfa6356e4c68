import StoreWarden.Failure
import StoreWarden.Os.Path
import StoreWarden.Text.Blank

/-!
# Settings

Everything an operator sets: the ports, the files, the program to run, how the sidecar is reached
and which certificates the readiness check uses.  The sidecar's address is given as host and port
in one text; the last colon divides them, and an empty host means this machine.
-/

namespace StoreWarden

structure SidecarSettings where
  /-- Host and port with a colon between, without a scheme.  The host may be empty. -/
  hostPort : String
  tlsEnabled : Bool
  /-- The certificates trusted for the sidecar. -/
  bundle : Option Path
deriving DecidableEq, Repr

/-- Client certificates for the readiness check. -/
structure ClientSettings where
  /-- The name that the member's certificate must carry. -/
  serverName : Option String
  ca : Option Path
  cert : Option Path
  key : Option Path
deriving DecidableEq, Repr

structure Settings where
  /-- The port of the readiness endpoint. -/
  readyPort : UInt16
  /-- The client port of the member. -/
  clientPort : UInt16
  /-- How many seconds to wait for the member to serve; zero waits for ever. -/
  waitReadySeconds : UInt64
  /-- Where the exit record is kept. -/
  recordPath : Path
  /-- Where the etcd document is written. -/
  documentPath : Path
  /-- The program to run. -/
  program : String
  sidecar : SidecarSettings
  client : ClientSettings
deriving DecidableEq, Repr

namespace SidecarSettings

/-- The settings without a word from the operator. -/
def default : SidecarSettings := ⟨":8080", false, none⟩

def splitAtLastColon (cs : List Char) : Option (List Char × List Char) :=
  let back := cs.reverse
  let tail := back.takeWhile (· ≠ ':')
  match back.dropWhile (· ≠ ':') with
  | [] => none
  | _ :: before => some (before.reverse, tail.reverse)

/-- The host, this machine if none is given. -/
def host (s : SidecarSettings) : String :=
  let cs := s.hostPort.toList
  let given := Text.trim ((splitAtLastColon cs).map (·.1) |>.getD cs)
  if given = [] then "localhost" else String.ofList given

def port (s : SidecarSettings) : String :=
  match splitAtLastColon s.hostPort.toList with
  | some (_, port) => String.ofList (Text.trim port)
  | none => ""

def scheme (s : SidecarSettings) : String := if s.tlsEnabled then "https" else "http"

/-- The address before any request's own path. -/
def baseAddress (s : SidecarSettings) : String := s.scheme ++ "://" ++ s.host ++ ":" ++ s.port

def startsWith (start : String) (s : String) : Bool := start.toList.isPrefixOf s.toList

/-- Whether the bundle is missing or its name is blank. -/
def bundleBlank (s : SidecarSettings) : Bool := s.bundle.all fun p => Text.isBlankString p.display

/-- Everything wrong with the settings, in the order of the rules. -/
def problems (s : SidecarSettings) : List Settings.SidecarProblem :=
  (if s.hostPort.toList.contains ':' then [] else [.portMissing]) ++
  (if startsWith "http:" s.hostPort || startsWith "https:" s.hostPort then [.schemeGiven]
    else []) ++
  (if s.tlsEnabled && s.bundleBlank then [.bundleBlank] else [])

/-- The settings must break none of the rules; all that are broken are told together. -/
def validate (s : SidecarSettings) : Except Failure Unit :=
  match s.problems with
  | [] => .ok ()
  | first :: more => .error (.settings (.sidecar first more))

end SidecarSettings

/-- The settings without a word from the operator. -/
def ClientSettings.default : ClientSettings := ⟨none, none, none, none⟩

namespace Settings

/-- The settings without a word from the operator. -/
def default : Settings where
  readyPort := 9095
  clientPort := 2379
  waitReadySeconds := 0
  recordPath := .ofString "/var/etcd/data/exit_code"
  documentPath := .ofString "/etc/etcd.conf.yaml"
  program := "etcd"
  sidecar := .default
  client := .default

/-- The settings must break none of the rules; the first broken one is told. -/
def validate (s : Settings) : Except Failure Unit := do
  s.sidecar.validate
  if s.readyPort = 0 then throw (.settings .readyPortZero)
  if s.clientPort = 0 then throw (.settings .clientPortZero)
  if Text.isBlankString s.program then throw (.settings .programBlank)

/-- How many seconds to wait for the member to serve, if not for ever. -/
def waitLimit? (s : Settings) : Option Nat :=
  if s.waitReadySeconds = 0 then none else some s.waitReadySeconds.toNat

end Settings

end StoreWarden
