import StoreWarden.Http.Client
import StoreWarden.Settings.Basic
import StoreWarden.Sidecar.Service
import StoreWarden.Tls.Client

/-!
# The client of the sidecar

Each of the three requests is one `GET`.  Only three codes are good; any other, and any fault on
the way, is a failure.  The document is stored only when it has come as a whole, so that a failure
before that leaves all files as they were.  Every request gives up at once when the run is
cancelled, and a cancelled run makes none.
-/

namespace StoreWarden.Sidecar

def requestLimit : Nat := 10000

def documentMode : Nat := 0o600

def goodCodes : List Nat := [200, 201, 202]

/-- Where requests go, and where the document is stored. -/
structure Client where
  baseAddress : String
  document : Path
deriving DecidableEq, Repr

namespace Request

def target : Request → String
  | .status => "/initialization/status"
  | .trigger depth => "/initialization/start?mode=" ++ depth.name
  | .document => "/config"

/-- What a request attempts, as failures tell it. -/
def purpose : Request → String
  | .status => "get initialization status"
  | .trigger _ => "trigger initialization"
  | .document => "fetch etcd config"

def wantsBody : Request → Bool
  | .trigger _ => false
  | _ => true

end Request

namespace Client

/-- Builds a client.  With TLS only the certificates of the bundle are trusted. -/
def build (fs : Os.FileSystem) (s : SidecarSettings) (document : Path) : Except Failure Client := do
  if s.tlsEnabled then
    match s.bundle with
    | none => throw (.settings .bundleRequired)
    | some bundle =>
      let roots ← Tls.loadBundle fs bundle
      Tls.buildClient roots none
  return ⟨s.baseAddress, document⟩

/-- Makes a request at time `t`, and gives the body of the response. -/
def exchange (c : Client) (peer : Http.Peer) (t : Nat) (request : Request) :
    Http.Sent Failure Bytes :=
  let sent := Http.send peer requestLimit t (.get (c.baseAddress ++ request.target))
  match sent.answer with
  | .error fault => { sent with answer := .error (.http fault) }
  | .ok response =>
    if !goodCodes.contains response.status.code then
      { sent with answer := .error (.sidecar request.purpose response.status) }
    else if request.wantsBody then
      let (d, body) := response.body.within (requestLimit - sent.elapsed)
      ⟨sent.asked, sent.elapsed + d, body.mapError .http⟩
    else { sent with answer := .ok [] }

/-- The requests that go out until the run is cancelled. -/
def sent (c : Client) (peer : Http.Peer) (m : Moment) (request : Request) :
    List (Nat × Http.Request) :=
  (c.exchange peer m.now request).asked.filter fun (t, _) => !m.token.isFired t

/-- A request as a call, which makes something of the body. -/
def call {α : Type} (c : Client) (peer : Http.Peer) (t : Nat) (request : Request)
    (use : Bytes → Os.FileSystem → Os.FileSystem × Except Failure α) : Call α :=
  let exchange := c.exchange peer t request
  { after := some exchange.elapsed
    heeds := true
    cancels := false
    effect := fun fs =>
      match exchange.answer with
      | .ok body => use body fs
      | .error failure => (fs, .error failure) }

/-- Stores the document, for nobody else to read. -/
def store (c : Client) (body : Bytes) (fs : Os.FileSystem) :
    Os.FileSystem × Except Failure Path :=
  match fs.create c.document documentMode with
  | .error fault => (fs, .error (.io fault))
  | .ok (loc, fs) => ((fs.append loc body).setMode loc documentMode, .ok c.document)

/-- The sidecar as a service, with nothing known of it but what comes back over the network. -/
def service (c : Client) (peer : Http.Peer) : Service where
  status := fun _ t => c.call peer t .status fun body fs => (fs, .ok (.ofBody body))
  trigger := fun _ t depth => c.call peer t (.trigger depth) fun _ fs => (fs, .ok ())
  document := fun _ t => c.call peer t .document c.store

end Client

end StoreWarden.Sidecar
