import StoreWarden.Failure
import StoreWarden.Http.Client
import StoreWarden.Tls.Client
import StoreWarden.Tls.Material

/-!
# The readiness check

The member serves if it answers a read of one key.  The key need not exist.  The check goes to the
member on this machine; with TLS it shows the client certificate and expects the member's.
-/

namespace StoreWarden.Readiness

def checkLimit : Nat := 5000

def readPath : String := "/v3/kv/range"

/-- The read: of the key `foo`, as it is at this member. -/
def readBody : String :=
  "\x7b\"key\":\"Zm9v\",\"serializable\":true\x7d"

/-- A readiness check, by the address it asks. -/
structure Probe where
  address : String
deriving DecidableEq, Repr

namespace Probe

/-- The check of whatever is at an address. -/
def ofBase (base : String) : Probe := ⟨base ++ readPath⟩

def build (fs : Os.FileSystem) (port : UInt16) (material : Option Tls.Material) :
    Except Failure Probe :=
  match material with
  | none => .ok (ofBase ("http://127.0.0.1:" ++ toString port.toNat))
  | some material => do
    let identity ← Tls.loadIdentity fs material.cert material.key
    let roots ← Tls.loadBundle fs material.ca
    Tls.buildClient roots (some identity)
    return ofBase
      ("https://" ++ material.serverName.getD "localhost" ++ ":" ++ toString port.toNat)

def check (p : Probe) (peer : Http.Peer) (t : Nat) : Http.Sent Failure Unit :=
  let sent := Http.send peer checkLimit t (.postJson p.address readBody)
  { sent with
    answer :=
      match sent.answer with
      | .error fault => .error (.http fault)
      | .ok response =>
        if response.status.isSuccess then .ok () else .error (.probe (.refused response.status)) }

end Probe

end StoreWarden.Readiness
