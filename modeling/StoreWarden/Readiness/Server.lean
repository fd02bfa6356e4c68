import StoreWarden.Readiness.Endpoint
import StoreWarden.Tls.Server

/-!
# The readiness server

The control endpoint is served over TLS if there is material for it.  Material is loaded before the
port is taken, so that what cannot be served is never bound.
-/

namespace StoreWarden.Readiness

structure Credential where
  cert : Path
  key : Path
deriving DecidableEq, Repr

structure Server where
  /-- What is shown to those who connect, if the server speaks TLS. -/
  credential : Option Credential
deriving DecidableEq, Repr

def Server.isTls (s : Server) : Bool := s.credential.isSome

/-- Loads the credential, if there is one, and takes the port, which may fail for any reason. -/
def Server.bind (fs : Os.FileSystem) (portFault : Option Os.Fault)
    (credential : Option Credential) : Except Failure Server := do
  match credential with
  | some c => Tls.loadServed fs c.cert c.key
  | none => pure ()
  match portFault with
  | some fault => throw (.io fault)
  | none => return ⟨credential⟩

end StoreWarden.Readiness
