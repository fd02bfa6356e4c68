import StoreWarden.Engine.Settings
import StoreWarden.Settings.Basic

/-!
# Which TLS material is used

The readiness check and the readiness endpoint use the same certificates: those of the operator if
all three files are named, else those of the member's document if it names all three.  Files of the
two sources are never mixed.
-/

namespace StoreWarden.Tls

structure Material where
  /-- The name that the member's certificate must carry. -/
  serverName : Option String
  ca : Path
  cert : Path
  key : Path
deriving DecidableEq, Repr

/-- The material for given settings and document. -/
def Material.choose (client : ClientSettings) (engine : Engine.Settings) : Option Material :=
  match client.ca, client.cert, client.key with
  | some ca, some cert, some key => some ⟨client.serverName, ca, cert, key⟩
  | _, _, _ =>
    engine.clientFiles?.map fun files => ⟨client.serverName, files.ca, files.cert, files.key⟩

end StoreWarden.Tls
