/-!
# Rejected settings

The rules that settings can break, and their texts.
-/

namespace StoreWarden.Settings

/-- What is wrong with the address and trust settings of the sidecar. -/
inductive SidecarProblem where
  /-- The address has no colon. -/
  | portMissing
  /-- The address starts with a scheme. -/
  | schemeGiven
  /-- TLS is on and no bundle is named. -/
  | bundleBlank
deriving DecidableEq, Repr

def SidecarProblem.message : SidecarProblem → String
  | .portMissing =>
    "both host and port need to be specified and should adhere to format: <host>:<port>"
  | .schemeGiven => "sidecar host-port should not contain scheme"
  | .bundleBlank => "certificate bundle path cannot be empty when TLS is enabled"

inductive Fault where
  /-- Everything wrong with the sidecar's settings, in the order of the rules. -/
  | sidecar (first : SidecarProblem) (more : List SidecarProblem)
  | readyPortZero
  | clientPortZero
  | programBlank
  /-- TLS is on and no bundle is named, found when the client is built. -/
  | bundleRequired
  /-- The etcd document names no data directory. -/
  | dataDirectoryBlank
  /-- A fault known by its text. -/
  | described (text : String)
deriving DecidableEq, Repr

/-- The text of a fault; several problems are joined by semicolons. -/
def Fault.message : Fault → String
  | .sidecar first more => String.intercalate "; " ((first :: more).map SidecarProblem.message)
  | .readyPortZero => "ready port must be greater than 0"
  | .clientPortZero => "client port must be greater than 0"
  | .programBlank => "etcd binary cannot be empty"
  | .bundleRequired => "certificate bundle path is required when TLS is enabled"
  | .dataDirectoryBlank => "etcd configuration does not define data-dir"
  | .described text => text

end StoreWarden.Settings
