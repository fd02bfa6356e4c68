import StoreWarden.Settings.Basic
import StoreWarden.Toml.Table

/-!
# The text of settings

All settings as a document that can be read again.  Options that are not set are left out.  Two
kinds of settings have no text: a path that is not UTF-8, and a number beyond the signed range.
-/

namespace StoreWarden.Settings

inductive PrintFault where
  | numberTooLarge
  | pathNotUtf8
deriving DecidableEq, Repr

def PrintFault.message : PrintFault → String
  | .numberTooLarge => "out-of-range value for u64 type"
  | .pathNotUtf8 => "path contains invalid UTF-8 characters"

open Toml (Value Fields)

def maxNumber : Nat := Nat.pow 2 63 - 1

def numberValue (n : Nat) : Except PrintFault Value :=
  if n ≤ maxNumber then .ok (.integer n) else .error .numberTooLarge

def pathValue (p : Path) : Except PrintFault Value :=
  match p.toString? with
  | some s => .ok (.string s)
  | none => .error .pathNotUtf8

def optionField {α : Type} (name : String) (f : α → Except PrintFault Value) :
    Option α → Except PrintFault Fields
  | none => .ok []
  | some a => do return [(name, ← f a)]

def sidecarFields (s : SidecarSettings) : Except PrintFault Fields := do
  let bundle ← optionField "ca_cert_bundle_path" pathValue s.bundle
  return [("host_port", .string s.hostPort), ("tls_enabled", .boolean s.tlsEnabled)] ++ bundle

def clientFields (c : ClientSettings) : Except PrintFault Fields := do
  let name ← optionField "server_name" (fun s => .ok (.string s)) c.serverName
  let ca ← optionField "ca_path" pathValue c.ca
  let cert ← optionField "cert_path" pathValue c.cert
  let key ← optionField "key_path" pathValue c.key
  return name ++ ca ++ cert ++ key

def table (s : Settings) : Except PrintFault Toml.Table := do
  let wait ← numberValue s.waitReadySeconds.toNat
  let record ← pathValue s.recordPath
  let document ← pathValue s.documentPath
  let sidecar ← sidecarFields s.sidecar
  let client ← clientFields s.client
  return {
    fields := [("ready_port", .integer s.readyPort.toNat),
      ("client_port", .integer s.clientPort.toNat), ("wait_ready_timeout_seconds", wait),
      ("crash_marker_path", record), ("engine_config_path", document),
      ("etcd_binary", .string s.program)]
    tables := [("sidecar", sidecar), ("client", client)] }

def toToml (s : Settings) : Except PrintFault String := do
  return String.ofList (← s.table).text

def pathsReadable (s : Settings) : Bool :=
  ([s.recordPath, s.documentPath] ++ s.sidecar.bundle.toList ++ s.client.ca.toList ++
    s.client.cert.toList ++ s.client.key.toList).all fun p => p.toString?.isSome

end StoreWarden.Settings
