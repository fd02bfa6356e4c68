import StoreWarden.Document.Strict
import StoreWarden.Engine.Settings
import StoreWarden.Settings.Basic

/-!
# Settings from values

The settings of the program and of the member, read strictly from a structured value.
-/

namespace StoreWarden

open Document.Strict

def SidecarSettings.decode : Decoder SidecarSettings := fun v => do
  let fs ← fields ["host_port", "tls_enabled", "ca_cert_bundle_path"] 3 v
  return {
    hostPort := ← field fs 0 text SidecarSettings.default.hostPort
    tlsEnabled := ← field fs 1 boolean SidecarSettings.default.tlsEnabled
    bundle := ← field fs 2 (optional path) none }

def ClientSettings.decode : Decoder ClientSettings := fun v => do
  let fs ← fields ["server_name", "ca_path", "cert_path", "key_path"] 4 v
  return {
    serverName := ← field fs 0 (optional text) none
    ca := ← field fs 1 (optional path) none
    cert := ← field fs 2 (optional path) none
    key := ← field fs 3 (optional path) none }

def Settings.names : List String :=
  ["ready_port", "client_port", "wait_ready_timeout_seconds", "crash_marker_path",
    "engine_config_path", "etcd_binary", "sidecar", "client"]

def Settings.decode : Decoder Settings := fun v => do
  let fs ← fields Settings.names 0 v
  let d := Settings.default
  return {
    readyPort := ← field fs 0 word16 d.readyPort
    clientPort := ← field fs 1 word16 d.clientPort
    waitReadySeconds := ← field fs 2 word64 d.waitReadySeconds
    recordPath := ← field fs 3 path d.recordPath
    documentPath := ← field fs 4 path d.documentPath
    program := ← field fs 5 text d.program
    sidecar := ← field fs 6 SidecarSettings.decode d.sidecar
    client := ← field fs 7 ClientSettings.decode d.client }

def Engine.TransportSecurity.decode : Decoder Engine.TransportSecurity := fun v => do
  let fs ← fields Engine.TransportSecurity.keys 0 v
  return {
    certFile := ← field fs 0 text ""
    keyFile := ← field fs 1 text ""
    trustedCaFile := ← field fs 2 text ""
    clientCertAuth := ← field fs 3 boolean false }

def Engine.Settings.decode : Decoder Engine.Settings := fun v => do
  let names :=
    ["name", "data-dir", "listen-client-urls", "advertise-client-urls", Engine.securityKey]
  let fs ← fields names 0 v
  return {
    name := ← field fs 0 text ""
    dataDir := ← field fs 1 text ""
    listenClientUrls := ← field fs 2 text ""
    advertiseClientUrls := ← field fs 3 text ""
    security := ← field fs 4 Engine.TransportSecurity.decode .empty }

end StoreWarden
