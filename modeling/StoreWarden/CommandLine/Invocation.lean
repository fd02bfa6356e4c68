import StoreWarden.CommandLine.Given
import StoreWarden.Settings.Basic

/-!
# Invocations

What a command line asks for: settings, how much is logged and in which form, and whether the
settings are only to be printed or checked.  Every setting has its own option, and is the default
where that is not given.
-/

namespace StoreWarden.CommandLine

inductive LogLevel where
  | debug
  | info
  | warn
  | error
deriving DecidableEq, Repr

def LogLevel.name : LogLevel → String
  | .debug => "debug"
  | .info => "info"
  | .warn => "warn"
  | .error => "error"

structure Invocation where
  settings : Settings
  level : LogLevel
  logFormat : Option String
  /-- Whether the settings are only to be checked. -/
  validateOnly : Bool
  /-- Whether the settings are only to be printed. -/
  printOnly : Bool
deriving DecidableEq, Repr

namespace Given

def raised (g : Given) (k : Key) (h : k.form = .flag := by rfl) : Bool :=
  match g.get? k with
  | some value => cast (by rw [h]) value
  | none => false

def settings (g : Given) : Settings :=
  let d := Settings.default
  { readyPort := (g.get? .readyPort).getD d.readyPort
    clientPort := (g.get? .clientPort).getD d.clientPort
    waitReadySeconds := (g.get? .waitReady).getD d.waitReadySeconds
    recordPath := (g.get? .recordPath).getD d.recordPath
    documentPath := (g.get? .documentPath).getD d.documentPath
    program := (g.get? .program).getD d.program
    sidecar :=
      { hostPort := (g.get? .sidecarHostPort).getD d.sidecar.hostPort
        tlsEnabled := g.raised .sidecarTlsEnabled
        bundle := g.get? .sidecarBundle }
    client :=
      { serverName := g.get? .serverName
        ca := g.get? .clientCa
        cert := g.get? .clientCert
        key := g.get? .clientKey } }

/-- How much is logged.  Of several levels the most talkative counts. -/
def level (g : Given) : LogLevel :=
  if g.raised .debug then .debug
  else if g.raised .verbose then .info
  else if g.raised .quiet then .error
  else .warn

def invocation (g : Given) : Invocation where
  settings := g.settings
  level := g.level
  logFormat := g.get? .logFormat
  validateOnly := g.raised .validate
  printOnly := g.raised .print

end Given

def invocation (args : List Bytes) (env : Environment) : Except Refusal Invocation :=
  (read args env).map Given.invocation

end StoreWarden.CommandLine
