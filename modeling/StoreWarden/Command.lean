import StoreWarden.CommandLine.Invocation
import StoreWarden.Engine.Supervisor
import StoreWarden.Handshake
import StoreWarden.Lifecycle
import StoreWarden.Settings.Print
import StoreWarden.Shutdown
import StoreWarden.Sidecar.Client

/-!
# The whole command

A command line either is refused, or has its settings printed, or checked, or run.  Printing goes
before checking, and neither touches anything outside.  A run ends with 0 if it ends in order
before a second signal has come, and with 1 otherwise, unless an assumption is broken.
-/

namespace StoreWarden

/-- What a run finds around it. -/
structure World where
  /-- Who answers for the sidecar. -/
  sidecar : Http.Peer
  /-- Starts programs. -/
  spawn : String → List Bytes → Except Os.Fault Engine.Child
  /-- How the member answers the checks until it serves. -/
  checks : Nat → Readiness.Check
  /-- What taking the port of the readiness server fails with, if it does. -/
  portFault : Option Os.Fault
  /-- The signals, in order of their times. -/
  signals : List (Nat × Signal)
  /-- The most rounds of asking for a state that are looked at. -/
  rounds : Nat
  /-- Which of two things that come together is noticed first, where that is open. -/
  tie : Nat → Bool

/-- Puts the parts of a run together.  The client of the sidecar is built now. -/
def Parts.assemble (w : World) (fs : Os.FileSystem) (s : Settings) : Except Failure Parts := do
  let client ← Sidecar.Client.build fs s.sidecar s.documentPath
  let handshake : Handshake := { record := ⟨s.recordPath⟩ }
  let supervisor : Engine.Supervisor := { program := s.program }
  return {
    settings := s
    obtain := fun m => (handshake.run (client.service w.sidecar) w.tie w.rounds m).ending
    launcher := supervisor.start w.spawn w.checks w.rounds (w.tie 0)
    checkGiven := false
    portFault := w.portFault }

inductive Plan where
  | refuse (refusal : CommandLine.Refusal)
  | print (text : Except Settings.PrintFault String)
  /-- Tells whether the settings are valid. -/
  | tell (verdict : Except Failure Unit)
  /-- Ends because the settings are not valid. -/
  | reject (failure : Failure)
  | run (settings : Settings)

def CommandLine.Invocation.plan (i : CommandLine.Invocation) : Plan :=
  if i.printOnly then .print i.settings.toToml
  else if i.validateOnly then .tell i.settings.validate
  else
    match i.settings.validate with
    | .error failure => .reject failure
    | .ok () => .run i.settings

/-- What a command line and an environment ask for. -/
def Plan.ofArguments (args : List Bytes) (env : CommandLine.Environment) : Plan :=
  match CommandLine.invocation args env with
  | .error refusal => .refuse refusal
  | .ok i => i.plan

/-- How a command ends: its exit code, and what it has written to its two outputs. -/
structure Report where
  code : Nat
  out : String
  err : String
deriving DecidableEq, Repr

namespace Report

def version : String := "etcd-wrapper 0.1.0"

/-- The code of a process that ends with a broken assumption. -/
def brokenCode : Nat := 101

/-- The end with a failure.  What lies behind it is told too.  A broken assumption is no failure
that is passed on: it ends the process where it is found. -/
def ofFailure : Failure → Report
  | .defect defect => ⟨brokenCode, "", defect.message ++ "\n"⟩
  | failure =>
    let source := (failure.source?.map fun s => "\n\nCaused by:\n    " ++ s).getD ""
    ⟨1, "", "Error: " ++ failure.message ++ source ++ "\n"⟩

def ofRefusal (refusal : CommandLine.Refusal) : Report :=
  match refusal, refusal.message? with
  | .version, _ => ⟨refusal.exitCode, version ++ "\n", ""⟩
  | _, some message => ⟨refusal.exitCode, "", message ++ "\n"⟩
  | _, none => ⟨refusal.exitCode, "", ""⟩

def ofText : Except Settings.PrintFault String → Report
  | .ok text => ⟨0, text, ""⟩
  | .error fault => ⟨1, "", "Error: " ++ fault.message ++ "\n"⟩

def ofVerdict : Except Failure Unit → Report
  | .ok () => ⟨0, "✓ Configuration is valid\n", ""⟩
  | .error failure => ⟨1, "", "✗ Configuration validation failed: " ++ failure.message ++ "\n"⟩

def ofAnswer : Except Failure Unit → Report
  | .ok () => ⟨0, "", ""⟩
  | .error failure => ofFailure failure

def forced : Report := ⟨Shutdown.forcedExitCode, "", ""⟩

end Report

def logFormats : List String := ["json", "pretty", "compact"]

/-- What is written before anything is done, if the form of the logs is not known. -/
def CommandLine.Invocation.warning (i : CommandLine.Invocation) : String :=
  match i.logFormat with
  | some format =>
    if i.printOnly || logFormats.contains format then ""
    else "Warning: Unknown log format '" ++ format ++ "', using default\n"
  | none => ""

/-- What a command does: the requests it makes to the sidecar, the state of the run, if one was
begun, and its report, if it ends. -/
structure Upshot where
  report : Option Report
  asked : List Sidecar.Asked
  life : Option Life

namespace Upshot

/-- Ends before anything is done. -/
def atOnce (report : Report) : Upshot := ⟨some report, [], none⟩

/-- The files that are left of the ones that were found. -/
def files (u : Upshot) (found : Os.FileSystem) : Os.FileSystem :=
  (u.life.map (·.moment.files)).getD found

def launches (u : Upshot) : List Launch := (u.life.map (·.launches)).getD []

def bound (u : Upshot) : Bool := (u.life.map (·.bound)).getD false

end Upshot

namespace World

/-- When the run is cancelled by the first signal. -/
def token (w : World) : Cancellation := ⟨w.signals.head?.map (·.1)⟩

def forcedAt (w : World) : Option Nat := (w.signals[1]?).map (·.1)

def opening (w : World) (fs : Os.FileSystem) : Moment := ⟨0, w.token, fs⟩

/-- The requests of a run with given settings. -/
def asked (w : World) (s : Settings) (fs : Os.FileSystem) : List Sidecar.Asked :=
  match Sidecar.Client.build fs s.sidecar s.documentPath with
  | .error _ => []
  | .ok client =>
    let handshake : Handshake := { record := ⟨s.recordPath⟩ }
    (handshake.run (client.service w.sidecar) w.tie w.rounds (w.opening fs)).asked

/-- The files after a run that ended at `last`, with the first signal recorded if it came before. -/
def filesAfter (w : World) (s : Settings) (last : Nat) (fs : Os.FileSystem) : Os.FileSystem :=
  match w.signals.head? with
  | some (t, signal) =>
    let record : ExitRecord := ⟨s.recordPath⟩
    if t ≤ last then (record.capture signal fs).1 else fs
  | none => fs

/-- A run that is over at `last`, with a report. -/
def finish (w : World) (s : Settings) (fs : Os.FileSystem) (report : Report) (last : Nat)
    (life : Life) : Upshot :=
  let files := w.filesAfter s last life.moment.files
  ⟨some report, (w.asked s fs).filter (·.time ≤ last),
    some { life with moment := { life.moment with files } }⟩

def run (w : World) (s : Settings) (fs : Os.FileSystem) : Upshot :=
  match Parts.assemble w fs s with
  | .error failure => .atOnce (.ofFailure failure)
  | .ok parts =>
    let o := (Life.start (w.opening fs)).run parts
    let last := o.life.moment.now
    match o.answer, w.forcedAt with
    | none, none => ⟨none, w.asked s fs, some o.life⟩
    | none, some t => w.finish s fs .forced t o.life
    | some answer, none => w.finish s fs (.ofAnswer answer) last o.life
    | some answer, some t =>
      if t < last then w.finish s fs .forced t o.life
      else w.finish s fs (.ofAnswer answer) last o.life

def carryOut (w : World) (fs : Os.FileSystem) : Plan → Upshot
  | .refuse refusal => .atOnce (.ofRefusal refusal)
  | .print text => .atOnce (.ofText text)
  | .tell verdict => .atOnce (.ofVerdict verdict)
  | .reject failure => .atOnce (.ofFailure failure)
  | .run settings => w.run settings fs

def upshot (w : World) (args : List Bytes) (env : CommandLine.Environment) (fs : Os.FileSystem) :
    Upshot :=
  let u := w.carryOut fs (Plan.ofArguments args env)
  match CommandLine.invocation args env with
  | .ok i => { u with report := u.report.map fun r => { r with err := i.warning ++ r.err } }
  | .error _ => u

/-- How a command ends, if it does, and the state of the run, if one was begun. -/
def command (w : World) (args : List Bytes) (env : CommandLine.Environment) (fs : Os.FileSystem) :
    Option Report × Option Life :=
  let u := w.upshot args env fs
  (u.report, u.life)

end World

end StoreWarden
