import StoreWarden.Engine.Member
import StoreWarden.ExitRecord
import StoreWarden.Readiness.Probe
import StoreWarden.Readiness.Server
import StoreWarden.Tls.Material

/-!
# The life of a run

A run obtains the member's document, prepares the readiness check and its server, launches the
member, waits until it serves, and then until it is cancelled or the member fails or stops.  The
record of how the previous run ended is removed once the member serves, and by nothing else.

Several things may end a wait.  The earliest counts, and of those that come together the one named
first: cancellation, then what the wait is for, then the stop of the member, then a limit.

An outcome keeps the state that a run has got to even if it never ends.
-/

namespace StoreWarden

/-- A launch of the member: when, and with which document. -/
structure Launch where
  time : Nat
  document : Path
deriving DecidableEq, Repr

structure Parts where
  settings : Settings
  /-- Obtains the member's document. -/
  obtain : Action Engine.Settings
  /-- Launches the member. -/
  launcher : Path → Action Engine.Member
  /-- Whether the readiness check is given, so that none has to be built. -/
  checkGiven : Bool
  /-- What taking the port of the readiness server fails with, if it does. -/
  portFault : Option Os.Fault

/-- The readiness server of a launch: it shows the certificate that the readiness check shows. -/
def Parts.server (p : Parts) (document : Engine.Settings) : Readiness.Server where
  credential :=
    (Tls.Material.choose p.settings.client document).map fun m =>
      Readiness.Credential.mk m.cert m.key

structure Life where
  moment : Moment
  /-- The member's document, once it has been obtained. -/
  document : Option Engine.Settings
  /-- The readiness server, once it has its port. -/
  server : Option Readiness.Server
  launches : List Launch

/-- What comes of a part of a run: the state it gets to, and how it ends, if it does. -/
structure Outcome (α : Type) where
  life : Life
  answer : Option (Except Failure α)

namespace Outcome

def andThen {α β : Type} (o : Outcome α) (next : Life → α → Outcome β) : Outcome β :=
  match o.answer with
  | none => ⟨o.life, none⟩
  | some (.error failure) => ⟨o.life, some (.error failure)⟩
  | some (.ok value) => next o.life value

def isFinished {α : Type} (o : Outcome α) : Bool := o.answer.isSome

end Outcome

namespace Life

def start (m : Moment) : Life := ⟨m, none, none, []⟩

/-- Whether the readiness server has its port. -/
def bound (s : Life) : Bool := s.server.isSome

def finish {α : Type} (s : Life) (answer : Except Failure α) : Outcome α := ⟨s, some answer⟩

def moveTo (s : Life) (t : Nat) : Life := { s with moment := s.moment.moveTo t }

def perform {α : Type} (s : Life) (action : Action α) : Outcome α :=
  match action s.moment with
  | none => ⟨s, none⟩
  | some (moment, answer) => ⟨{ s with moment }, some answer⟩

/-- Obtains the member's document and keeps it.  A failure leaves the one that was kept before. -/
def setup (p : Parts) (s : Life) : Outcome Unit :=
  (s.perform p.obtain).andThen fun s document =>
    { s with document := some document }.finish (.ok ())

/-- Prepares what a launch needs: the readiness check, and the server with its port. -/
def prepare (p : Parts) (fs : Os.FileSystem) (document : Engine.Settings) :
    Except Failure Unit := do
  let material := Tls.Material.choose p.settings.client document
  if !p.checkGiven then
    let _ ← Readiness.Probe.build fs p.settings.clientPort material
  let _ ← Readiness.Server.bind fs p.portFault (p.server document).credential

/-- What may end the wait until the member serves. -/
inductive Startup where
  | cancelled
  | ready
  | stopped
  | tooLate (seconds : Nat)
deriving DecidableEq, Repr

/-- How the wait until the member serves ends. -/
def startup (p : Parts) (m : Moment) (member : Engine.Member) : Option (Nat × Startup) :=
  let limit := p.settings.waitLimit?
  firstOf [(m.token.seenFrom m.now, .cancelled), (member.readyFrom m.token m.now, .ready),
    (member.stoppedFrom m.token m.now, .stopped),
    (limit.map (m.now + 1000 * ·), .tooLate (limit.getD 0))]

/-- Waits until the member serves, and then removes the exit record.  That it cannot be removed is
no failure. -/
def awaitReady (p : Parts) (s : Life) (member : Engine.Member) : Outcome Engine.Member :=
  match startup p s.moment member with
  | none => ⟨s, none⟩
  | some (t, event) =>
    let s := s.moveTo t
    let member := member.advance s.moment.token t
    match event with
    | .cancelled => s.finish (.error .cancelled)
    | .ready =>
      let record : ExitRecord := ⟨p.settings.recordPath⟩
      let files := (record.discard s.moment.files).1
      { s with moment := { s.moment with files } }.finish (.ok member)
    | .stopped => s.finish (.error (member.takeFailure.2.getD (.engine .stoppedEarly)))
    | .tooLate seconds => s.finish (.error (.engine (.notReadyWithin seconds)))

/-- Launches the member and waits until it serves. -/
def launch (p : Parts) (s : Life) : Outcome Engine.Member :=
  match s.document with
  | none => s.finish (.error (.misuse .setupMissing))
  | some document =>
    match prepare p s.moment.files document with
    | .error failure => s.finish (.error failure)
    | .ok () =>
      let path := p.settings.documentPath
      let launch : Launch := ⟨s.moment.now, path⟩
      let s := { s with server := some (p.server document), launches := s.launches ++ [launch] }
      (s.perform (p.launcher path)).andThen fun s member => awaitReady p s member

/-- How long the member gets to stop once the run is cancelled. -/
def stopLimit : Nat := 20000

/-- What may end the wait on a member that serves. -/
inductive Ending where
  | cancelled
  | failed
  | stopped
deriving DecidableEq, Repr

/-- How the wait on a member that serves ends. -/
def ending (m : Moment) (member : Engine.Member) : Option (Nat × Ending) :=
  firstOf [(m.token.seenFrom m.now, .cancelled), (member.failureFrom m.token m.now, .failed),
    (member.stoppedFrom m.token m.now, .stopped)]

/-- Waits on a member that serves.  When the run is cancelled the member gets time to stop. -/
def wait (s : Life) (member : Engine.Member) : Outcome Unit × Engine.Member :=
  match ending s.moment member with
  | none => (⟨s, none⟩, member)
  | some (t, event) =>
    let s := s.moveTo t
    let token := s.moment.token
    let member := member.advance token t
    match event with
    | .cancelled =>
      let last := (earliest (member.stoppedFrom token t) (some (t + stopLimit))).getD t
      ((s.moveTo last).finish (.ok ()), member.advance token last)
    | .failed =>
      let (member, failure) := member.takeFailure
      (s.finish (.error (failure.getD (.engine .aborted))), member)
    | .stopped => (s.finish (.error (.engine .aborted)), member)

def begin (p : Parts) (s : Life) : Outcome Unit :=
  (s.launch p).andThen fun s member => (s.wait member).1

def close (s : Life) : Life := { s with moment := s.moment.cancel }

/-- The whole run.  Being cancelled is an orderly end. -/
def run (p : Parts) (s : Life) : Outcome Unit :=
  let o := (s.setup p).andThen fun s _ => s.begin p
  match o.answer with
  | none => o
  | some (.error .cancelled) => o.life.close.finish (.ok ())
  | some answer => o.life.close.finish answer

end Life

end StoreWarden
