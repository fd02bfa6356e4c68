import StoreWarden.Call
import StoreWarden.ExitRecord
import StoreWarden.Mailbox

/-!
# Shutdown on signals

The first signal is recorded and then the run is cancelled.  A second one, of either kind, ends
the process at once.  After that, or when no signal can come any more, nobody listens.
-/

namespace StoreWarden.Shutdown

inductive Stage where
  /-- No signal has come. -/
  | watching
  /-- The first signal has been acted upon. -/
  | stopping
  /-- Nobody listens any more. -/
  | over
deriving DecidableEq, Repr

inductive Act where
  /-- Writes the exit record. -/
  | record (signal : Signal)
  /-- Cancels the run. -/
  | cancel
  /-- Ends the process. -/
  | exit
deriving DecidableEq, Repr

/-- The code with which a second signal ends the process. -/
def forcedExitCode : Nat := 1

/-- How many signals wait at most. -/
def queueCapacity : Nat := 4

namespace Stage

def take : Stage → Signal → Stage × List Act
  | .watching, signal => (.stopping, [.record signal, .cancel])
  | .stopping, _ => (.over, [.exit])
  | .over, _ => (.over, [])

def takeAll : Stage → List Signal → Stage × List Act
  | stage, [] => (stage, [])
  | stage, signal :: rest =>
    let (next, acts) := stage.take signal
    let (last, more) := next.takeAll rest
    (last, acts ++ more)

end Stage

/-- What is known about an act after it is done. -/
inductive Notice where
  /-- The record was attempted; the run may have been cancelled already. -/
  | recorded (signal : Signal) (result : Except Failure Unit) (cancelled : Bool)
  | cancelled
  | exited

def perform (r : ExitRecord) (m : Moment) : Act → Moment × Notice
  | .record signal =>
    let (files, result) := r.capture signal m.files
    ({ m with files }, .recorded signal result m.isCancelled)
  | .cancel => (m.cancel, .cancelled)
  | .exit => (m, .exited)

def performAll (r : ExitRecord) : Moment → List Act → Moment × List Notice
  | m, [] => (m, [])
  | m, act :: rest =>
    let (m, notice) := perform r m act
    let (m, more) := performAll r m rest
    (m, notice :: more)

/-- The one who listens for signals. -/
structure Watcher where
  stage : Stage
  inbox : Mailbox Signal queueCapacity

namespace Watcher

def fresh : Watcher := ⟨.watching, .empty⟩

def isDone (w : Watcher) : Bool := w.stage = .over

/-- Acts on all signals that wait, and stops listening when it should. -/
def settle (w : Watcher) (r : ExitRecord) (m : Moment) : Watcher × Moment × List Notice :=
  let (inbox, signals) := w.inbox.takeAll
  let (stage, acts) := w.stage.takeAll signals
  let (m, notices) := performAll r m acts
  let stage := if inbox.unattended then .over else stage
  (⟨stage, if stage = .over then inbox.close else inbox⟩, m, notices)

end Watcher

end StoreWarden.Shutdown
