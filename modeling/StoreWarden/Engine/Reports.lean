import StoreWarden.Failure
import StoreWarden.Mailbox

/-!
# Reports of a running member

A running member reports that it serves, that it has stopped, and its failures.  The first two are
latches; failures are queued for the one who looks after the member.  A failure that finds the
queue full is lost.
-/

namespace StoreWarden.Engine

inductive Report where
  | ready
  | stopped
  | failure (failure : Failure)
deriving DecidableEq, Repr

def queueCapacity : Nat := 4

/-- What has been reported, less the failures already taken. -/
structure Reports where
  ready : Bool
  stopped : Bool
  failures : Mailbox Failure queueCapacity

namespace Reports

def none : Reports := ⟨false, false, .empty⟩

/-- Takes in a report.  Nobody reports after the reporting side is gone. -/
def receive (r : Reports) (report : Report) : Reports × Delivery :=
  if r.failures.unattended then (r, .dropped)
  else
    match report with
    | .ready => ({ r with ready := true }, .sent)
    | .stopped => ({ r with stopped := true }, .sent)
    | .failure failure =>
      let (failures, delivery) := r.failures.send failure
      ({ r with failures }, delivery)

def takeFailure (r : Reports) : Reports × Option Failure :=
  let (failures, failure) := r.failures.take
  ({ r with failures }, failure)

/-- The reporting side goes away. -/
def abandon (r : Reports) : Reports := { r with failures := r.failures.abandon }

theorem receive_failure_eq (r : Reports) (failure : Failure) :
    r.receive (.failure failure) =
      ({ r with failures := (r.failures.send failure).1 }, (r.failures.send failure).2) := by
  cases gone : r.failures.unattended <;> simp [receive, Mailbox.send, gone]

end Reports

end StoreWarden.Engine
