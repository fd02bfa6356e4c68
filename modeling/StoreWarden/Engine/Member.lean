import StoreWarden.Clock
import StoreWarden.Engine.Reports

/-!
# A running member

A member is known by what it reports, and when.  What it reports may hang on when the run is
cancelled, so its future is a function of the cancellation.  The one who looks after it takes in
the reports up to some time, and asks when something will have been reported.
-/

namespace StoreWarden.Engine

/-- Something that happens on the reporting side. -/
inductive Event where
  | reported (report : Report)
  /-- The reporting side goes away. -/
  | gone
deriving DecidableEq, Repr

/-- A latch may be held by others, who fire it also when the reporting side has gone.  Failures have
no other way in. -/
def Reports.after (r : Reports) : Event → Reports
  | .reported .ready => { r with ready := true }
  | .reported .stopped => { r with stopped := true }
  | .reported (.failure failure) => (r.receive (.failure failure)).1
  | .gone => r.abandon

theorem Reports.after_failure_eq (r : Reports) (failure : Failure) :
    r.after (.reported (.failure failure)) =
      { r with failures := (r.failures.send failure).1 } := by
  rw [after, receive_failure_eq]

/-- Events and when they happen, in order of time. -/
abbrev Timeline := List (Nat × Event)

/-- Puts an event into a timeline, before what happens at the same time. -/
def Timeline.insert (t : Nat) (event : Event) : Timeline → Timeline
  | [] => [(t, event)]
  | (u, other) :: rest =>
    if t ≤ u then (t, event) :: (u, other) :: rest else (u, other) :: Timeline.insert t event rest

/-- When reports first have a property, if not from the start. -/
def Timeline.firstTime (p : Reports → Bool) : Timeline → Reports → Option Nat
  | [], _ => none
  | (t, event) :: rest, r =>
    let r := r.after event
    if p r then some t else firstTime p rest r

structure Member where
  /-- What has been reported. -/
  reports : Reports
  /-- The time up to which reports have come in. -/
  seen : Nat
  /-- Everything that happens, for each cancellation of the run. -/
  future : Cancellation → Timeline

namespace Member

/-- A member launched at `now`.  What happens at that very time has happened. -/
def launched (now : Nat) (future : Cancellation → Timeline) (token : Cancellation) : Member :=
  ⟨((future token).filter (·.1 ≤ now)).foldl (fun r e => r.after e.2) .none, now, future⟩

/-- What has not come in yet. -/
def pending (b : Member) (token : Cancellation) : Timeline :=
  (b.future token).filter (b.seen < ·.1)

/-- The member after everything up to `t` has come in. -/
def advance (b : Member) (token : Cancellation) (t : Nat) : Member :=
  { b with
    reports := ((b.pending token).filter (·.1 ≤ t)).foldl (fun r e => r.after e.2) b.reports
    seen := max b.seen t }

/-- When the reports have a property, for somebody who asks at `now`. -/
def timeOf (p : Reports → Bool) (b : Member) (token : Cancellation) (now : Nat) : Option Nat :=
  let b := b.advance token now
  if p b.reports then some now else (b.pending token).firstTime p b.reports

def readyFrom (b : Member) (token : Cancellation) (now : Nat) : Option Nat :=
  b.timeOf (·.ready) token now

def stoppedFrom (b : Member) (token : Cancellation) (now : Nat) : Option Nat :=
  b.timeOf (·.stopped) token now

def failureFrom (b : Member) (token : Cancellation) (now : Nat) : Option Nat :=
  b.timeOf (!·.failures.items.isEmpty) token now

def takeFailure (b : Member) : Member × Option Failure :=
  let (reports, failure) := b.reports.takeFailure
  ({ b with reports }, failure)

theorem takeFailure_snd (b : Member) : b.takeFailure.2 = b.reports.failures.items.head? :=
  Mailbox.take_snd _

end Member

end StoreWarden.Engine
