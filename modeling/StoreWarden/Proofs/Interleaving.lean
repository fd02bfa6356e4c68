import StoreWarden.Handshake
import StoreWarden.Proofs.RecordHistory
import StoreWarden.Shutdown

/-!
# Two tasks and one record

A run has two tasks that share the files and the cancellation.  The main task goes through the
handshake, waits until the member serves, removes the record and waits on; the signal task records
the first signal and cancels.  Either may go on between any two statements of the other, and of
what else happens in the meantime only that matters that it leaves the record alone.

`step` does one statement of either task, or lets something come from outside, and a schedule is a
list of such moves.  `Does` says all that a move can do, and everything that holds along schedules
is proved from it.
-/

set_option autoImplicit false

namespace StoreWarden.Interleaving

open ExitRecord (Bystander Change)
open Os (FileSystem)
open Sidecar (Asked Depth Progress)
open Shutdown (Act Stage)

/-- One statement of the signal task. -/
inductive Deed where
  | write (signal : Signal) (s : ExitRecord.Step)
  | cancel
  | exit
deriving DecidableEq, Repr

def deedsOf : Act → List Deed
  | .record signal => ExitRecord.Step.all.map (.write signal)
  | .cancel => [.cancel]
  | .exit => [.exit]

/-- What is left to do once writing has failed. -/
def giveUp : List Deed → List Deed
  | .write _ _ :: rest => giveUp rest
  | deeds => deeds

/-- Where the main task is: in the handshake, about to launch the member, or waiting on it. -/
inductive Position where
  /-- About to look at the cancellation and to ask for the state. -/
  | asking
  | awaitingStatus
  /-- About to read the record for the depth. -/
  | choosing
  | triggering (depth : Depth)
  | awaitingTrigger
  | pausing (wakes : Nat)
  /-- Fetching the document and launching the member. -/
  | preparing
  /-- About to look at the cancellation while the member does not serve. -/
  | looking
  /-- Not cancelled when it looked, and about to see whether the member serves. -/
  | listening
  /-- The member serves, and the record is about to be removed. -/
  | clearing
  | serving
  | ended
deriving DecidableEq, Repr

/-- What a run leaves a trace of. -/
inductive Happening where
  | asked (asked : Asked)
  /-- The depth of a trigger call was read off the record. -/
  | chosen (depth : Depth)
  | changed (change : Change)
deriving DecidableEq, Repr

/-- Both tasks in the midst of a run.  `deeds` is what the signal task still has to do on the last
signal, and the log has the latest first. -/
structure System where
  moment : Moment
  position : Position
  stage : Stage
  deeds : List Deed
  log : List Happening

/-- What the main task learns from outside when it goes on. -/
inductive News where
  | nothing
  | status (answer : Except Failure Progress)
  | trigger (answer : Except Failure Unit)
  | ready
  | fault

inductive Move (r : ExitRecord) where
  /-- Time passes, and files elsewhere change. -/
  | meanwhile (d : Nat) (bystander : Bystander r)
  /-- Somebody else cancels the run. -/
  | stop
  | signal (signal : Signal)
  | handle
  /-- The next write fails for a reason outside the files, with any bytes written. -/
  | broken (written : Bytes)
  | main (news : News)

namespace System

def start (m : Moment) : System := ⟨m, .asking, .watching, [], []⟩

def isCancelled (sys : System) : Bool := sys.moment.isCancelled

def go (sys : System) (position : Position) : System := { sys with position }

def tell (sys : System) (happening : Happening) : System :=
  { sys with log := happening :: sys.log }

def withFiles (sys : System) (files : FileSystem) : System :=
  { sys with moment := { sys.moment with files } }

end System

def filesOr (fs : FileSystem) : Except Os.Fault FileSystem → FileSystem
  | .ok next => next
  | .error _ => fs

/-- The files after a step of writing that has failed on its way. -/
def afterBroken (r : ExitRecord) (written : Bytes) (fs : FileSystem) : ExitRecord.Step → FileSystem
  | .move => fs
  | s => filesOr fs (r.step written fs s)

/-- One statement of the signal task. -/
def handle (r : ExitRecord) (sys : System) : Option System :=
  match sys.deeds with
  | [] => none
  | .write signal s :: rest =>
    match r.step (Bytes.ofString signal.name) sys.moment.files s with
    | .error _ => some { sys with deeds := giveUp rest }
    | .ok files =>
      let next := { sys with deeds := rest }.withFiles files
      some (if s = .move then next.tell (.changed (.recorded signal)) else next)
  | .cancel :: rest => some { sys with moment := sys.moment.cancel, deeds := rest }
  | .exit :: rest => some { sys with position := .ended, deeds := rest }

/-- One statement of the main task. -/
def main (h : Handshake) (sys : System) (news : News) : Option System :=
  match sys.position, news with
  | .asking, .nothing =>
    if sys.isCancelled then some (sys.go .ended)
    else some ((sys.tell (.asked ⟨sys.moment.now, .status⟩)).go .awaitingStatus)
  | .awaitingStatus, .status answer =>
    if Handshake.isFinal answer then some (sys.go .ended)
    else
      match Handshake.progressOf answer with
      | .successful => some (sys.go .preparing)
      | .new => some (sys.go .choosing)
      | _ => some (sys.go (.pausing (sys.moment.now + h.pollInterval)))
  | .choosing, .nothing =>
    let depth := h.record.depth sys.moment.files
    some ((sys.tell (.chosen depth)).go (.triggering depth))
  | .triggering depth, .nothing =>
    some ((sys.tell (.asked ⟨sys.moment.now, .trigger depth⟩)).go .awaitingTrigger)
  | .awaitingTrigger, .trigger answer =>
    if Handshake.isFinal answer then some (sys.go .ended)
    else some (sys.go (.pausing (sys.moment.now + h.pollInterval)))
  | .pausing wakes, .nothing =>
    if sys.isCancelled then some (sys.go .ended)
    else if wakes ≤ sys.moment.now then some (sys.go .asking)
    else none
  | .preparing, .nothing => some (sys.go .looking)
  | .preparing, .fault => some (sys.go .ended)
  | .looking, .nothing => some (sys.go (if sys.isCancelled then .ended else .listening))
  | .listening, .ready => some (sys.go .clearing)
  | .listening, .nothing => some (sys.go .looking)
  | .listening, .fault => some (sys.go .ended)
  | .clearing, .nothing =>
    match sys.moment.files.remove h.record.path with
    | .ok _ =>
      let files := (h.record.discard sys.moment.files).1
      some (((sys.withFiles files).tell (.changed .removed)).go .serving)
    | .error _ => some (sys.go .serving)
  | .clearing, .fault => some (sys.go .serving)
  | .serving, .nothing => some (sys.go .ended)
  | _, _ => none

/-- One move, if it can be made.  Nothing happens in a run that has ended. -/
def step (h : Handshake) (sys : System) (move : Move h.record) : Option System :=
  if sys.position = .ended then none
  else
    match move with
    | .meanwhile d bystander =>
      let files := bystander.change sys.moment.files
      some { sys with moment := { sys.moment.after d with files } }
    | .stop => some { sys with moment := sys.moment.cancel }
    | .signal signal =>
      if sys.deeds = [] then
        let (stage, acts) := sys.stage.take signal
        some { sys with stage, deeds := acts.flatMap deedsOf }
      else none
    | .handle => handle h.record sys
    | .broken written =>
      match sys.deeds with
      | .write _ s :: rest =>
        let files := afterBroken h.record written sys.moment.files s
        some ({ sys with deeds := giveUp rest }.withFiles files)
      | _ => none
    | .main news => main h sys news

/-- Moves one after the other, if all of them can be made. -/
def run (h : Handshake) : List (Move h.record) → System → Option System
  | [], sys => some sys
  | move :: rest, sys => (step h sys move).bind (run h rest)

theorem run_append (h : Handshake) (moves more : List (Move h.record)) (sys : System) :
    run h (moves ++ more) sys = (run h moves sys).bind (run h more) := by
  induction moves generalizing sys with
  | nil => rfl
  | cons move rest ih =>
      simp only [List.cons_append, run]
      cases step h sys move with
      | none => rfl
      | some next => exact ih next

theorem giveUp_writes (signal : Signal) (steps : List ExitRecord.Step) :
    giveUp (steps.map (.write signal) ++ [.cancel]) = [.cancel] := by
  induction steps with
  | nil => rfl
  | cons s rest ih => exact ih

/-! ## What a move can do -/

/-- The main task has not removed the record, and can still do so. -/
def Position.isEarly : Position → Bool
  | .serving => false
  | .ended => false
  | _ => true

/-- Getting to the position takes no more than to be there: neither a choice of a depth, nor a look
at the cancellation, nor a member that serves. -/
def Position.isPlain : Position → Bool
  | .triggering _ => false
  | .listening => false
  | .clearing => false
  | _ => true

/-- All that one move can do. -/
inductive Does (h : Handshake) (sys : System) : System → Prop where
  | meanwhile (d : Nat) (b : Bystander h.record) :
      Does h sys { sys with
        moment := { sys.moment.after d with files := b.change sys.moment.files } }
  | cancels : Does h sys { sys with moment := sys.moment.cancel }
  | takes (signal : Signal) (idle : sys.deeds = []) :
      Does h sys { sys with
        stage := (sys.stage.take signal).1
        deeds := (sys.stage.take signal).2.flatMap deedsOf }
  | writes {signal : Signal} {s : ExitRecord.Step} {rest : List Deed} {files : FileSystem}
      (pending : sys.deeds = .write signal s :: rest) (early : s ≠ .move)
      (done : h.record.step (Bytes.ofString signal.name) sys.moment.files s = .ok files) :
      Does h sys ({ sys with deeds := rest }.withFiles files)
  | records {signal : Signal} {rest : List Deed} {files : FileSystem}
      (pending : sys.deeds = .write signal .move :: rest)
      (done : h.record.step (Bytes.ofString signal.name) sys.moment.files .move = .ok files) :
      Does h sys
        (({ sys with deeds := rest }.withFiles files).tell (.changed (.recorded signal)))
  | fails {signal : Signal} {s : ExitRecord.Step} {rest : List Deed}
      (pending : sys.deeds = .write signal s :: rest) :
      Does h sys { sys with deeds := giveUp rest }
  | breaks {signal : Signal} {s : ExitRecord.Step} {rest : List Deed} (written : Bytes)
      (pending : sys.deeds = .write signal s :: rest) :
      Does h sys ({ sys with deeds := giveUp rest }.withFiles
        (afterBroken h.record written sys.moment.files s))
  | cancelled {rest : List Deed} (pending : sys.deeds = .cancel :: rest) :
      Does h sys { sys with moment := sys.moment.cancel, deeds := rest }
  | exits {rest : List Deed} (pending : sys.deeds = .exit :: rest) :
      Does h sys { sys with position := .ended, deeds := rest }
  | goes (position : Position) (early : position.isEarly = true → sys.position.isEarly = true)
      (plain : position.isPlain = true) : Does h sys (sys.go position)
  | asks (early : sys.position.isEarly = true) :
      Does h sys ((sys.tell (.asked ⟨sys.moment.now, .status⟩)).go .awaitingStatus)
  | chooses (early : sys.position.isEarly = true) :
      Does h sys ((sys.tell (.chosen (h.record.depth sys.moment.files))).go
        (.triggering (h.record.depth sys.moment.files)))
  | triggers {depth : Depth} (chosen : sys.position = .triggering depth) :
      Does h sys ((sys.tell (.asked ⟨sys.moment.now, .trigger depth⟩)).go .awaitingTrigger)
  | looks (looking : sys.position = .looking) (free : sys.isCancelled = false) :
      Does h sys (sys.go .listening)
  | hears (listening : sys.position = .listening) : Does h sys (sys.go .clearing)
  | removes {files : FileSystem} (clearing : sys.position = .clearing)
      (done : sys.moment.files.remove h.record.path = .ok files) :
      Does h sys (((sys.withFiles (h.record.discard sys.moment.files).1).tell
        (.changed .removed)).go .serving)

theorem handle_does {h : Handshake} {sys next : System}
    (done : handle h.record sys = some next) : Does h sys next := by
  unfold handle at done
  split at done
  · cases done
  · rename_i signal s rest pending
    cases wrote : h.record.step (Bytes.ofString signal.name) sys.moment.files s with
    | error fault =>
        simp only [wrote, Option.some.injEq] at done
        exact done ▸ .fails pending
    | ok files =>
        simp only [wrote, Option.some.injEq] at done
        by_cases last : s = .move
        · subst last
          rw [if_pos rfl] at done
          exact done ▸ .records pending wrote
        · rw [if_neg last] at done
          exact done ▸ .writes pending last wrote
  · rename_i rest pending
    exact Option.some.inj done ▸ .cancelled pending
  · rename_i rest pending
    exact Option.some.inj done ▸ .exits pending

theorem Does.to {h : Handshake} {sys next : System} {position : Position}
    (moved : some (sys.go position) = some next)
    (early : sys.position.isEarly = true ∨ position.isEarly = false)
    (plain : position.isPlain = true) : Does h sys next := by
  obtain rfl := Option.some.inj moved
  refine .goes position ?_ plain
  intro stays
  rcases early with before | after
  · exact before
  · exact absurd stays (by simp [after])

theorem main_does {h : Handshake} {sys next : System} {news : News}
    (done : main h sys news = some next) : Does h sys next := by
  have early (position : Position) (here : sys.position = position)
      (is : position.isEarly = true) : sys.position.isEarly = true := here ▸ is
  unfold main at done
  split at done
  · rename_i asking
    split at done
    · exact .to done (Or.inr rfl) rfl
    · exact Option.some.inj done ▸ .asks (early _ asking rfl)
  · rename_i awaiting
    split at done
    · exact .to done (Or.inr rfl) rfl
    · split at done
      · exact .to done (Or.inl (early _ awaiting rfl)) rfl
      · exact .to done (Or.inl (early _ awaiting rfl)) rfl
      · exact .to done (Or.inl (early _ awaiting rfl)) rfl
  · rename_i choosing
    exact Option.some.inj done ▸ .chooses (early _ choosing rfl)
  · rename_i chosen
    exact Option.some.inj done ▸ .triggers chosen
  · rename_i awaiting
    split at done
    · exact .to done (Or.inr rfl) rfl
    · exact .to done (Or.inl (early _ awaiting rfl)) rfl
  · rename_i pausing
    split at done
    · exact .to done (Or.inr rfl) rfl
    · split at done
      · exact .to done (Or.inl (early _ pausing rfl)) rfl
      · cases done
  · rename_i preparing
    exact .to done (Or.inl (early _ preparing rfl)) rfl
  · exact .to done (Or.inr rfl) rfl
  · rename_i looking
    by_cases cancelled : sys.isCancelled = true
    · rw [if_pos cancelled] at done
      exact .to done (Or.inr rfl) rfl
    · rw [if_neg cancelled] at done
      exact Option.some.inj done ▸ .looks looking (by simpa using cancelled)
  · rename_i listening
    exact Option.some.inj done ▸ .hears listening
  · rename_i listening
    exact .to done (Or.inl (early _ listening rfl)) rfl
  · exact .to done (Or.inr rfl) rfl
  · rename_i clearing
    split at done
    · rename_i removed
      exact Option.some.inj done ▸ .removes clearing removed
    · exact .to done (Or.inr rfl) rfl
  · exact .to done (Or.inr rfl) rfl
  · exact .to done (Or.inr rfl) rfl
  · cases done

/-- A move does one of these things, in a run that has not ended. -/
theorem step_does {h : Handshake} {sys next : System} {move : Move h.record}
    (done : step h sys move = some next) : sys.position ≠ .ended ∧ Does h sys next := by
  unfold step at done
  by_cases closed : sys.position = .ended
  · rw [if_pos closed] at done
    cases done
  rw [if_neg closed] at done
  refine ⟨closed, ?_⟩
  cases move with
  | meanwhile d bystander => exact Option.some.inj done ▸ .meanwhile d bystander
  | stop => exact Option.some.inj done ▸ .cancels
  | signal signal =>
      by_cases idle : sys.deeds = []
      · simp only [if_pos idle, Option.some.injEq] at done
        exact done ▸ .takes signal idle
      · simp only [if_neg idle] at done
        cases done
  | handle => exact handle_does done
  | broken written =>
      simp only at done
      split at done
      · rename_i signal s rest pending
        exact Option.some.inj done ▸ .breaks written pending
      · cases done
  | main news => exact main_does done

/-- What every move keeps holds after every run. -/
theorem run_keeps {h : Handshake} {motive : System → Prop}
    (keeps : ∀ sys next, sys.position ≠ .ended → Does h sys next → motive sys → motive next)
    (moves : List (Move h.record)) :
    ∀ {sys last : System}, motive sys → run h moves sys = some last → motive last := by
  induction moves with
  | nil =>
      intro sys last holds ran
      obtain rfl := Option.some.inj ran
      exact holds
  | cons move rest ih =>
      intro sys last holds ran
      obtain ⟨next, done, ran⟩ := Option.bind_eq_some_iff.1 ran
      obtain ⟨open_, does⟩ := step_does done
      exact ih (keeps sys next open_ does holds) ran

end StoreWarden.Interleaving
