import StoreWarden.Proofs.HonestParts
import StoreWarden.Proofs.RunCourse

/-!
# What the answer of a run tells

A run ends in order only if it has been cancelled, by somebody else than itself, and it does so
whenever the cancellation is what ends one of its two waits.  Every failure is passed on as it is.
So a member that stops on its own account always makes the run fail.
-/

set_option autoImplicit false

namespace StoreWarden

namespace Outcome

variable {α β : Type} {o : Outcome α} {next : Life → α → Outcome β} {failure : Failure}

theorem andThen_eq_error_iff :
    (o.andThen next).answer = some (.error failure) ↔ o.answer = some (.error failure) ∨
      ∃ a, o.answer = some (.ok a) ∧ (next o.life a).answer = some (.error failure) := by
  unfold andThen
  cases answer : o.answer with
  | none => simp
  | some result => cases result <;> simp

end Outcome

namespace Life

open Engine (Member lasting_stopped)

variable {p : Parts} {s : Life} {m : Moment} {b : Member} {t u : Nat}

/-! ## How an attempt ends -/

theorem le_lastFrom (b : Member) (token : Cancellation) (u : Nat) : u ≤ lastFrom b token u := by
  unfold lastFrom
  cases stops : b.stoppedFrom token u with
  | none => simp [earliest]
  | some v =>
      have after : u ≤ v := Member.le_of_timeOf stops
      have patient : u ≤ min v (u + stopLimit) := by omega
      simpa [earliest] using patient

theorem failure_ne (never : b.NeverCancelled) {other : Failure} (own : other ≠ .cancelled) :
    b.takeFailure.2.getD other ≠ .cancelled :=
  (Member.neverCancelled_iff.1 never).getD_takeFailure_ne own

/-- A run that has a member ends in order, or as cancelled, only if it is cancelled. -/
theorem Attends.isCancelled {o : Outcome Unit} (way : Attends p s b o) (never : b.NeverCancelled)
    {answer : Except Failure Unit} (ended : o.answer = some answer)
    (orderly : closing answer = .ok ()) : o.life.moment.isCancelled = true := by
  have clean : answer = .ok () ∨ answer = .error .cancelled := closing_eq_ok_iff.1 orderly
  cases way with
  | waiting | serving => cases ended
  | cancelledEarly ends => exact (isCancelled_startup ends).2.2 rfl
  | stoppedEarly ends =>
      obtain rfl := Option.some.inj ended
      rcases clean with done | same
      · cases done
      · exact absurd (Except.error.inj same) (failure_ne (never.advance _ _) (by simp))
  | tooLate ends =>
      obtain rfl := Option.some.inj ended
      simp at clean
  | shutDown ready ends =>
      have fired := (isCancelled_ending ends).2.2 rfl
      exact Cancellation.isFired_mono (le_lastFrom _ _ _) fired
  | failed ready ends =>
      obtain rfl := Option.some.inj ended
      rcases clean with done | same
      · cases done
      · exact absurd (Except.error.inj same)
          (failure_ne ((never.advance _ _).advance _ _) (by simp))
  | aborted ready ends =>
      obtain rfl := Option.some.inj ended
      simp at clean

theorem attempt_isCancelled (honest : p.Honest) {answer : Except Failure Unit}
    (ended : (s.attempt p).answer = some answer) (orderly : closing answer = .ok ()) :
    (s.attempt p).life.moment.isCancelled = true := by
  have clean : answer = .ok () ∨ answer = .error .cancelled := closing_eq_ok_iff.1 orderly
  have way := goes p s
  generalize s.attempt p = o at way ended ⊢
  -- where there is no member yet, only an honest part can have answered that it was cancelled
  cases way with
  | obtaining | launching => cases ended
  | unobtained failed =>
      obtain rfl := Option.some.inj ended
      obtain rfl : _ = Failure.cancelled := by simpa using clean
      exact honest.obtains _ _ failed
  | unprepared obtained failed =>
      obtain rfl := Option.some.inj ended
      obtain rfl : _ = Failure.cancelled := by simpa using clean
      exact absurd failed (ordinary_prepare p _ _).uncancelled
  | unlaunched clears failed =>
      obtain rfl := Option.some.inj ended
      obtain rfl : _ = Failure.cancelled := by simpa using clean
      exact honest.launches _ _ _ failed
  | launched clears launched =>
      have never := (honest.members _ _ _ _ launched).2
      exact (attends p _ _).isCancelled never ended orderly

theorem attempt_of_stop (honest : p.Honest) (launches : Launches p s m b)
    (stops : b.stoppedFrom m.token m.now = some t) (free : m.token.isFired t = false) :
    ∃ failure, failure ≠ .cancelled ∧ (s.attempt p).answer = some (.error failure) ∧
      (s.attempt p).life.moment.now ≤ t := by
  have ⟨ordered, never⟩ : b.InOrder ∧ b.NeverCancelled := by
    obtain ⟨called, document, clears, launched⟩ := launches
    exact honest.members _ _ _ _ launched
  obtain ⟨now, rfl, same⟩ := launches.attempt
  have unfired {u : Nat} (before : u ≤ t) : (now.moment.moveTo u).isCancelled ≠ true := by
    intro fired
    have late := Cancellation.isFired_mono before fired
    simp [Moment.moveTo, free] at late
  -- once the member serves, it is still the same stop that is ahead
  have later {v : Nat} (ready : startup p now.moment b = some (v, .ready)) :
      (b.advance now.moment.token v).stoppedFrom now.moment.token v = some t :=
    Member.timeOf_advance ordered lasting_stopped (isCancelled_startup ready).1
      (le_of_startup ready stops) stops
  have way := attends p now b
  rw [same]
  generalize attend p now b = o at way ⊢
  cases way with
  | waiting endless => exact absurd endless (startup_ne_none stops)
  | cancelledEarly ends =>
      have before := le_of_startup ends stops
      exact absurd ((isCancelled_startup ends).2.2 rfl) (unfired before)
  | stoppedEarly ends =>
      exact ⟨_, failure_ne (never.advance _ _) (by simp), rfl, le_of_startup ends stops⟩
  | tooLate ends => exact ⟨_, by simp, rfl, le_of_startup ends stops⟩
  | serving ready endless => exact absurd endless (ending_ne_none (later ready))
  | shutDown ready ends =>
      have before := le_of_ending ends (later ready)
      exact absurd ((isCancelled_ending ends).2.2 rfl) (unfired before)
  | failed ready ends =>
      have before := le_of_ending ends (later ready)
      exact ⟨_, failure_ne ((never.advance _ _).advance _ _) (by simp), rfl, before⟩
  | aborted ready ends => exact ⟨_, by simp, rfl, le_of_ending ends (later ready)⟩

/-! ## The answer of a run -/

/-- What a run fails with: obtaining the document, launching the member, or waiting on it. -/
inductive Fails (p : Parts) (s : Life) (failure : Failure) : Prop
  | setup (failed : (s.setup p).answer = some (.error failure))
  | launch (done : (s.setup p).answer = some (.ok ()))
      (failed : ((s.setup p).life.launch p).answer = some (.error failure))
  | wait {b : Member} (done : (s.setup p).answer = some (.ok ()))
      (launched : ((s.setup p).life.launch p).answer = some (.ok b))
      (failed : (((s.setup p).life.launch p).life.wait b).1.answer = some (.error failure))

theorem attempt_eq_error_iff {failure : Failure} :
    (s.attempt p).answer = some (.error failure) ↔ Fails p s failure := by
  unfold attempt
  rw [Outcome.andThen_eq_error_iff]
  constructor
  · rintro (failed | ⟨done, obtained, failed⟩)
    · exact .setup failed
    · rcases Outcome.andThen_eq_error_iff.1 failed with failed | ⟨b, launched, failed⟩
      · exact .launch obtained failed
      · exact .wait obtained launched failed
  · rintro (failed | ⟨obtained, failed⟩ | ⟨obtained, launched, failed⟩)
    · exact Or.inl failed
    · exact Or.inr ⟨_, obtained, Outcome.andThen_eq_error_iff.2 (Or.inl failed)⟩
    · exact Or.inr ⟨_, obtained, Outcome.andThen_eq_error_iff.2 (Or.inr ⟨_, launched, failed⟩)⟩

/-- What the answer of a run tells. -/
structure Tells (p : Parts) (s : Life) : Prop where
  /-- A run that ends in order was cancelled before it was closed. -/
  orderly : (s.run p).answer = some (.ok ()) → (s.attempt p).life.moment.isCancelled = true
  failure : ∀ failure, (s.run p).answer = some (.error failure) ↔
    failure ≠ .cancelled ∧ Fails p s failure
  closed : ∀ answer, (s.run p).answer = some answer →
    (s.run p).life = (s.attempt p).life.close ∧ (s.run p).life.moment.isCancelled = true
  /-- Cancelled in the wait until the member serves. -/
  awaiting : ∀ m b t, Launches p s m b → m.token.seenFrom m.now = some t → Awaits p m b t →
    (s.run p).answer = some (.ok ())
  /-- Cancelled in the wait on a member that serves. -/
  serving : ∀ m b t u, Launches p s m b → Serves p m b t → m.token.seenFrom t = some u →
    (∀ v ∈ b.failureFrom m.token t, u ≤ v) → (∀ v ∈ b.stoppedFrom m.token t, u ≤ v) →
    (s.run p).answer = some (.ok ())
  stopped : ∀ m b t, Launches p s m b → b.stoppedFrom m.token m.now = some t →
    m.token.isFired t = false →
    ∃ failure, (s.run p).answer = some (.error failure) ∧ (s.run p).life.moment.now ≤ t

theorem attempt_of_awaiting (launches : Launches p s m b) (seen : m.token.seenFrom m.now = some t)
    (awaits : Awaits p m b t) : (s.attempt p).answer = some (.error .cancelled) := by
  obtain ⟨now, rfl, same⟩ := launches.attempt
  simp only [same, attend, awaitReady, startup_eq_cancelled_iff.2 ⟨seen, awaits⟩]
  rfl

theorem attempt_of_serving (ordered : b.InOrder) (launches : Launches p s m b)
    (serves : Serves p m b t) (seen : m.token.seenFrom t = some u)
    (failed : ∀ v ∈ b.failureFrom m.token t, u ≤ v)
    (stopped : ∀ v ∈ b.stoppedFrom m.token t, u ≤ v) :
    (s.attempt p).answer = some (.ok ()) := by
  obtain ⟨now, rfl, same⟩ := launches.attempt
  have ends : ending (now.served p t).moment (b.advance now.moment.token t) =
      some (u, .cancelled) := by
    rw [ending_served ordered]
    exact ending_eq_cancelled_iff.2 ⟨seen, failed, stopped⟩
  have way := attends p now b
  rw [same]
  generalize attend p now b = o at way ⊢
  have ready := startup_eq_ready_iff.2 serves
  cases way with
  | waiting other | cancelledEarly other | stoppedEarly other | tooLate other =>
      simp [ready] at other
  | shutDown => rfl
  | serving ready' other | failed ready' other | aborted ready' other =>
      obtain rfl := by simpa using ready'.symm.trans ready
      simp [ends] at other

theorem run_of_stop (honest : p.Honest) (launches : Launches p s m b)
    (stops : b.stoppedFrom m.token m.now = some t) (free : m.token.isFired t = false) :
    ∃ failure, (s.run p).answer = some (.error failure) ∧ (s.run p).life.moment.now ≤ t := by
  obtain ⟨failure, own, ended, before⟩ := attempt_of_stop honest launches stops free
  have answer : (s.run p).answer = some (.error failure) := by
    rw [run_answer, ended, Option.map_some, closing_eq_error_iff.2 ⟨rfl, own⟩]
  refine ⟨failure, answer, ?_⟩
  rw [run_life answer]
  exact before

/-- What a run with honest parts answers tells how it went. -/
theorem run_tells (p : Parts) (s : Life) (honest : p.Honest) : Tells p s := by
  constructor
  case orderly =>
    intro ended
    rw [run_answer] at ended
    obtain ⟨answer, own, orderly⟩ := Option.map_eq_some_iff.1 ended
    exact attempt_isCancelled honest own orderly
  case failure =>
    intro failure
    rw [run_answer, Option.map_eq_some_iff, ← attempt_eq_error_iff]
    constructor
    · rintro ⟨answer, own, passed⟩
      obtain ⟨rfl, other⟩ := closing_eq_error_iff.1 passed
      exact ⟨other, own⟩
    · rintro ⟨other, own⟩
      exact ⟨_, own, closing_eq_error_iff.2 ⟨rfl, other⟩⟩
  case closed =>
    intro answer ended
    have life := run_life ended
    exact ⟨life, life ▸ close_isCancelled _⟩
  case awaiting =>
    intro m b t launches seen awaits
    rw [run_answer, attempt_of_awaiting launches seen awaits]
    rfl
  case serving =>
    intro m b t u launches serves seen failed stopped
    have ordered : b.InOrder := by
      obtain ⟨called, document, clears, launched⟩ := launches
      exact (honest.members _ _ _ _ launched).1
    rw [run_answer, attempt_of_serving ordered launches serves seen failed stopped]
    rfl
  case stopped =>
    intro m b t launches stops free
    exact run_of_stop honest launches stops free

/-- Parts with a member that serves for a while and then stops. -/
def brief : Parts where
  settings := .default
  obtain := Action.pure (.ok .empty)
  launcher _ m := some (m, .ok
    (Member.launched m.now (fun _ => [(3, .reported .ready), (9, .reported .stopped)]) m.token))
  checkGiven := true
  portFault := none

theorem honest_brief : brief.Honest := by
  constructor
  case obtains => intro m last ended; cases ended
  case launches => intro path m last ended; cases ended
  case members =>
    intro path m next b launched
    obtain ⟨rfl, rfl⟩ := by simpa [brief] using launched.symm
    refine ⟨fun token => by simp [Member.launched, Engine.Timeline.InOrder], ?_⟩
    exact Member.launched_neverCancelled (by simp) _

/-- A world in which everything goes well, until the child process ends with 0 by itself. -/
def leaving : World where
  sidecar t _ := ⟨some 1, .ok ⟨.ok, none, ⟨some 0,
    .ok (Bytes.ofString (if t = 0 then "Successful" else "data-dir: /d"))⟩⟩⟩
  spawn _ _ := .ok ⟨some (900, .code 0), none⟩
  checks _ := ⟨some 0, true⟩
  portFault := none
  signals := []
  rounds := 2
  tie _ := true

def untold : Settings :=
  { Settings.default with
    recordPath := .ofString "exit_code", documentPath := .ofString "etcd.yaml" }

/-- The member has stopped by itself, so that the run fails, cancelled or not later. -/
theorem run_tells_brief : Tells brief (start ⟨0, .firingAt 20, .empty⟩) ∧
    ((start ⟨0, .firingAt 20, .empty⟩).run brief).answer = some (.error (.engine .aborted)) ∧
    ∃ p, Parts.assemble leaving .empty untold = .ok p ∧
      Tells p (start ⟨0, .firingAt 2000, .empty⟩) ∧
      ((start ⟨0, .firingAt 2000, .empty⟩).run p).answer = some (.error (.engine .aborted)) := by
  refine ⟨run_tells brief _ honest_brief, by rfl, ?_⟩
  obtain ⟨p, built, answer⟩ : ∃ p, Parts.assemble leaving .empty untold = .ok p ∧
      ((start ⟨0, .firingAt 2000, .empty⟩).run p).answer = some (.error (.engine .aborted)) :=
    ⟨_, rfl, by decide +kernel⟩
  exact ⟨p, built, run_tells p _ (Parts.honest_assemble built), answer⟩

end Life

end StoreWarden
