import StoreWarden.Lifecycle
import StoreWarden.Proofs.MemberTimes

/-!
# The course of a run

`Goes` lists the ways in which a run can go up to where it is closed, and `Attends` the ways in
which it goes on once it has a member.  `goes` and `attends` find the way that is taken.  Closing a
run cancels it and turns one answer into another, `closing`; it changes nothing else.
-/

set_option autoImplicit false

namespace StoreWarden.Life

open Engine (Member)

/-! ## Closing -/

def attempt (p : Parts) (s : Life) : Outcome Unit := (s.setup p).andThen fun s _ => s.begin p

/-- How a run ends that has got an answer. -/
def closing : Except Failure Unit → Except Failure Unit
  | .error .cancelled => .ok ()
  | answer => answer

theorem closing_eq_ok_iff {answer : Except Failure Unit} :
    closing answer = .ok () ↔ answer = .ok () ∨ answer = .error .cancelled := by
  cases answer with
  | ok done => simp [closing]
  | error failure => cases failure <;> simp [closing]

theorem closing_eq_error_iff {answer : Except Failure Unit} {failure : Failure} :
    closing answer = .error failure ↔ answer = .error failure ∧ failure ≠ .cancelled := by
  cases answer with
  | ok done => simp [closing]
  | error own => cases own <;> cases failure <;> simp [closing]

theorem run_of_endless {p : Parts} {s : Life} (never : (s.attempt p).answer = none) :
    s.run p = s.attempt p := by
  unfold attempt at never
  simp only [run, never]
  rfl

theorem run_of_answer {p : Parts} {s : Life} {answer : Except Failure Unit}
    (ended : (s.attempt p).answer = some answer) :
    s.run p = (s.attempt p).life.close.finish (closing answer) := by
  have same : s.attempt p = (s.setup p).andThen fun s _ => s.begin p := rfl
  rw [same] at ended ⊢
  simp only [run, ended]
  cases answer with
  | ok done => rfl
  | error failure => cases failure <;> rfl

theorem run_answer (p : Parts) (s : Life) :
    (s.run p).answer = (s.attempt p).answer.map closing := by
  cases ended : (s.attempt p).answer with
  | none => rw [run_of_endless ended, ended]; rfl
  | some answer => rw [run_of_answer ended]; rfl

theorem run_life {p : Parts} {s : Life} {answer : Except Failure Unit}
    (ended : (s.run p).answer = some answer) : (s.run p).life = (s.attempt p).life.close := by
  rw [run_answer] at ended
  obtain ⟨own, ended, -⟩ := Option.map_eq_some_iff.1 ended
  rw [run_of_answer ended]
  rfl

theorem close_isCancelled (s : Life) : s.close.moment.isCancelled = true := by
  simp [close, Moment.isCancelled, Moment.cancel, Cancellation.isFired_cancel]

/-! ## Up to a member -/

/-- A run obtains a document in a moment, and is prepared for the launch. -/
structure Clears (p : Parts) (s : Life) (m : Moment) (document : Engine.Settings) : Prop where
  obtained : p.obtain s.moment = some (m, .ok document)
  prepared : prepare p m.files document = .ok ()

/-- A run that calls the launcher. -/
def calling (p : Parts) (s : Life) (m : Moment) (document : Engine.Settings) : Life :=
  ⟨m, some document, some (p.server document), s.launches ++ [⟨m.now, p.settings.documentPath⟩]⟩

/-- What becomes of a run that has a member. -/
def attend (p : Parts) (s : Life) (b : Member) : Outcome Unit :=
  (awaitReady p s b).andThen fun s b => (s.wait b).1

/-- All ways in which a run can go. -/
inductive Goes (p : Parts) (s : Life) : Outcome Unit → Prop
  | obtaining (never : p.obtain s.moment = none) : Goes p s ⟨s, none⟩
  | unobtained {m : Moment} {failure : Failure}
      (failed : p.obtain s.moment = some (m, .error failure)) :
      Goes p s ⟨{ s with moment := m }, some (.error failure)⟩
  | unprepared {m : Moment} {document : Engine.Settings} {failure : Failure}
      (obtained : p.obtain s.moment = some (m, .ok document))
      (failed : prepare p m.files document = .error failure) :
      Goes p s ⟨{ s with moment := m, document := some document }, some (.error failure)⟩
  | launching {m : Moment} {document : Engine.Settings} (clears : Clears p s m document)
      (never : p.launcher p.settings.documentPath m = none) :
      Goes p s ⟨s.calling p m document, none⟩
  | unlaunched {m next : Moment} {document : Engine.Settings} {failure : Failure}
      (clears : Clears p s m document)
      (failed : p.launcher p.settings.documentPath m = some (next, .error failure)) :
      Goes p s ⟨{ s.calling p m document with moment := next }, some (.error failure)⟩
  | launched {m next : Moment} {document : Engine.Settings} {b : Member}
      (clears : Clears p s m document)
      (launched : p.launcher p.settings.documentPath m = some (next, .ok b)) :
      Goes p s (attend p { s.calling p m document with moment := next } b)

theorem goes (p : Parts) (s : Life) : Goes p s (s.attempt p) := by
  unfold attempt setup perform
  cases obtained : p.obtain s.moment with
  | none => exact .obtaining obtained
  | some result =>
      obtain ⟨m, answer⟩ := result
      cases answer with
      | error failure => exact .unobtained obtained
      | ok document =>
          simp only [Outcome.andThen, finish, begin, launch]
          cases prepared : prepare p m.files document with
          | error failure => exact .unprepared obtained prepared
          | ok done =>
              have clears : Clears p s m document := ⟨obtained, prepared⟩
              simp only [perform]
              cases called : p.launcher p.settings.documentPath m with
              | none => exact .launching clears called
              | some result =>
                  obtain ⟨next, answer⟩ := result
                  cases answer with
                  | error failure => exact .unlaunched clears called
                  | ok b => exact .launched clears called

/-- A run has a member, in the moment in which the launcher hands it over. -/
def Launches (p : Parts) (s : Life) (m : Moment) (b : Member) : Prop :=
  ∃ called document, Clears p s called document ∧
    p.launcher p.settings.documentPath called = some (m, .ok b)

theorem Clears.unique {p : Parts} {s : Life} {m n : Moment} {document other : Engine.Settings}
    (clears : Clears p s m document) (clears' : Clears p s n other) :
    m = n ∧ document = other := by
  have same := clears.obtained.symm.trans clears'.obtained
  simpa using same

/-- Nothing comes between the setup of a run that clears and the call of its launcher. -/
theorem attempt_of_clears {p : Parts} {s : Life} {m : Moment} {document : Engine.Settings}
    (clears : Clears p s m document) :
    s.attempt p = ((s.calling p m document).perform (p.launcher p.settings.documentPath)).andThen
      fun s b => attend p s b := by
  have way := goes p s
  generalize s.attempt p = o at way
  cases way with
  | obtaining never => cases never.symm.trans clears.obtained
  | unobtained failed => cases failed.symm.trans clears.obtained
  | unprepared obtained failed =>
      obtain ⟨rfl, rfl⟩ := by simpa using obtained.symm.trans clears.obtained
      cases failed.symm.trans clears.prepared
  | launching clears' never =>
      obtain ⟨rfl, rfl⟩ := clears'.unique clears
      simp only [perform, calling, never, Outcome.andThen]
  | unlaunched clears' failed =>
      obtain ⟨rfl, rfl⟩ := clears'.unique clears
      simp only [perform, calling, failed, Outcome.andThen]
  | launched clears' launched =>
      obtain ⟨rfl, rfl⟩ := clears'.unique clears
      simp only [perform, calling, launched, Outcome.andThen]

theorem Launches.attempt {p : Parts} {s : Life} {m : Moment} {b : Member}
    (launches : Launches p s m b) :
    ∃ now : Life, now.moment = m ∧ s.attempt p = attend p now b := by
  obtain ⟨called, document, clears, launched⟩ := launches
  refine ⟨{ s.calling p called document with moment := m }, rfl, ?_⟩
  rw [attempt_of_clears clears]
  simp only [perform, calling, launched, Outcome.andThen]

/-! ## The two waits -/

/-- Nothing but the cancellation ends the wait until the member serves before `t`. -/
@[mk_iff]
structure Awaits (p : Parts) (m : Moment) (b : Member) (t : Nat) : Prop where
  ready : ∀ u, b.readyFrom m.token m.now = some u → t ≤ u
  stopped : ∀ u, b.stoppedFrom m.token m.now = some u → t ≤ u
  limit : ∀ seconds, p.settings.waitLimit? = some seconds → t ≤ m.now + 1000 * seconds

/-- The member comes to serve at `t`, and nothing ends the wait for that before. -/
@[mk_iff]
structure Serves (p : Parts) (m : Moment) (b : Member) (t : Nat) : Prop where
  ready : b.readyFrom m.token m.now = some t
  free : ∀ u, m.token.seenFrom m.now = some u → t < u
  stopped : ∀ u, b.stoppedFrom m.token m.now = some u → t ≤ u
  limit : ∀ seconds, p.settings.waitLimit? = some seconds → t ≤ m.now + 1000 * seconds

section
variable {p : Parts} {m : Moment} {b : Member} {t : Nat}

theorem startup_eq_cancelled_iff : startup p m b = some (t, .cancelled) ↔
    m.token.seenFrom m.now = some t ∧ Awaits p m b t := by
  simp [startup, firstOf_cons_eq_some_iff, firstOf, awaits_iff]

theorem startup_eq_ready_iff : startup p m b = some (t, .ready) ↔ Serves p m b t := by
  simp [startup, firstOf_cons_eq_some_iff, firstOf, serves_iff]
  tauto

theorem startup_eq_tooLate_iff {seconds : Nat} :
    startup p m b = some (t, .tooLate seconds) ↔
      p.settings.waitLimit? = some seconds ∧ t = m.now + 1000 * seconds ∧
        (∀ u, m.token.seenFrom m.now = some u → t < u) ∧
        (∀ u, b.readyFrom m.token m.now = some u → t < u) ∧
        ∀ u, b.stoppedFrom m.token m.now = some u → t < u := by
  cases limit : p.settings.waitLimit? with
  | none => simp [startup, firstOf_cons_eq_some_iff, firstOf, limit]
  | some given =>
      simp only [startup, firstOf_cons_eq_some_iff, firstOf, limit]
      simp only [reduceCtorEq, Option.map_some, Option.getD_some, List.mem_cons,
        List.not_mem_nil, or_false, Option.mem_def, forall_eq_or_imp, forall_eq,
        Option.some.injEq, forall_eq', false_and, and_false, Startup.tooLate.injEq,
        IsEmpty.forall_iff, implies_true, and_true, false_or]
      constructor
      · rintro ⟨⟨⟨⟨rfl, rfl⟩, stopped⟩, ready⟩, free⟩
        exact ⟨rfl, rfl, free, ready, stopped⟩
      · rintro ⟨rfl, rfl, free, ready, stopped⟩
        exact ⟨⟨⟨⟨rfl, rfl⟩, stopped⟩, ready⟩, free⟩

theorem startup_ne_none (stops : b.stoppedFrom m.token m.now = some t) :
    startup p m b ≠ none := by
  intro endless
  have never := firstOf_eq_none_iff.1 endless (b.stoppedFrom m.token m.now, .stopped) (by simp)
  cases stops.symm.trans never

theorem le_of_startup {u : Nat} {event : Startup} (ends : startup p m b = some (u, event))
    (stops : b.stoppedFrom m.token m.now = some t) : u ≤ t :=
  le_of_firstOf ends (b.stoppedFrom m.token m.now, .stopped) (by simp) t stops

theorem stoppedFrom_of_startup (ends : startup p m b = some (t, .stopped)) :
    b.stoppedFrom m.token m.now = some t := by
  simpa [eq_comm] using mem_of_firstOf ends

theorem ending_eq_cancelled_iff : ending m b = some (t, .cancelled) ↔
    m.token.seenFrom m.now = some t ∧ (∀ u, b.failureFrom m.token m.now = some u → t ≤ u) ∧
      ∀ u, b.stoppedFrom m.token m.now = some u → t ≤ u := by
  simp [ending, firstOf_cons_eq_some_iff, firstOf]

theorem ending_eq_failed_iff : ending m b = some (t, .failed) ↔
    b.failureFrom m.token m.now = some t ∧ (∀ u, m.token.seenFrom m.now = some u → t < u) ∧
      ∀ u, b.stoppedFrom m.token m.now = some u → t ≤ u := by
  simp [ending, firstOf_cons_eq_some_iff, firstOf]
  tauto

theorem ending_ne_none (stops : b.stoppedFrom m.token m.now = some t) : ending m b ≠ none := by
  intro endless
  have never := firstOf_eq_none_iff.1 endless (b.stoppedFrom m.token m.now, .stopped) (by simp)
  cases stops.symm.trans never

theorem le_of_ending {u : Nat} {event : Ending} (ends : ending m b = some (u, event))
    (stops : b.stoppedFrom m.token m.now = some t) : u ≤ t :=
  le_of_firstOf ends (b.stoppedFrom m.token m.now, .stopped) (by simp) t stops

theorem stoppedFrom_of_ending (ends : ending m b = some (t, .stopped)) :
    b.stoppedFrom m.token m.now = some t := by
  simpa [eq_comm] using mem_of_firstOf ends

end

/-! ## From a member on -/

/-- A run whose member has come to serve at `t`. -/
def served (p : Parts) (s : Life) (t : Nat) : Life :=
  let record : ExitRecord := ⟨p.settings.recordPath⟩
  { s with moment := { s.moment.moveTo t with files := (record.discard s.moment.files).1 } }

/-- What a member has told before it serves makes no difference to how the wait on it ends. -/
theorem ending_served {b : Member} (ordered : b.InOrder) (p : Parts) (s : Life) (t : Nat) :
    ending (s.served p t).moment (b.advance s.moment.token t) =
      ending (s.moment.moveTo t) b := by
  have same {f : Engine.Reports → Bool} :
      (b.advance s.moment.token t).timeOf f s.moment.token t = b.timeOf f s.moment.token t :=
    Member.timeOf_advance_self ordered t
  simp only [ending, served, Moment.moveTo, Member.failureFrom, Member.stoppedFrom, same]

/-- When a run ends that is cancelled at `u`, while its member serves. -/
def lastFrom (b : Member) (token : Cancellation) (u : Nat) : Nat :=
  (earliest (b.stoppedFrom token u) (some (u + stopLimit))).getD u

/-- All ways in which a run with a member can go. -/
inductive Attends (p : Parts) (s : Life) (b : Member) : Outcome Unit → Prop
  | waiting (never : startup p s.moment b = none) : Attends p s b ⟨s, none⟩
  | cancelledEarly {t : Nat} (ends : startup p s.moment b = some (t, .cancelled)) :
      Attends p s b ⟨s.moveTo t, some (.error .cancelled)⟩
  | stoppedEarly {t : Nat} (ends : startup p s.moment b = some (t, .stopped)) :
      Attends p s b ⟨s.moveTo t, some (.error
        ((b.advance s.moment.token t).takeFailure.2.getD (.engine .stoppedEarly)))⟩
  | tooLate {t seconds : Nat} (ends : startup p s.moment b = some (t, .tooLate seconds)) :
      Attends p s b ⟨s.moveTo t, some (.error (.engine (.notReadyWithin seconds)))⟩
  | serving {t : Nat} (ready : startup p s.moment b = some (t, .ready))
      (never : ending (s.served p t).moment (b.advance s.moment.token t) = none) :
      Attends p s b ⟨s.served p t, none⟩
  | shutDown {t u : Nat} (ready : startup p s.moment b = some (t, .ready))
      (ends : ending (s.served p t).moment (b.advance s.moment.token t) = some (u, .cancelled)) :
      Attends p s b ⟨(s.served p t).moveTo
        (lastFrom ((b.advance s.moment.token t).advance s.moment.token u) s.moment.token u),
        some (.ok ())⟩
  | failed {t u : Nat} (ready : startup p s.moment b = some (t, .ready))
      (ends : ending (s.served p t).moment (b.advance s.moment.token t) = some (u, .failed)) :
      Attends p s b ⟨(s.served p t).moveTo u, some (.error
        (((b.advance s.moment.token t).advance s.moment.token u).takeFailure.2.getD
          (.engine .aborted)))⟩
  | aborted {t u : Nat} (ready : startup p s.moment b = some (t, .ready))
      (ends : ending (s.served p t).moment (b.advance s.moment.token t) = some (u, .stopped)) :
      Attends p s b ⟨(s.served p t).moveTo u, some (.error (.engine .aborted))⟩

theorem attends (p : Parts) (s : Life) (b : Member) : Attends p s b (attend p s b) := by
  unfold attend awaitReady
  cases ends : startup p s.moment b with
  | none => exact .waiting ends
  | some event =>
      obtain ⟨t, event⟩ := event
      cases event with
      | cancelled => exact .cancelledEarly ends
      | stopped => exact .stoppedEarly ends
      | tooLate seconds => exact .tooLate ends
      | ready =>
          simp only [finish, Outcome.andThen]
          change Attends p s b ((s.served p t).wait (b.advance s.moment.token t)).1
          unfold wait
          cases ends' : ending (s.served p t).moment (b.advance s.moment.token t) with
          | none => exact .serving ends ends'
          | some event =>
              obtain ⟨u, event⟩ := event
              cases event with
              | cancelled => exact .shutDown ends ends'
              | failed => exact .failed ends ends'
              | stopped => exact .aborted ends ends'

theorem attend_keeps (p : Parts) (s : Life) (b : Member) :
    (attend p s b).life.launches = s.launches ∧ (attend p s b).life.document = s.document := by
  have way := attends p s b
  generalize attend p s b = o at way ⊢
  cases way <;> exact ⟨rfl, rfl⟩

/-- What was launched and with which settings does not change any more once the launcher is
called. -/
theorem attempt_keeps {p : Parts} {s : Life} {m : Moment} {document : Engine.Settings}
    (clears : Clears p s m document) :
    (s.attempt p).life.launches = s.launches ++ [⟨m.now, p.settings.documentPath⟩] ∧
      (s.attempt p).life.document = some document := by
  rw [attempt_of_clears clears]
  unfold perform
  cases p.launcher p.settings.documentPath (s.calling p m document).moment with
  | none => exact ⟨rfl, rfl⟩
  | some result =>
      obtain ⟨next, answer⟩ := result
      cases answer with
      | error failure => exact ⟨rfl, rfl⟩
      | ok b => exact attend_keeps p { s.calling p m document with moment := next } b

end StoreWarden.Life
