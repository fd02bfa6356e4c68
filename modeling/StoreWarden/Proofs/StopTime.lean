import StoreWarden.Proofs.RunCourse

/-!
# The time that a member gets to stop

A run that is cancelled while its member serves waits until the member has stopped, for a bounded
time.  The other ways in which a run with a member ends have no such wait: when it is cancelled
before the member serves, when the member does not come to serve in time, and when the member
fails.  `run_hadTime_iff` tells exactly which runs are over too early.
-/

set_option autoImplicit false

namespace StoreWarden.Life

open Engine (Member lasting_stopped)

/-- By `t` the member has stopped, or has had its time since the run was cancelled. -/
def HadTime (m : Moment) (b : Member) (t : Nat) : Prop :=
  (∃ u, b.stoppedFrom m.token m.now = some u ∧ u ≤ t) ∨
    ∃ f, m.token.firesAt = some f ∧ f + stopLimit ≤ t

/-- A run leaves its member, launched in `m`, while that still runs and has not had its time. -/
inductive CutShort (p : Parts) (m : Moment) (b : Member) : Prop
  /-- It is cancelled before the member serves. -/
  | cancelledEarly {t : Nat} (seen : m.token.seenFrom m.now = some t) (awaits : Awaits p m b t)
      (runs : ∀ u, b.stoppedFrom m.token m.now = some u → t < u)
      (recent : ∀ f, m.token.firesAt = some f → t < f + stopLimit)
  /-- The member does not come to serve within its limit, nor stop. -/
  | tooLate {seconds : Nat} (limit : p.settings.waitLimit? = some seconds)
      (free : ∀ u, m.token.seenFrom m.now = some u → m.now + 1000 * seconds < u)
      (silent : ∀ u, b.readyFrom m.token m.now = some u → m.now + 1000 * seconds < u)
      (runs : ∀ u, b.stoppedFrom m.token m.now = some u → m.now + 1000 * seconds < u)
  /-- The member serves from `t`, and a failure of it is there from `u`. -/
  | failed {t u : Nat} (serves : Serves p m b t) (failed : b.failureFrom m.token t = some u)
      (free : ∀ v, m.token.seenFrom t = some v → u < v)
      (runs : ∀ v, b.stoppedFrom m.token t = some v → u < v)

variable {p : Parts} {s : Life} {m : Moment} {b : Member} {t u : Nat}

theorem not_hadTime_iff : ¬ HadTime m b t ↔
    (∀ u, b.stoppedFrom m.token m.now = some u → t < u) ∧
      ∀ f, m.token.firesAt = some f → t < f + stopLimit := by
  simp [HadTime, not_or]

/-- The time from the cancellation on has not passed before the cancellation. -/
theorem recent_of_free {now : Nat} (free : ∀ u, m.token.seenFrom now = some u → t < u)
    (after : now ≤ t) : ∀ f, m.token.firesAt = some f → t < f + stopLimit := by
  intro f fires
  have before := free (max now f) (by simp [Cancellation.seenFrom, fires])
  omega

theorem stoppedFrom_of_le (ordered : b.InOrder) (after : m.now ≤ t) (before : t ≤ u)
    (stops : b.stoppedFrom m.token m.now = some u) : b.stoppedFrom m.token t = some u := by
  have later := Member.timeOf_advance ordered lasting_stopped after before stops
  rwa [Member.timeOf_advance_self ordered] at later

theorem stoppedFrom_before (ordered : b.InOrder) (after : m.now ≤ t)
    (stops : b.stoppedFrom m.token t = some u) :
    ∃ v, b.stoppedFrom m.token m.now = some v ∧ v ≤ u := by
  unfold Member.stoppedFrom at stops
  rw [← Member.timeOf_advance_self ordered] at stops
  obtain ⟨v, before, earlier⟩ := Member.le_timeOf_advance ordered lasting_stopped after stops
  exact ⟨v, earlier, before⟩

/-- The runs that are cut short are known by how their waits end. -/
theorem cutShort_iff (ordered : b.InOrder) : CutShort p m b ↔
    (∃ t, startup p m b = some (t, .cancelled) ∧ ¬ HadTime m b t) ∨
    (∃ t seconds, startup p m b = some (t, .tooLate seconds)) ∨
    ∃ t u, startup p m b = some (t, .ready) ∧ ending (m.moveTo t) b = some (u, .failed) ∧
      ¬ HadTime m b u := by
  constructor
  · -- what cuts a run short leaves only one event to end the wait
    intro cut
    cases cut with
    | cancelledEarly seen awaits runs recent =>
        have ends := startup_eq_cancelled_iff.2 ⟨seen, awaits⟩
        exact Or.inl ⟨_, ends, not_hadTime_iff.2 ⟨runs, recent⟩⟩
    | tooLate limit free silent runs =>
        have ends := startup_eq_tooLate_iff.2 ⟨limit, rfl, free, silent, runs⟩
        exact Or.inr (Or.inl ⟨_, _, ends⟩)
    | @failed t u serves failed free runs =>
        have after : m.now ≤ t := Member.le_of_timeOf serves.ready
        refine Or.inr (Or.inr ⟨t, u, startup_eq_ready_iff.2 serves, ?_, ?_⟩)
        · apply ending_eq_failed_iff.2
          exact ⟨failed, free, fun v stops => Nat.le_of_lt (runs v stops)⟩
        · refine not_hadTime_iff.2 ⟨?_, recent_of_free free (Member.le_of_timeOf failed)⟩
          intro v stops
          exact runs v (stoppedFrom_of_le ordered after (serves.stopped v stops) stops)
  · rintro (⟨t, ends, short⟩ | ⟨t, seconds, ends⟩ | ⟨t, u, ready, ends, short⟩)
    · obtain ⟨seen, awaits⟩ := startup_eq_cancelled_iff.1 ends
      obtain ⟨runs, recent⟩ := not_hadTime_iff.1 short
      exact .cancelledEarly seen awaits runs recent
    · obtain ⟨limit, rfl, free, silent, runs⟩ := startup_eq_tooLate_iff.1 ends
      exact .tooLate limit free silent runs
    · have serves := startup_eq_ready_iff.1 ready
      obtain ⟨failed, free, -⟩ := ending_eq_failed_iff.1 ends
      refine .failed serves failed free ?_
      intro v stops
      obtain ⟨w, earlier, before⟩ :=
        stoppedFrom_before ordered (Member.le_of_timeOf serves.ready) stops
      exact ((not_hadTime_iff.1 short).1 w earlier).trans_le before

/-- Cancelled while its member serves, a run waits until the member has had its time. -/
theorem hadTime_lastFrom (ordered : b.InOrder) (after : m.now ≤ u)
    (cancelled : (m.moveTo u).isCancelled = true) :
    HadTime m b (lastFrom (b.advance m.token u) m.token u) := by
  unfold lastFrom Member.stoppedFrom
  rw [Member.timeOf_advance_self ordered]
  have late : ∃ f, m.token.firesAt = some f ∧ f + stopLimit ≤ u + stopLimit := by
    cases fires : m.token.firesAt with
    | none => simp [Moment.isCancelled, Moment.moveTo, Cancellation.isFired, fires] at cancelled
    | some f =>
        simp only [Moment.isCancelled, Moment.moveTo, Cancellation.isFired, fires] at cancelled
        have fired : f ≤ u := of_decide_eq_true cancelled
        exact ⟨f, rfl, by omega⟩
  cases stops : b.timeOf (·.stopped) m.token u with
  | none => exact Or.inr late
  | some v =>
      obtain ⟨w, earlier, before⟩ := stoppedFrom_before ordered after stops
      simp only [earliest, Option.getD_some]
      rcases Nat.le_total v (u + stopLimit) with first | last
      · rw [Nat.min_eq_left first]
        exact Or.inl ⟨w, earlier, before⟩
      · rw [Nat.min_eq_right last]
        exact Or.inr late

theorem Attends.hadTime_iff {o : Outcome Unit} (way : Attends p s b o) (ordered : b.InOrder)
    {answer : Except Failure Unit} (ended : o.answer = some answer) :
    HadTime s.moment b o.life.moment.now ↔ ¬ CutShort p s.moment b := by
  rw [cutShort_iff ordered]
  cases way with
  | waiting | serving => cases ended
  | cancelledEarly ends => simp [ends, moveTo, Moment.moveTo]
  | @stoppedEarly t ends =>
      have had : HadTime s.moment b t := Or.inl ⟨t, stoppedFrom_of_startup ends, Nat.le_refl t⟩
      exact iff_of_true had (by simp [ends])
  | @tooLate t seconds ends =>
      -- a stop at the limit would have ended the wait first, and a cancellation too
      obtain ⟨-, same, free, -, runs⟩ := startup_eq_tooLate_iff.1 ends
      have after : s.moment.now ≤ t := by omega
      have short : ¬ HadTime s.moment b t := not_hadTime_iff.2 ⟨runs, recent_of_free free after⟩
      exact iff_of_false short (not_not_intro (Or.inr (Or.inl ⟨t, seconds, ends⟩)))
  | @shutDown t u ready ends =>
      rw [ending_served ordered] at ends
      obtain ⟨later, fires⟩ := isCancelled_ending ends
      have later : t ≤ u := later
      have after : s.moment.now ≤ u := (isCancelled_startup ready).1.trans later
      rw [Member.advance_advance ordered later]
      have had := hadTime_lastFrom ordered after (fires.2 rfl)
      exact iff_of_true had (by simp [ready, ends])
  | @failed t u ready ends =>
      rw [ending_served ordered] at ends
      change HadTime s.moment b u ↔ _
      simp [ready, ends]
  | @aborted t u ready ends =>
      rw [ending_served ordered] at ends
      obtain ⟨v, earlier, before⟩ :=
        stoppedFrom_before ordered (isCancelled_startup ready).1 (stoppedFrom_of_ending ends)
      have had : HadTime s.moment b u := Or.inl ⟨v, earlier, before⟩
      exact iff_of_true had (by simp [ready, ends])

/-- A run that has ended gave its member time to stop, unless it was cut short. -/
theorem run_hadTime_iff (p : Parts) (s : Life) (m : Moment) (b : Member)
    (launches : Launches p s m b) (ordered : b.InOrder) {answer : Except Failure Unit}
    (ended : (s.run p).answer = some answer) :
    HadTime m b (s.run p).life.moment.now ↔ ¬ CutShort p m b := by
  rw [run_life ended]
  obtain ⟨now, rfl, same⟩ := launches.attempt
  rw [run_answer, same] at ended
  obtain ⟨own, ended, -⟩ := Option.map_eq_some_iff.1 ended
  rw [same]
  exact (attends p now b).hadTime_iff ordered ended

/-- A member that never serves, and takes some time to stop once the run is cancelled. -/
def slowMember (m : Moment) : Member :=
  .launched m.now (fun token => (token.firesAt.map (· + 100, .reported .stopped)).toList) m.token

def slow : Parts where
  settings := .default
  obtain := Action.pure (.ok .empty)
  launcher _ m := some (m, .ok (slowMember m))
  checkGiven := true
  portFault := none

def fleeting : Moment := ⟨0, .firingAt 10, .empty⟩

/-- Cancelled at 10, the run is over at once, though its member stops at 110 only. -/
theorem run_hadTime_iff_slow :
    ((start fleeting).run slow).answer = some (.ok ()) ∧
      ((start fleeting).run slow).life.moment.now = 10 ∧
      (slowMember fleeting).stoppedFrom fleeting.token fleeting.now = some 110 ∧
      ¬ HadTime fleeting (slowMember fleeting) ((start fleeting).run slow).life.moment.now := by
  have launches : Launches slow (start fleeting) fleeting (slowMember fleeting) :=
    ⟨fleeting, .empty, ⟨rfl, by rfl⟩, rfl⟩
  have ordered : (slowMember fleeting).InOrder := by
    intro token
    cases fires : token.firesAt <;>
      simp [slowMember, Member.launched, Engine.Timeline.InOrder, fires]
  have ended : ((start fleeting).run slow).answer = some (.ok ()) := by rfl
  have stops : (slowMember fleeting).stoppedFrom fleeting.token fleeting.now = some 110 := by rfl
  have early : startup slow fleeting (slowMember fleeting) = some (10, .cancelled) := by rfl
  have short : ¬ HadTime fleeting (slowMember fleeting) 10 := by
    apply not_hadTime_iff.2
    constructor
    · intro u later
      obtain rfl := Option.some.inj (stops.symm.trans later)
      decide
    · intro f fires
      obtain rfl := Option.some.inj fires
      decide
  have cut : CutShort slow fleeting (slowMember fleeting) :=
    (cutShort_iff ordered).2 (Or.inl ⟨10, early, short⟩)
  refine ⟨ended, by rfl, stops, ?_⟩
  intro had
  exact (run_hadTime_iff slow (start fleeting) fleeting _ launches ordered ended).1 had cut

end StoreWarden.Life
