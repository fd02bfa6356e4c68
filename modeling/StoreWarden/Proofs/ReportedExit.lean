import StoreWarden.Proofs.ExitReport
import StoreWarden.Proofs.HonestParts
import StoreWarden.Proofs.ReadyRecord

/-!
# The verdict on a child that has ended

A member that is a child process queues the failure of its exit, if it is one, at the time at which
it has stopped.  So whoever waits for it finds the exit status there: in `awaitReady`, which takes a
failure from the queue once the member has stopped, and in `wait`, which looks at the queue before
the stop.  Either falls back on a failure of its own only where the child has ended well.
-/

set_option autoImplicit false

namespace StoreWarden.Engine

open ExitReport (failure? dues receive_failure)

/-! ## Failures that are queued -/

def Timeline.failures (timeline : Timeline) : List Failure :=
  timeline.filterMap fun e => match e.2 with
    | .reported (.failure failure) => some failure
    | _ => none

theorem lasting_failure : Lasting (!·.failures.items.isEmpty) := by
  intro r e has
  cases e with
  | gone => exact has
  | reported report =>
      cases report with
      | ready | stopped => exact has
      | failure failure =>
          simp only [Reports.after_failure_eq, Mailbox.send_items]
          simp_all

/-- As long as there is room the failures that are reported are queued in order. -/
theorem items_foldl (timeline : Timeline) : ∀ {r : Reports},
    r.failures.unattended = false ∧ r.failures.closed = false → (∀ e ∈ timeline, e.2 ≠ .gone) →
    r.failures.items.length + timeline.failures.length ≤ queueCapacity →
    (timeline.foldl (fun r e => r.after e.2) r).failures.items =
      r.failures.items ++ timeline.failures := by
  induction timeline with
  | nil => intro r _ _ _; exact (List.append_nil _).symm
  | cons entry rest ih =>
      intro r attended stays room
      obtain ⟨t, event⟩ := entry
      rw [List.forall_mem_cons] at stays
      obtain ⟨here, later⟩ := stays
      rw [List.foldl_cons]
      cases event with
      | gone => exact absurd rfl here
      | reported report =>
          cases report with
          | ready | stopped => exact ih attended later room
          | failure failure =>
              have more : Timeline.failures ((t, .reported (.failure failure)) :: rest) =
                  failure :: Timeline.failures rest := rfl
              rw [more, List.length_cons] at room
              obtain ⟨-, items, -, attended'⟩ := receive_failure attended (by omega) failure
              have room' : (r.receive (.failure failure)).1.failures.items.length +
                  (Timeline.failures rest).length ≤ queueCapacity := by
                rw [items, List.length_append, List.length_singleton]
                omega
              rw [more, List.append_cons, ← items]
              exact ih attended' later room'

namespace Timeline

theorem filter_insert {t : Nat} {event : Event} {q : Nat × Event → Bool} (off : ¬ q (t, event))
    (timeline : Timeline) : (timeline.insert t event).filter q = timeline.filter q := by
  induction timeline with
  | nil => exact List.filter_cons_of_neg off
  | cons entry rest ih =>
      simp only [insert]
      split
      · exact List.filter_cons_of_neg off
      · rw [List.filter_cons, List.filter_cons, ih]

/-- That a member serves is no failure. -/
theorem failures_unready (timeline : Timeline) :
    failures (timeline.filter (·.2 ≠ .reported .ready)) = failures timeline := by
  rw [failures, failures, List.filterMap_filter]
  congr 1
  funext e
  obtain ⟨t, event⟩ := e
  cases event with
  | gone => rfl
  | reported report => cases report <;> rfl

end Timeline

theorem Timeline.filter_le_append_lt {timeline : Timeline} (ordered : timeline.InOrder) (u : Nat) :
    timeline.filter (·.1 ≤ u) ++ timeline.filter (u < ·.1) = timeline := by
  induction timeline with
  | nil => rfl
  | cons entry rest ih =>
      obtain ⟨sooner, ordered⟩ := List.pairwise_cons.1 ordered
      by_cases early : entry.1 ≤ u
      · have early' : ¬ u < entry.1 := Nat.not_lt.2 early
        simpa [early, early'] using ih ordered
      · -- what comes after a late entry is late as well
        have late : ∀ e ∈ entry :: rest, u < e.1 := by
          rw [List.forall_mem_cons]
          exact ⟨Nat.lt_of_not_le early,
            fun e mem => (Nat.lt_of_not_le early).trans_le (sooner e mem)⟩
        have none' : (entry :: rest).filter (·.1 ≤ u) = [] := by
          rw [List.filter_eq_nil_iff]
          intro e mem
          simpa using late e mem
        have all : (entry :: rest).filter (u < ·.1) = entry :: rest := by
          rw [List.filter_eq_self]
          intro e mem
          simpa using late e mem
        rw [none', all, List.nil_append]

theorem Timeline.filter_le_append {timeline : Timeline} (ordered : timeline.InOrder) {u v : Nat}
    (after : u ≤ v) : timeline.filter (·.1 ≤ u) ++ (timeline.filter (u < ·.1)).filter (·.1 ≤ v) =
      timeline.filter (·.1 ≤ v) := by
  have early : (timeline.filter (·.1 ≤ u)).filter (·.1 ≤ v) = timeline.filter (·.1 ≤ u) := by
    rw [List.filter_eq_self]
    intro e mem
    have before : e.1 ≤ u := of_decide_eq_true (List.mem_filter.1 mem).2
    exact decide_eq_true (before.trans after)
  rw [← early, ← List.filter_append, Timeline.filter_le_append_lt ordered]

theorem Member.advance_launched {future : Cancellation → Timeline} {token : Cancellation}
    (ordered : (future token).InOrder) {now t : Nat} (after : now ≤ t) :
    ((launched now future token).advance token t).reports = (future token).reportsAt t .none := by
  rw [Timeline.reportsAt, ← Timeline.filter_le_append ordered after, List.foldl_append]
  rfl

namespace Supervisor

/-- A member that is a child process, started at `m`. -/
def member (s : Supervisor) (child : Child) (checks : Nat → Readiness.Check) (rounds : Nat)
    (tie : Bool) (m : Moment) : Member :=
  .launched m.now (s.timeline child checks rounds m.now tie) m.token

variable (s : Supervisor) (child : Child) (checks : Nat → Readiness.Check) (rounds : Nat)
  (tie : Bool) (m : Moment)

theorem farewell_eq (t : Nat) (status : ExitStatus) :
    farewell t status = (dues status).map (t, .reported ·) := by
  unfold farewell dues failure?
  cases status.isSuccess <;> rfl

/-- Besides that it serves, all that is reported of a child is how it has ended. -/
theorem unready_timeline (start : Nat) (token : Cancellation) :
    (s.timeline child checks rounds start tie token).filter (·.2 ≠ .reported .ready) =
      ((child.fate start s.grace token tie).stopped.map fun ending =>
        (dues ending.2).map (ending.1, .reported ·)).getD [] := by
  have ends : (((child.fate start s.grace token tie).stopped.map
      fun ending => farewell ending.1 ending.2).getD []).filter (·.2 ≠ .reported .ready) =
        ((child.fate start s.grace token tie).stopped.map fun ending =>
          (dues ending.2).map (ending.1, .reported ·)).getD [] := by
    cases (child.fate start s.grace token tie).stopped with
    | none => rfl
    | some ending =>
        obtain ⟨t, status⟩ := ending
        simp only [Option.map_some, Option.getD_some, ← farewell_eq]
        rw [List.filter_eq_self]
        intro e mem
        rcases mem_farewell.1 mem with rfl | ⟨-, rfl⟩ <;> rfl
  simp only [timeline]
  split
  · rw [Timeline.filter_insert (by simp)]
    exact ends
  · exact ends

theorem failures_timeline (start : Nat) (token : Cancellation) (q : Nat → Bool) :
    Timeline.failures ((s.timeline child checks rounds start tie token).filter fun e => q e.1) =
      (((child.fate start s.grace token tie).stopped.filter fun ending => q ending.1).bind
        fun ending => failure? ending.2).toList := by
  rw [← Timeline.failures_unready, List.filter_comm, unready_timeline]
  cases (child.fate start s.grace token tie).stopped with
  | none => rfl
  | some ending =>
      obtain ⟨t, status⟩ := ending
      simp only [Option.map_some, Option.getD_some, dues, failure?]
      cases due : q t <;> cases succeeds : status.isSuccess <;>
        simp [Timeline.failures, Option.filter, due, succeeds]

/-- What a child process has queued by `t`. -/
theorem items_member {t : Nat} (after : m.now ≤ t) :
    ((s.member child checks rounds tie m).advance m.token t).reports.failures.items =
      (((child.fate m.now s.grace m.token tie).stopped.filter (·.1 ≤ t)).bind
        fun ending => failure? ending.2).toList := by
  have told := s.failures_timeline child checks rounds tie m.now m.token (· ≤ t)
  have room : (Timeline.failures ((s.timeline child checks rounds m.now tie m.token).filter
      (·.1 ≤ t))).length ≤ queueCapacity := by
    rw [told]
    exact (Option.length_toList_le).trans (by decide)
  rw [← told, member, Member.advance_launched (s.timeline_inOrder _ _ _ _ _ _) after]
  refine items_foldl _ (r := .none) ⟨rfl, rfl⟩ ?_ ((Nat.zero_add _).le.trans room)
  intro e mem
  exact (timeline_ne (List.mem_of_mem_filter mem)).1

theorem started_member {spawn : String → List Bytes → Except Os.Fault Child} {document : Path}
    (spawned : spawn s.program (arguments document) = .ok child) :
    s.start spawn checks rounds tie document m =
      some (m, .ok (s.member child checks rounds tie m)) := by
  simp only [start, spawned]
  rfl

end Supervisor

/-- A member that stops at its exit, and has queued the failure of that by then. -/
structure Queues (b : Member) (m : Moment) (exit : Option (Nat × ExitStatus)) : Prop where
  ordered : b.InOrder
  later : ∀ e ∈ exit, m.now ≤ e.1
  stops : b.stoppedFrom m.token m.now = exit.map (·.1)
  items : ∀ t, m.now ≤ t → (b.advance m.token t).reports.failures.items =
    ((exit.filter (·.1 ≤ t)).bind fun ending => failure? ending.2).toList

namespace Queues

variable {b : Member} {m : Moment} {exit : Option (Nat × ExitStatus)} {e t : Nat}
  {status : ExitStatus}

theorem takes (queues : Queues b m exit) (ends : exit = some (e, status)) (late : e ≤ t) :
    (b.advance m.token t).takeFailure.2 = failure? status := by
  subst ends
  have from_ : m.now ≤ e := queues.later _ rfl
  rw [Member.takeFailure_snd, queues.items t (from_.trans late)]
  simp only [Option.filter, late, decide_true, if_true, Option.bind_some]
  cases failure? status <;> rfl

theorem failureFrom_eq_some_iff (queues : Queues b m exit) :
    b.failureFrom m.token m.now = some t ↔
      ∃ status, exit = some (t, status) ∧ status.isSuccess = false := by
  unfold Member.failureFrom
  rw [Member.timeOf_eq_some_iff queues.ordered lasting_failure]
  have has (u : Nat) (from_ : m.now ≤ u) :
      (!(b.advance m.token u).reports.failures.items.isEmpty) = true ↔
        ∃ e ≤ u, ∃ status, exit = some (e, status) ∧ status.isSuccess = false := by
    rw [queues.items u from_]
    cases exit with
    | none => simp
    | some ending =>
        obtain ⟨e, status⟩ := ending
        by_cases late : e ≤ u <;> cases succeeds : status.isSuccess <;>
          simp [Option.filter, late, failure?, succeeds]
  constructor
  · rintro ⟨from_, failed, before⟩
    obtain ⟨e, le, status, ends, fails⟩ := (has t from_).1 failed
    rcases Nat.lt_or_eq_of_le le with early | rfl
    · have since : m.now ≤ e := queues.later _ ends
      have lacks := before e since early
      rw [(has e since).2 ⟨e, Nat.le_refl _, status, ends, fails⟩] at lacks
      cases lacks
    · exact ⟨status, ends, fails⟩
  · rintro ⟨status, ends, fails⟩
    have from_ : m.now ≤ t := queues.later _ ends
    refine ⟨from_, (has t from_).2 ⟨t, Nat.le_refl _, status, ends, fails⟩, ?_⟩
    intro u since early
    rw [← Bool.not_eq_true, has u since]
    rintro ⟨e, le, other, ends', -⟩
    obtain ⟨rfl, -⟩ := Prod.mk.inj (Option.some.inj (ends.symm.trans ends'))
    omega

end Queues

namespace Supervisor

variable (s : Supervisor) (child : Child) (checks : Nat → Readiness.Check) (rounds : Nat)
  (tie : Bool) (m : Moment)

theorem queues_member : Queues (s.member child checks rounds tie m) m
    (child.fate m.now s.grace m.token tie).stopped where
  ordered token := s.timeline_inOrder child checks rounds m.now tie token
  later _ ends := Child.le_of_fate ends
  stops := by
    have started : s.start (fun _ _ => .ok child) checks rounds tie ⟨[]⟩ m =
        some (m, .ok (s.member child checks rounds tie m)) :=
      s.started_member child checks rounds tie m rfl
    exact stoppedFrom_eq_fate started rfl
  items _ after := s.items_member child checks rounds tie m after

end Supervisor

theorem Member.timeOf_of_le {b : Member} (ordered : b.InOrder) {token : Cancellation}
    {p : Reports → Bool} (lasting : Lasting p) {now t : Nat} (from_ : now ≤ t)
    (later : ∀ u, b.timeOf p token now = some u → t ≤ u) :
    b.timeOf p token t = b.timeOf p token now := by
  ext u
  constructor
  · intro time
    obtain ⟨v, -, first⟩ := le_timeOf_advance ordered lasting from_
      ((timeOf_advance_self ordered t).trans time)
    have same := timeOf_later ordered lasting from_ first
    rw [Nat.max_eq_right (later v first)] at same
    obtain rfl := Option.some.inj (same.symm.trans time)
    exact first
  · intro first
    have same := timeOf_later ordered lasting from_ first
    rwa [Nat.max_eq_right (later u first)] at same

end StoreWarden.Engine

namespace StoreWarden.Life

open Engine (Child ExitStatus Member Queues Supervisor lasting_failure lasting_stopped)
open Engine.ExitReport (Reported failure? dues)

variable {p : Parts} {life : Life} {m : Moment} {b : Member} {exit : Option (Nat × ExitStatus)}
  {e t : Nat} {status : ExitStatus}

/-! ## Before the member serves -/

/-- Why a member is not waited on that has been launched. -/
inductive Refusal (p : Parts) (m : Moment) (exit : Option (Nat × ExitStatus)) (now : Nat) :
    Failure → Prop
  | cancelled (fired : m.token.isFired now = true) : Refusal p m exit now .cancelled
  | tooLate {seconds : Nat} (limited : p.settings.waitLimit? = some seconds)
      (late : now = m.now + 1000 * seconds) (runs : ∀ ending ∈ exit, now < ending.1) :
      Refusal p m exit now (.engine (.notReadyWithin seconds))
  | ended {status : ExitStatus} (ends : exit = some (now, status)) :
      Refusal p m exit now ((failure? status).getD (.engine .stoppedEarly))

theorem refusal_of_awaitReady {failure : Failure} (queues : Queues b life.moment exit)
    (refused : (awaitReady p life b).answer = some (.error failure)) :
    Refusal p life.moment exit (awaitReady p life b).life.moment.now failure := by
  unfold awaitReady at refused ⊢
  cases ends : startup p life.moment b with
  | none =>
      rw [ends] at refused
      cases refused
  | some event =>
      obtain ⟨t, event⟩ := event
      rw [ends] at refused
      cases event with
      | cancelled =>
          cases refused
          exact .cancelled (Moment.isCancelled_moveTo_seen (startup_eq_cancelled_iff.1 ends).1)
      | ready => cases refused
      | stopped =>
          have time := stoppedFrom_of_startup ends
          rw [queues.stops] at time
          obtain ⟨⟨e, status⟩, exits, rfl⟩ := Option.map_eq_some_iff.1 time
          obtain rfl := Except.error.inj (Option.some.inj refused)
          rw [show (life.moveTo e).moment.token = life.moment.token from rfl,
            queues.takes exits (Nat.le_refl _)]
          exact .ended exits
      | tooLate seconds =>
          cases refused
          obtain ⟨limited, late, -, -, runs⟩ := startup_eq_tooLate_iff.1 ends
          refine .tooLate limited late ?_
          intro ending exits
          refine runs ending.1 ?_
          rw [queues.stops, exits]
          rfl

/-! ## From when the member serves -/

theorem ending_eq_stopped_iff : ending m b = some (t, .stopped) ↔
    b.stoppedFrom m.token m.now = some t ∧ (∀ u, m.token.seenFrom m.now = some u → t < u) ∧
      ∀ u, b.failureFrom m.token m.now = some u → t < u := by
  simp [ending, firstOf_cons_eq_some_iff, firstOf]
  tauto

/-- A member that has come to serve is waited on as if it had been so from its launch. -/
theorem ending_of_serves (queues : Queues b life.moment exit) (serves : Serves p life.moment b t) :
    ending (life.served p t).moment (b.advance life.moment.token t) = ending life.moment b := by
  have from_ : life.moment.now ≤ t := Member.le_of_timeOf serves.ready
  rw [ending_served queues.ordered]
  have stops : b.stoppedFrom life.moment.token t =
      b.stoppedFrom life.moment.token life.moment.now :=
    Member.timeOf_of_le queues.ordered lasting_stopped from_ serves.stopped
  have fails : b.failureFrom life.moment.token t =
      b.failureFrom life.moment.token life.moment.now := by
    refine Member.timeOf_of_le queues.ordered lasting_failure from_ ?_
    intro u failed
    obtain ⟨status, exits, -⟩ := queues.failureFrom_eq_some_iff.1 failed
    refine serves.stopped u ?_
    rw [queues.stops, exits]
    rfl
  have seen : life.moment.token.seenFrom t = life.moment.token.seenFrom life.moment.now := by
    have free := serves.free
    unfold Cancellation.seenFrom at free ⊢
    cases fires : life.moment.token.firesAt with
    | none => rfl
    | some f =>
        have early : t < max life.moment.now f := free _ (by rw [fires]; rfl)
        simp only [Option.map_some, Option.some.injEq]
        omega
  simp only [ending, Moment.moveTo, stops, fails, seen]

theorem serves_of_awaitReady {served : Member}
    (ready : (awaitReady p life b).answer = some (.ok served)) :
    ∃ t, Serves p life.moment b t ∧ served = b.advance life.moment.token t ∧
      (awaitReady p life b).life = life.served p t := by
  unfold awaitReady at ready ⊢
  cases ends : startup p life.moment b with
  | none =>
      rw [ends] at ready
      cases ready
  | some event =>
      obtain ⟨t, event⟩ := event
      rw [ends] at ready
      cases event with
      | cancelled | stopped | tooLate => cases ready
      | ready =>
          cases ready
          exact ⟨t, startup_eq_ready_iff.1 ends, rfl, rfl⟩

theorem wait_of_failed {s : Life} (ends : ending s.moment b = some (t, .failed)) :
    (s.wait b).1.answer =
        some (.error ((b.advance s.moment.token t).takeFailure.2.getD (.engine .aborted))) ∧
      (s.wait b).1.life.moment.now = t := by
  simp only [wait, ends]
  exact ⟨rfl, rfl⟩

theorem wait_of_stopped {s : Life} (ends : ending s.moment b = some (t, .stopped)) :
    (s.wait b).1.answer = some (.error (.engine .aborted)) ∧
      (s.wait b).1.life.moment.now = t := by
  simp only [wait, ends]
  exact ⟨rfl, rfl⟩

/-- A wait that is not cancelled tells how the child has ended. -/
theorem wait_of_serves (queues : Queues b life.moment exit) (serves : Serves p life.moment b t)
    (ends : ending life.moment b = some (e, .failed) ∨ ending life.moment b = some (e, .stopped)) :
    ∃ status, exit = some (e, status) ∧
      ((life.served p t).wait (b.advance life.moment.token t)).1.answer =
        some (.error ((failure? status).getD (.engine .aborted))) ∧
      ((life.served p t).wait (b.advance life.moment.token t)).1.life.moment.now = e := by
  have same := ending_of_serves queues serves
  rcases ends with failed | stopped
  · obtain ⟨status, exits, -⟩ := queues.failureFrom_eq_some_iff.1 (ending_eq_failed_iff.1 failed).1
    obtain ⟨answer, now⟩ := wait_of_failed (same.trans failed)
    have after : t ≤ e := serves.stopped e (by rw [queues.stops, exits]; rfl)
    refine ⟨status, exits, ?_, now⟩
    rw [answer, show (life.served p t).moment.token = life.moment.token from rfl,
      Member.advance_advance queues.ordered after, queues.takes exits (Nat.le_refl _)]
  · obtain ⟨stops, -, quiet⟩ := ending_eq_stopped_iff.1 stopped
    obtain ⟨answer, now⟩ := wait_of_stopped (same.trans stopped)
    rw [queues.stops] at stops
    obtain ⟨⟨e, status⟩, exits, rfl⟩ := Option.map_eq_some_iff.1 stops
    refine ⟨status, exits, ?_, now⟩
    -- a failure would have been seen before the stop
    cases succeeds : status.isSuccess with
    | true =>
        rw [answer, Engine.ExitReport.failure?_of_success succeeds]
        rfl
    | false =>
        have failed := queues.failureFrom_eq_some_iff.2 ⟨status, exits, succeeds⟩
        exact absurd (quiet _ failed) (Nat.lt_irrefl _)

theorem verdict_of_wait {served : Member} {failure : Failure} (queues : Queues b life.moment exit)
    (ready : (awaitReady p life b).answer = some (.ok served))
    (failed : ((awaitReady p life b).life.wait served).1.answer = some (.error failure)) :
    ∃ status, exit = some (((awaitReady p life b).life.wait served).1.life.moment.now, status) ∧
      failure = (failure? status).getD (.engine .aborted) := by
  obtain ⟨t, serves, rfl, same⟩ := serves_of_awaitReady ready
  rw [same] at failed ⊢
  have told (e : Nat) (ends : ending life.moment b = some (e, .failed) ∨
      ending life.moment b = some (e, .stopped)) :
      ∃ status, exit = some (((life.served p t).wait
        (b.advance life.moment.token t)).1.life.moment.now, status) ∧
          failure = (failure? status).getD (.engine .aborted) := by
    obtain ⟨status, exits, answer, now⟩ := wait_of_serves queues serves ends
    refine ⟨status, exits.trans (by rw [now]), ?_⟩
    exact Except.error.inj (Option.some.inj (failed.symm.trans answer))
  have course := ending_of_serves queues serves
  cases ends : ending life.moment b with
  | none =>
      rw [wait, course, ends] at failed
      cases failed
  | some event =>
      obtain ⟨e, event⟩ := event
      cases event with
      | cancelled =>
          rw [wait, course, ends] at failed
          cases failed
      | failed => exact told e (Or.inl ends)
      | stopped => exact told e (Or.inr ends)

/-! ## Without a cancellation -/

theorem lt_of_free {u : Nat} (free : m.token.isFired e = false)
    (seen : m.token.seenFrom m.now = some u) : e < u := by
  by_contra before
  have early := Cancellation.isFired_eq_false_of_le (Nat.le_of_not_lt before) free
  exact absurd (Moment.isCancelled_moveTo_seen seen) (Bool.eq_false_iff.1 early)

theorem refused_of_exit (queues : Queues b life.moment exit) (exits : exit = some (e, status))
    (free : life.moment.token.isFired e = false)
    (unready : ∀ t, b.readyFrom life.moment.token life.moment.now = some t → e < t)
    (early : ∀ seconds, p.settings.waitLimit? = some seconds →
      e ≤ life.moment.now + 1000 * seconds) :
    (awaitReady p life b).answer =
      some (.error ((failure? status).getD (.engine .stoppedEarly))) := by
  have stops : b.stoppedFrom life.moment.token life.moment.now = some e := by
    rw [queues.stops, exits]
    rfl
  cases ends : startup p life.moment b with
  | none => exact absurd ends (startup_ne_none stops)
  | some event =>
      obtain ⟨t, event⟩ := event
      have before := le_of_startup ends stops
      cases event with
      | cancelled =>
          have late := lt_of_free free (startup_eq_cancelled_iff.1 ends).1
          omega
      | ready =>
          have late := unready t (startup_eq_ready_iff.1 ends).ready
          omega
      | stopped =>
          obtain rfl := Option.some.inj ((stoppedFrom_of_startup ends).symm.trans stops)
          simp only [awaitReady, ends]
          rw [← queues.takes exits (Nat.le_refl _)]
          rfl
      | tooLate seconds =>
          obtain ⟨limited, late, -, -, runs⟩ := startup_eq_tooLate_iff.1 ends
          have after := runs e stops
          have limit := early seconds limited
          omega

theorem failed_of_exit {served : Member} (queues : Queues b life.moment exit)
    (exits : exit = some (e, status)) (free : life.moment.token.isFired e = false)
    (ready : (awaitReady p life b).answer = some (.ok served)) :
    ((awaitReady p life b).life.wait served).1.answer =
      some (.error ((failure? status).getD (.engine .aborted))) := by
  obtain ⟨t, serves, rfl, same⟩ := serves_of_awaitReady ready
  rw [same]
  have stops : b.stoppedFrom life.moment.token life.moment.now = some e := by
    rw [queues.stops, exits]
    rfl
  have told (u : Nat) (ends : ending life.moment b = some (u, .failed) ∨
      ending life.moment b = some (u, .stopped)) :
      ((life.served p t).wait (b.advance life.moment.token t)).1.answer =
        some (.error ((failure? status).getD (.engine .aborted))) := by
    obtain ⟨other, exits', answer, -⟩ := wait_of_serves queues serves ends
    obtain ⟨-, rfl⟩ := Prod.mk.inj (Option.some.inj (exits.symm.trans exits'))
    exact answer
  cases ends : ending life.moment b with
  | none => exact absurd ends (ending_ne_none stops)
  | some event =>
      obtain ⟨u, event⟩ := event
      cases event with
      | cancelled =>
          have late := lt_of_free free (ending_eq_cancelled_iff.1 ends).1
          have before := le_of_ending ends stops
          omega
      | failed => exact told u (Or.inl ends)
      | stopped => exact told u (Or.inr ends)

theorem awaitReady_of_serves (serves : Serves p life.moment b t) :
    (awaitReady p life b).answer = some (.ok (b.advance life.moment.token t)) := by
  simp only [awaitReady, startup_eq_ready_iff.2 serves]
  rfl

theorem launch_of_hands (hands : Hands p life m (.ok b)) :
    life.launch p = awaitReady p (life.onceLaunched p m) b := by
  rw [launch_of_equipped hands.equipped]
  simp only [perform, onceLaunched, hands.handed, Outcome.andThen]

/-! ## The whole -/

/-- What the two waits tell of a member that is handed over at `m` and stops at `exit`. -/
structure Verdicts (b : Member) (m : Moment) (exit : Option (Nat × ExitStatus)) : Prop where
  launch : ∀ (p : Parts) (life : Life), Hands p life m (.ok b) →
    (life.onceLaunched p m).moment = m ∧ life.launch p = awaitReady p (life.onceLaunched p m) b
  refusal : ∀ (p : Parts) (life : Life) (failure : Failure), life.moment = m →
    (awaitReady p life b).answer = some (.error failure) →
      Refusal p m exit (awaitReady p life b).life.moment.now failure
  verdict : ∀ (p : Parts) (life : Life) (served : Member) (failure : Failure), life.moment = m →
    (awaitReady p life b).answer = some (.ok served) →
    ((awaitReady p life b).life.wait served).1.answer = some (.error failure) →
    ∃ status, exit = some (((awaitReady p life b).life.wait served).1.life.moment.now, status) ∧
      failure = (failure? status).getD (.engine .aborted)
  /-- The child ends before the member serves, the run is cancelled, or its time is over. -/
  early : ∀ (p : Parts) (life : Life) (e : Nat) (status : ExitStatus), life.moment = m →
    exit = some (e, status) → m.token.isFired e = false →
    (∀ t, b.readyFrom m.token m.now = some t → e < t) →
    (∀ seconds, p.settings.waitLimit? = some seconds → e ≤ m.now + 1000 * seconds) →
    (awaitReady p life b).answer =
      some (.error ((failure? status).getD (.engine .stoppedEarly)))
  /-- The member serves by then. -/
  serves : ∀ (p : Parts) (life : Life) (t e : Nat) (status : ExitStatus), life.moment = m →
    exit = some (e, status) → m.token.isFired e = false →
    b.readyFrom m.token m.now = some t → t ≤ e →
    (∀ seconds, p.settings.waitLimit? = some seconds → t ≤ m.now + 1000 * seconds) →
    ∃ served, (awaitReady p life b).answer = some (.ok served)
  /-- The child ends after that, and before the run is cancelled. -/
  late : ∀ (p : Parts) (life : Life) (served : Member) (e : Nat) (status : ExitStatus),
    life.moment = m → exit = some (e, status) → m.token.isFired e = false →
    (awaitReady p life b).answer = some (.ok served) →
    ((awaitReady p life b).life.wait served).1.answer =
      some (.error ((failure? status).getD (.engine .aborted)))

theorem verdicts (queues : Queues b m exit) : Verdicts b m exit := by
  constructor
  case launch => exact fun p life hands => ⟨rfl, launch_of_hands hands⟩
  case refusal =>
    rintro p life failure rfl refused
    exact refusal_of_awaitReady queues refused
  case verdict =>
    rintro p life served failure rfl ready failed
    exact verdict_of_wait queues ready failed
  case early =>
    rintro p life e status rfl exits free unready early
    exact refused_of_exit queues exits free unready early
  case serves =>
    rintro p life t e status rfl exits free ready before early
    refine ⟨_, awaitReady_of_serves ⟨ready, ?_, ?_, early⟩⟩
    · intro u seen
      exact before.trans_lt (lt_of_free free seen)
    · intro u stops
      rw [queues.stops, exits] at stops
      obtain rfl := Option.some.inj stops
      exact before
  case late =>
    rintro p life served e status rfl exits free ready
    exact failed_of_exit queues exits free ready

/-- How the end of a child that is started as a member at `m` is told. -/
structure TellsExit (s : Supervisor) (child : Child) (checks : Nat → Readiness.Check)
    (rounds : Nat) (tie : Bool) (m : Moment) : Prop where
  starts : ∀ (spawn : String → List Bytes → Except Os.Fault Child) (document : Path),
    spawn s.program (Supervisor.arguments document) = .ok child →
      s.start spawn checks rounds tie document m =
        some (m, .ok (s.member child checks rounds tie m))
  course : ∀ limit, Reported child m.now s.grace m.token limit
  /-- Besides that the member serves, nothing is reported but the end of the child, in order. -/
  reported : ∀ start token,
    (s.timeline child checks rounds start tie token).filter (·.2 ≠ .reported .ready) =
      ((child.fate start s.grace token tie).stopped.map fun ending =>
        (dues ending.2).map (ending.1, .reported ·)).getD []
  queues : Queues (s.member child checks rounds tie m) m
    (child.fate m.now s.grace m.token tie).stopped
  verdicts : Verdicts (s.member child checks rounds tie m) m
    (child.fate m.now s.grace m.token tie).stopped

theorem member_tellsExit (s : Supervisor) (child : Child) (checks : Nat → Readiness.Check)
    (rounds : Nat) (tie : Bool) (m : Moment) : TellsExit s child checks rounds tie m where
  starts _ _ spawned := s.started_member child checks rounds tie m spawned
  course limit := Engine.ExitReport.reported child m.now s.grace m.token limit
  reported start token := s.unready_timeline child checks rounds tie start token
  queues := s.queues_member child checks rounds tie m
  verdicts := verdicts (s.queues_member child checks rounds tie m)

end StoreWarden.Life
