import StoreWarden.Proofs.FirstReport
import StoreWarden.Proofs.StoppedWait

/-!
# What ends the wait on a member that serves

The wait ends with the cancellation, the failure that is queued first, or the stop, whichever comes
first, and of those that come together the one named first here.  What came before the wait is there
when it begins.  That the reporting side goes away is nothing to wake up for: all that it changes is
that no more failures come.
-/

set_option autoImplicit false

namespace StoreWarden.Life

open Engine (Member Reports Timeline)

/-- All ways in which a wait goes. -/
inductive Ends (s : Life) (b : Member) : Outcome Unit → Prop
  /-- From the cancellation on only the stop is waited for, and not for ever. -/
  | cancelled {u : Nat} (seen : s.moment.token.seenFrom s.moment.now = some u)
      (failed : ∀ e ∈ b.failureSeen s.moment.token s.moment.now, u ≤ e.1)
      (stopped : ∀ t ∈ b.stopSeen s.moment.token s.moment.now, u ≤ t) :
      Ends s b ⟨s.moveTo ((b.stopSeen s.moment.token s.moment.now).elim (u + stopLimit)
        (min (u + stopLimit))), some (.ok ())⟩
  | failed {t : Nat} {failure : Failure}
      (failed : b.failureSeen s.moment.token s.moment.now = some (t, failure))
      (free : ∀ u ∈ s.moment.token.seenFrom s.moment.now, t < u)
      (stopped : ∀ u ∈ b.stopSeen s.moment.token s.moment.now, t ≤ u) :
      Ends s b ⟨s.moveTo t, some (.error failure)⟩
  | stopped {t : Nat} (stopped : b.stopSeen s.moment.token s.moment.now = some t)
      (free : ∀ u ∈ s.moment.token.seenFrom s.moment.now, t < u)
      (failed : ∀ e ∈ b.failureSeen s.moment.token s.moment.now, t < e.1) :
      Ends s b ⟨s.moveTo t, some (.error (.engine .aborted))⟩
  | endless (free : s.moment.token.firesAt = none)
      (failed : b.failureSeen s.moment.token s.moment.now = none)
      (stopped : b.stopSeen s.moment.token s.moment.now = none) : Ends s b ⟨s, none⟩

/-- What a wait makes of all that may happen to a member. -/
structure WaitLaw (s : Life) (b : Member) : Prop where
  ends : ∀ o, (s.wait b).1 = o ↔ Ends s b o
  /-- What happened before the wait counts from its beginning on. -/
  launched : ∀ start known future, start ≤ s.moment.now → known ≤ s.moment.now →
    b = (Member.launched start future s.moment.token).advance s.moment.token known →
    b.failureSeen s.moment.token s.moment.now =
        (future s.moment.token).firstFailure.map (fun e => (max s.moment.now e.1, e.2)) ∧
      b.stopSeen s.moment.token s.moment.now =
        (future s.moment.token).firstStop.map (max s.moment.now)
  /-- The reporting side goes away, and nothing comes of it but that later failures are lost. -/
  gone : ∀ before t after, b.pending s.moment.token = before ++ (t, .gone) :: after →
    ∀ c : Member, c.InOrder → c.reports = b.reports →
      c.pending s.moment.token = before ++ after.filter (!·.2.isFailure) →
      (s.wait c).1 = (s.wait b).1
  silent : ∀ before t after, b.pending s.moment.token = before ++ (t, .gone) :: after →
    b.reports.failures.items = [] → Timeline.failures before = [] →
    b.stopSeen s.moment.token s.moment.now = none → s.moment.token.firesAt = none →
    (s.wait b).1 = ⟨s, none⟩
  /-- A failure that is in the queue is found at once, whether or not its sender is still there. -/
  queued : ∀ failure rest, b.reports.failures.items = failure :: rest →
    s.moment.isCancelled = false → (s.wait b).1 = ⟨s, some (.error failure)⟩

variable {s : Life} {b : Member}

/-! ## The way that is taken -/

theorem le_failureFrom (ordered : b.InOrder) {u : Nat} :
    (∀ e ∈ b.failureSeen s.moment.token s.moment.now, u ≤ e.1) ↔
      ∀ t, b.failureFrom s.moment.token s.moment.now = some t → u ≤ t := by
  rw [Member.failureFrom_eq ordered]
  cases b.failureSeen s.moment.token s.moment.now <;> simp

theorem lt_failureFrom (ordered : b.InOrder) {u : Nat} :
    (∀ e ∈ b.failureSeen s.moment.token s.moment.now, u < e.1) ↔
      ∀ t, b.failureFrom s.moment.token s.moment.now = some t → u < t :=
  le_failureFrom ordered

/-- Somebody who waits for the stop from the cancellation on sees it when the wait would have. -/
theorem lastFrom_eq (ordered : b.InOrder) {u : Nat} (from_ : s.moment.now ≤ u)
    (stopped : ∀ t ∈ b.stopSeen s.moment.token s.moment.now, u ≤ t) :
    lastFrom (b.advance s.moment.token u) s.moment.token u =
      (b.stopSeen s.moment.token s.moment.now).elim (u + stopLimit) (min (u + stopLimit)) := by
  rw [← Member.stoppedFrom_eq ordered] at stopped ⊢
  have same : (b.advance s.moment.token u).stoppedFrom s.moment.token u =
      b.stoppedFrom s.moment.token s.moment.now :=
    (Member.timeOf_advance_self ordered u).trans
      (Member.timeOf_of_le ordered Engine.lasting_stopped from_ stopped)
  rw [lastFrom, same]
  cases b.stoppedFrom s.moment.token s.moment.now with
  | none => rfl
  | some t => exact Nat.min_comm t (u + stopLimit)

theorem wait_of_ends (ordered : b.InOrder) {o : Outcome Unit} (way : Ends s b o) :
    (s.wait b).1 = o := by
  cases way with
  | @cancelled u seen failed stopped =>
      have ends : ending s.moment b = some (u, .cancelled) := by
        refine ending_eq_cancelled_iff.2 ⟨seen, (le_failureFrom ordered).1 failed, ?_⟩
        rwa [Member.stoppedFrom_eq ordered]
      have from_ : s.moment.now ≤ u := Cancellation.le_of_seenFrom seen
      rw [wait_of_cancelled ends, ← lastFrom_eq ordered from_ stopped]
      rfl
  | @failed t failure failed free stopped =>
      have ends : ending s.moment b = some (t, .failed) := by
        refine ending_eq_failed_iff.2 ⟨?_, free, ?_⟩
        · rw [Member.failureFrom_eq ordered, failed]
          rfl
        · rwa [Member.stoppedFrom_eq ordered]
      have whole : (s.wait b).1 = ⟨s.moveTo t, some (.error
          ((b.advance s.moment.token t).takeFailure.2.getD (.engine .aborted)))⟩ := by
        simp only [wait, ends]
        rfl
      rw [whole, Member.takeFailure_of_failureSeen ordered failed]
      rfl
  | @stopped t stopped free failed =>
      have ends : ending s.moment b = some (t, .stopped) := by
        refine ending_eq_stopped_iff.2 ⟨?_, free, (lt_failureFrom ordered).1 failed⟩
        rw [Member.stoppedFrom_eq ordered, stopped]
      simp only [wait, ends]
      rfl
  | endless free failed stopped =>
      have ends : ending s.moment b = none := by
        apply firstOf_eq_none_iff.2
        simp [Cancellation.seenFrom, free, Member.failureFrom_eq ordered, failed,
          Member.stoppedFrom_eq ordered, stopped]
      simp only [wait, ends]

theorem exists_ends (ordered : b.InOrder) : ∃ o, Ends s b o := by
  cases ends : ending s.moment b with
  | none =>
      have never := firstOf_eq_none_iff.1 ends
      simp only [List.forall_mem_cons, List.not_mem_nil, false_imp_iff, implies_true,
        and_true] at never
      obtain ⟨free, failed, stopped⟩ := never
      rw [Member.failureFrom_eq ordered, Option.map_eq_none_iff] at failed
      rw [Member.stoppedFrom_eq ordered] at stopped
      exact ⟨_, .endless (Option.map_eq_none_iff.1 free) failed stopped⟩
  | some found =>
      obtain ⟨t, event⟩ := found
      cases event with
      | cancelled =>
          obtain ⟨seen, failed, stopped⟩ := ending_eq_cancelled_iff.1 ends
          rw [Member.stoppedFrom_eq ordered] at stopped
          exact ⟨_, .cancelled seen ((le_failureFrom ordered).2 failed) stopped⟩
      | failed =>
          obtain ⟨failed, free, stopped⟩ := ending_eq_failed_iff.1 ends
          rw [Member.stoppedFrom_eq ordered] at stopped
          rw [Member.failureFrom_eq ordered] at failed
          obtain ⟨⟨u, failure⟩, seen, rfl⟩ := Option.map_eq_some_iff.1 failed
          exact ⟨_, .failed seen free stopped⟩
      | stopped =>
          obtain ⟨stopped, free, failed⟩ := ending_eq_stopped_iff.1 ends
          rw [Member.stoppedFrom_eq ordered] at stopped
          exact ⟨_, .stopped stopped free ((lt_failureFrom ordered).2 failed)⟩

theorem wait_eq_iff_ends (ordered : b.InOrder) (o : Outcome Unit) :
    (s.wait b).1 = o ↔ Ends s b o := by
  constructor
  · rintro rfl
    obtain ⟨o, way⟩ := exists_ends (s := s) ordered
    rwa [wait_of_ends ordered way]
  · exact wait_of_ends ordered

/-- How a wait goes hangs on nothing but when the first failure and the stop are seen. -/
theorem wait_congr {c : Member} (ordered : b.InOrder) (ordered' : c.InOrder)
    (failed : c.failureSeen s.moment.token s.moment.now =
      b.failureSeen s.moment.token s.moment.now)
    (stopped : c.stopSeen s.moment.token s.moment.now = b.stopSeen s.moment.token s.moment.now) :
    (s.wait c).1 = (s.wait b).1 := by
  have way : Ends s b (s.wait b).1 := (wait_eq_iff_ends ordered _).1 rfl
  apply wait_of_ends ordered'
  generalize (s.wait b).1 = o at way ⊢
  cases way with
  | cancelled seen failed' stopped' =>
      rw [← stopped]
      exact .cancelled seen (failed ▸ failed') (stopped ▸ stopped')
  | failed failed' free stopped' => exact .failed (failed.trans failed') free (stopped ▸ stopped')
  | stopped stopped' free failed' => exact .stopped (stopped.trans stopped') free (failed ▸ failed')
  | endless free failed' stopped' =>
      exact .endless free (failed.trans failed') (stopped.trans stopped')

/-! ## Where the reporting side goes away -/

theorem wait_of_gone {c : Member} {before after : Timeline} {t : Nat} (ordered : b.InOrder)
    (ordered' : c.InOrder) (gone : b.pending s.moment.token = before ++ (t, .gone) :: after)
    (same : c.reports = b.reports)
    (harmless : c.pending s.moment.token = before ++ after.filter (!·.2.isFailure)) :
    (s.wait c).1 = (s.wait b).1 := by
  have failed : (before ++ after.filter (!·.2.isFailure)).firstFailure =
      (before ++ (t, .gone) :: after).firstFailure := by
    have none' := Timeline.firstFailure_of_failures (Timeline.failures_harmless after)
    rw [Timeline.firstFailure_append before none', Timeline.firstFailure_append before rfl]
  have stopped : (before ++ after.filter (!·.2.isFailure)).firstStop =
      (before ++ (t, .gone) :: after).firstStop := by
    rw [Timeline.firstStop_append, Timeline.firstStop_harmless, Timeline.firstStop_append]
    rfl
  apply wait_congr ordered ordered'
  · simp only [Member.failureSeen, Reports.failureSeen, gone, same, harmless, failed]
  · simp only [Member.stopSeen, Reports.stopSeen, gone, same, harmless, stopped]

theorem wait_of_silence {before after : Timeline} {t : Nat} (ordered : b.InOrder)
    (gone : b.pending s.moment.token = before ++ (t, .gone) :: after)
    (empty : b.reports.failures.items = []) (quiet : Timeline.failures before = [])
    (runs : b.stopSeen s.moment.token s.moment.now = none)
    (free : s.moment.token.firesAt = none) : (s.wait b).1 = ⟨s, none⟩ := by
  apply wait_of_ends ordered
  refine .endless free ?_ runs
  have none' : (before ++ (t, .gone) :: after).firstFailure = none := by
    rw [Timeline.firstFailure_append before rfl, Timeline.firstFailure_of_failures quiet]
  rw [Member.failureSeen, Reports.failureSeen_of_empty empty, gone, none']
  split <;> rfl

theorem wait_of_queued {failure : Failure} {rest : List Failure} (ordered : b.InOrder)
    (queued : b.reports.failures.items = failure :: rest)
    (free : s.moment.isCancelled = false) : (s.wait b).1 = ⟨s, some (.error failure)⟩ := by
  have seen : b.failureSeen s.moment.token s.moment.now = some (s.moment.now, failure) :=
    Reports.failureSeen_of_head (by rw [queued]; rfl) _
  have way : Ends s b ⟨s.moveTo s.moment.now, some (.error failure)⟩ := by
    refine .failed seen (fun u => lt_of_free free) ?_
    intro u stopped
    rw [← Member.stoppedFrom_eq ordered] at stopped
    exact Member.le_of_timeOf stopped
  exact wait_of_ends ordered way

theorem wait_law (s : Life) {b : Member} (ordered : b.InOrder) : WaitLaw s b := by
  constructor
  case ends => exact wait_eq_iff_ends ordered
  case launched =>
    rintro start known future begun past rfl
    have future_ : (future s.moment.token).InOrder := ordered s.moment.token
    have launched : (Member.launched start future s.moment.token).InOrder := ordered
    constructor
    · rw [Member.failureSeen,
        Member.reading_advance (Reports.timely_failureSeen _) launched past,
        Member.reading_launched (Reports.timely_failureSeen _) future_ begun]
      rfl
    · rw [Member.stopSeen, Member.reading_advance (Reports.timely_stopSeen _) launched past,
        Member.reading_launched (Reports.timely_stopSeen _) future_ begun]
      rfl
  case gone =>
    intro before t after gone c ordered' same harmless
    exact wait_of_gone ordered ordered' gone same harmless
  case silent =>
    intro before t after gone empty quiet runs free
    exact wait_of_silence ordered gone empty quiet runs free
  case queued =>
    intro failure rest queued free
    exact wait_of_queued ordered queued free

def failing : Timeline :=
  [(1, .reported .ready), (3, .reported (.failure (.engine .aborted))), (4, .gone),
    (6, .reported .stopped)]

def failingMember : Member := .launched 0 (fun _ => failing) (.firingAt 12)

def lateWait : Life := ⟨⟨9, .firingAt 12, .empty⟩, some .empty, some ⟨none⟩, []⟩

/-- The failure that came first ends the wait, though nobody reports any more and it has stopped. -/
theorem wait_law_failing :
    failingMember.InOrder ∧ (lateWait.wait (failingMember.advance (.firingAt 12) 2)).1 =
      ⟨lateWait, some (.error (.engine .aborted))⟩ := by
  have ordered : failingMember.InOrder := by
    intro token
    change failing.Pairwise (·.1 ≤ ·.1)
    decide
  have law : WaitLaw lateWait (failingMember.advance (.firingAt 12) 2) :=
    wait_law lateWait (b := failingMember.advance (.firingAt 12) 2) ordered
  obtain ⟨failed, stopped⟩ := law.launched 0 2 _ (Nat.zero_le _) (by decide) rfl
  have way : Ends lateWait (failingMember.advance (.firingAt 12) 2)
      ⟨lateWait.moveTo 9, some (.error (.engine .aborted))⟩ := by
    refine .failed failed ?_ ?_
    · rintro u ⟨⟩
      decide
    · rw [stopped]
      rintro u ⟨⟩
      decide
  exact ⟨ordered, (law.ends _).2 way⟩

end StoreWarden.Life
