import StoreWarden.Proofs.ReportedExit

/-!
# What is reported first

When a member first stops, and what failure it queues first, can be read off the list of everything
that happens to it.  Of a member that is looked after, a part of the list is still to come and the
rest has gone into its reports.  `Timely` readings do not notice how much that is, so that they give
the same of a member just launched and of one that is asked much later.
-/

set_option autoImplicit false

namespace StoreWarden.Engine

def Event.isFailure : Event → Bool
  | .reported (.failure _) => true
  | _ => false

namespace Timeline

/-- The failure that is queued first, unless the reporting side goes away before. -/
def firstFailure : Timeline → Option (Nat × Failure)
  | [] => none
  | (t, .reported (.failure failure)) :: _ => some (t, failure)
  | (_, .gone) :: _ => none
  | (_, .reported .ready) :: rest | (_, .reported .stopped) :: rest => firstFailure rest

def firstStop : Timeline → Option Nat
  | [] => none
  | (t, e) :: rest => if e = .reported .stopped then some t else firstStop rest

theorem mem_of_firstFailure {timeline : Timeline} {t : Nat} {failure : Failure}
    (first : timeline.firstFailure = some (t, failure)) :
    (t, .reported (.failure failure)) ∈ timeline := by
  induction timeline with
  | nil => cases first
  | cons entry rest ih =>
      obtain ⟨u, e⟩ := entry
      cases e with
      | gone => cases first
      | reported report =>
          cases report with
          | ready | stopped => exact List.mem_cons_of_mem _ (ih first)
          | failure other =>
              obtain ⟨rfl, rfl⟩ := Prod.mk.inj (Option.some.inj first)
              exact List.mem_cons_self

theorem mem_of_firstStop {timeline : Timeline} {t : Nat}
    (first : timeline.firstStop = some t) : (t, .reported .stopped) ∈ timeline := by
  induction timeline with
  | nil => cases first
  | cons entry rest ih =>
      obtain ⟨u, e⟩ := entry
      by_cases stops : e = .reported .stopped
      · rw [firstStop, if_pos stops] at first
        obtain rfl := Option.some.inj first
        rw [stops]
        exact List.mem_cons_self
      · rw [firstStop, if_neg stops] at first
        exact List.mem_cons_of_mem _ (ih first)

/-! ### Parts of a timeline -/

theorem firstFailure_append (before : Timeline) {rest : Timeline}
    (none' : rest.firstFailure = none) : (before ++ rest).firstFailure = before.firstFailure := by
  induction before with
  | nil => exact none'
  | cons entry before ih =>
      obtain ⟨t, e⟩ := entry
      cases e with
      | gone => rfl
      | reported report =>
          cases report with
          | ready | stopped => exact ih
          | failure failure => rfl

theorem firstFailure_of_failures {timeline : Timeline} (none' : timeline.failures = []) :
    timeline.firstFailure = none := by
  cases first : timeline.firstFailure with
  | none => rfl
  | some told =>
      have mem : told.2 ∈ timeline.failures :=
        List.mem_filterMap.2 ⟨_, mem_of_firstFailure first, rfl⟩
      rw [none'] at mem
      cases mem

theorem failures_harmless (timeline : Timeline) :
    failures (timeline.filter (!·.2.isFailure)) = [] := by
  rw [failures, List.filterMap_filter, List.filterMap_eq_nil_iff]
  rintro ⟨t, e⟩ -
  cases e with
  | gone => rfl
  | reported report => cases report <;> rfl

theorem firstStop_append (before rest : Timeline) :
    (before ++ rest).firstStop = before.firstStop.or rest.firstStop := by
  induction before with
  | nil => rfl
  | cons entry before ih =>
      rw [List.cons_append, firstStop, firstStop, ih]
      split <;> rfl

theorem firstStop_harmless (timeline : Timeline) :
    firstStop (timeline.filter (!·.2.isFailure)) = timeline.firstStop := by
  induction timeline with
  | nil => rfl
  | cons entry rest ih =>
      obtain ⟨t, e⟩ := entry
      cases e with
      | gone => exact ih
      | reported report =>
          cases report with
          | ready | failure _ => exact ih
          | stopped => rfl

end Timeline

/-! ## Readings -/

namespace Reports

variable {β : Type} {r : Reports} {now : Nat}

/-- Whether failures are still taken in. -/
def accepts (r : Reports) : Bool := !r.failures.unattended && !r.failures.closed

/-- The first failure that is there for somebody who waits from `now` on, and from when. -/
def failureSeen (now : Nat) (r : Reports) (coming : Timeline) : Option (Nat × Failure) :=
  match r.failures.items with
  | failure :: _ => some (now, failure)
  | [] => if r.accepts then coming.firstFailure.map fun e => (max now e.1, e.2) else .none

/-- When somebody who waits from `now` on sees the member stopped. -/
def stopSeen (now : Nat) (r : Reports) (coming : Timeline) : Option Nat :=
  if r.stopped then some now else coming.firstStop.map (max now)

/-- A reading for which it makes no difference whether what has happened by `now` has come in. -/
def Timely (now : Nat) (reading : Reports → Timeline → β) : Prop :=
  ∀ r t e coming, t ≤ now → reading (r.after e) coming = reading r ((t, e) :: coming)

theorem Timely.foldl {reading : Reports → Timeline → β} (timely : Timely now reading)
    {past : Timeline} (coming : Timeline) : ∀ {r : Reports}, (∀ e ∈ past, e.1 ≤ now) →
      reading (past.foldl (fun r e => r.after e.2) r) coming = reading r (past ++ coming) := by
  induction past with
  | nil => intro r _; rfl
  | cons entry rest ih =>
      intro r earlier
      rw [List.forall_mem_cons] at earlier
      rw [List.foldl_cons, ih earlier.2, timely r entry.1 entry.2 _ earlier.1, List.cons_append]

theorem accepts_after_gone (r : Reports) : (r.after .gone).accepts = false := rfl

theorem after_failure_of_refused (refused : r.accepts = false) (failure : Failure) :
    (r.after (.reported (.failure failure))).failures = r.failures := by
  rw [after_failure_eq]
  have way := r.failures.sends failure
  generalize r.failures.send failure = result at way
  cases way with
  | dropped | closed | full => rfl
  | sent here open_ => simp [accepts, here, open_] at refused

theorem accepts_after_failure (r : Reports) (failure : Failure) :
    (r.after (.reported (.failure failure))).accepts = r.accepts := by
  simp only [accepts, after_failure_eq, Mailbox.send_same]

theorem items_after_failure_of_empty (empty : r.failures.items = []) (open_ : r.accepts = true)
    (failure : Failure) :
    (r.after (.reported (.failure failure))).failures.items = [failure] := by
  rw [after_failure_eq]
  simp only [accepts, Bool.and_eq_true, Bool.not_eq_true'] at open_
  have way := r.failures.sends failure
  generalize r.failures.send failure = result at way
  cases way with
  | dropped gone => cases gone.symm.trans open_.1
  | closed here left => cases left.symm.trans open_.2
  | full here _ taken => rw [empty] at taken; cases taken
  | sent here _ room items same => rw [items, empty, List.nil_append]

theorem head?_after {failure : Failure} (first : r.failures.items.head? = some failure)
    (e : Event) : (r.after e).failures.items.head? = some failure := by
  cases e with
  | gone => exact first
  | reported report =>
      cases report with
      | ready | stopped => exact first
      | failure other =>
          rw [after_failure_eq, Mailbox.send_items, List.head?_append, first]
          rfl

theorem failureSeen_of_head {failure : Failure} (first : r.failures.items.head? = some failure)
    (coming : Timeline) : failureSeen now r coming = some (now, failure) := by
  obtain ⟨rest, items⟩ := List.head?_eq_some_iff.1 first
  simp only [failureSeen, items]

theorem failureSeen_of_empty (empty : r.failures.items = []) (coming : Timeline) :
    failureSeen now r coming =
      if r.accepts then coming.firstFailure.map fun e => (max now e.1, e.2) else .none := by
  simp only [failureSeen, empty]

theorem timely_failureSeen (now : Nat) : Timely now (failureSeen now) := by
  intro r t e coming past
  cases items : r.failures.items with
  | cons failure rest =>
      have first : r.failures.items.head? = some failure := by rw [items]; rfl
      rw [failureSeen_of_head first, failureSeen_of_head (head?_after first e)]
  | nil =>
      rw [failureSeen_of_empty items]
      cases e with
      | gone =>
          rw [failureSeen_of_empty (r := r.after .gone) items, accepts_after_gone]
          cases r.accepts <;> rfl
      | reported report =>
          cases report with
          | ready | stopped => exact failureSeen_of_empty items coming
          | failure failure =>
              cases open_ : r.accepts with
              | true =>
                  have first : (r.after (.reported (.failure failure))).failures.items.head? =
                      some failure := by
                    rw [items_after_failure_of_empty items open_]
                    rfl
                  rw [failureSeen_of_head first]
                  simp [Timeline.firstFailure, past]
              | false =>
                  have same := after_failure_of_refused open_ failure
                  rw [failureSeen_of_empty (by rw [same, items]), accepts_after_failure, open_]
                  rfl

theorem stopped_after (r : Reports) (e : Event) :
    (r.after e).stopped = (decide (e = .reported .stopped) || r.stopped) := by
  cases e with
  | gone => rfl
  | reported report =>
      cases report with
      | ready => rfl
      | stopped => rfl
      | failure failure => simp [(r.after_failure failure).2]

theorem timely_stopSeen (now : Nat) : Timely now (stopSeen now) := by
  intro r t e coming past
  by_cases stops : e = .reported .stopped
  · simp [stopSeen, stopped_after, Timeline.firstStop, stops, past]
  · simp [stopSeen, stopped_after, Timeline.firstStop, stops]

/-! ### The first time of a report -/

theorem firstTime_stopped (coming : Timeline) : ∀ {r : Reports}, r.stopped = false →
    coming.firstTime (·.stopped) r = coming.firstStop := by
  induction coming with
  | nil => intro r _; rfl
  | cons entry rest ih =>
      intro r runs
      obtain ⟨t, e⟩ := entry
      by_cases stops : e = .reported .stopped
      · simp [Timeline.firstTime, Timeline.firstStop, stopped_after, stops]
      · have runs' : (r.after e).stopped = false := by simp [stopped_after, stops, runs]
        simp [Timeline.firstTime, Timeline.firstStop, stops, runs', ih runs']

theorem firstTime_cons_of_empty {t : Nat} {e : Event} {coming : Timeline}
    (empty : (r.after e).failures.items = []) :
    Timeline.firstTime (!·.failures.items.isEmpty) ((t, e) :: coming) r =
      coming.firstTime (!·.failures.items.isEmpty) (r.after e) := by
  simp [Timeline.firstTime, empty]

theorem firstTime_failed (coming : Timeline) : ∀ {r : Reports}, r.failures.items = [] →
    coming.firstTime (!·.failures.items.isEmpty) r =
      if r.accepts then coming.firstFailure.map (·.1) else .none := by
  induction coming with
  | nil => intro r _; simp [Timeline.firstTime, Timeline.firstFailure]
  | cons entry rest ih =>
      intro r empty
      obtain ⟨t, e⟩ := entry
      cases e with
      | gone =>
          have empty' : (r.after .gone).failures.items = [] := empty
          rw [firstTime_cons_of_empty empty', ih empty', accepts_after_gone]
          simp [Timeline.firstFailure]
      | reported report =>
          cases report with
          | ready | stopped =>
              refine (firstTime_cons_of_empty ?_).trans (ih ?_)
              · exact empty
              · exact empty
          | failure failure =>
              cases open_ : r.accepts with
              | true =>
                  have queued := items_after_failure_of_empty empty open_ failure
                  simp [Timeline.firstTime, Timeline.firstFailure, queued]
              | false =>
                  have same := after_failure_of_refused open_ failure
                  have empty' : (r.after (.reported (.failure failure))).failures.items = [] := by
                    rw [same, empty]
                  rw [firstTime_cons_of_empty empty', ih empty', accepts_after_failure, open_]
                  rfl

/-- With nothing left to take in, a failure is there now or when the first one comes. -/
theorem failureSeen_time {coming : Timeline} (later : ∀ e ∈ coming, now < e.1) :
    (failureSeen now r coming).map (·.1) = if (!r.failures.items.isEmpty) = true then some now
      else coming.firstTime (!·.failures.items.isEmpty) r := by
  cases items : r.failures.items with
  | cons first rest => simp [failureSeen, items]
  | nil =>
      rw [failureSeen_of_empty items, firstTime_failed _ items]
      cases r.accepts with
      | false => rfl
      | true =>
          cases first : coming.firstFailure with
          | none => rfl
          | some told =>
              have after := later _ (Timeline.mem_of_firstFailure first)
              simp [Nat.max_eq_right (Nat.le_of_lt after)]

theorem stopSeen_time {coming : Timeline} (later : ∀ e ∈ coming, now < e.1) :
    stopSeen now r coming = if r.stopped = true then some now
      else coming.firstTime (·.stopped) r := by
  cases stopped : r.stopped with
  | true => simp [stopSeen, stopped]
  | false =>
      rw [stopSeen, firstTime_stopped _ stopped, stopped]
      cases first : coming.firstStop with
      | none => rfl
      | some told =>
          have after := later _ (Timeline.mem_of_firstStop first)
          simp [Nat.max_eq_right (Nat.le_of_lt after)]

end Reports

/-! ## Members -/

namespace Member

open Reports (Timely timely_failureSeen timely_stopSeen)

variable {β : Type} {b : Member} {token : Cancellation} {now known start t u : Nat}
  {failure : Failure}

def failureSeen (b : Member) (token : Cancellation) (now : Nat) : Option (Nat × Failure) :=
  Reports.failureSeen now b.reports (b.pending token)

def stopSeen (b : Member) (token : Cancellation) (now : Nat) : Option Nat :=
  Reports.stopSeen now b.reports (b.pending token)

theorem pending_advance (b : Member) (token : Cancellation) (t : Nat) :
    (b.advance token t).pending token = (b.pending token).filter (t < ·.1) := by
  simp only [pending, advance, List.filter_filter]
  congr 1
  funext e
  rw [Bool.eq_iff_iff]
  simp only [Bool.and_eq_true, decide_eq_true_eq]
  omega

theorem reading_advance {reading : Reports → Timeline → β} (timely : Timely now reading)
    (ordered : b.InOrder) (past : known ≤ now) :
    reading (b.advance token known).reports ((b.advance token known).pending token) =
      reading b.reports (b.pending token) := by
  have earlier : ∀ e ∈ (b.pending token).filter (·.1 ≤ known), e.1 ≤ now := by
    intro e mem
    have before : e.1 ≤ known := of_decide_eq_true (List.mem_filter.1 mem).2
    exact before.trans past
  rw [pending_advance]
  change reading (((b.pending token).filter (·.1 ≤ known)).foldl (fun r e => r.after e.2)
    b.reports) _ = _
  have ordered' : (b.pending token).InOrder := (ordered token).filter _
  rw [timely.foldl _ earlier, Timeline.filter_le_append_lt ordered']

theorem reading_launched {reading : Reports → Timeline → β} (timely : Timely now reading)
    {future : Cancellation → Timeline} (ordered : (future token).InOrder) (past : start ≤ now) :
    reading (launched start future token).reports ((launched start future token).pending token) =
      reading .none (future token) := by
  have earlier : ∀ e ∈ (future token).filter (·.1 ≤ start), e.1 ≤ now := by
    intro e mem
    have before : e.1 ≤ start := of_decide_eq_true (List.mem_filter.1 mem).2
    exact before.trans past
  change reading (((future token).filter (·.1 ≤ start)).foldl (fun r e => r.after e.2) .none)
    ((future token).filter (start < ·.1)) = _
  rw [timely.foldl _ earlier, Timeline.filter_le_append_lt ordered]

theorem lt_of_mem_pending_advance {e : Nat × Event}
    (mem : e ∈ (b.advance token now).pending token) : now < e.1 := by
  rw [pending_advance] at mem
  exact of_decide_eq_true (List.mem_filter.1 mem).2

theorem failureFrom_eq (ordered : b.InOrder) :
    b.failureFrom token now = (b.failureSeen token now).map (·.1) := by
  rw [failureSeen, ← reading_advance (timely_failureSeen now) ordered (Nat.le_refl now),
    Reports.failureSeen_time fun _ => lt_of_mem_pending_advance]
  rfl

theorem stoppedFrom_eq (ordered : b.InOrder) :
    b.stoppedFrom token now = b.stopSeen token now := by
  rw [stopSeen, ← reading_advance (timely_stopSeen now) ordered (Nat.le_refl now),
    Reports.stopSeen_time fun _ => lt_of_mem_pending_advance]
  rfl

/-- Somebody who waits from later on has the same failure before him. -/
theorem failureSeen_later (from_ : now ≤ u) (seen : b.failureSeen token now = some (t, failure)) :
    b.failureSeen token u = some (max u t, failure) := by
  unfold failureSeen at seen ⊢
  cases items : b.reports.failures.items with
  | cons first rest =>
      simp only [Reports.failureSeen, items, Option.some.injEq, Prod.mk.injEq] at seen ⊢
      exact ⟨by omega, seen.2⟩
  | nil =>
      rw [Reports.failureSeen_of_empty items] at seen ⊢
      cases open_ : b.reports.accepts with
      | false => simp [open_] at seen
      | true =>
          cases first : (b.pending token).firstFailure with
          | none => simp [open_, first] at seen
          | some told =>
              simp only [open_, first, if_true, Option.map_some, Option.some.injEq,
                Prod.mk.injEq] at seen ⊢
              exact ⟨by omega, seen.2⟩

/-- The failure that is there from `t` on is the one that is taken then. -/
theorem takeFailure_of_failureSeen (ordered : b.InOrder)
    (seen : b.failureSeen token now = some (t, failure)) :
    (b.advance token t).takeFailure.2 = some failure := by
  have from_ : now ≤ t := by
    have time : b.failureFrom token now = some t := by rw [failureFrom_eq ordered, seen]; rfl
    exact le_of_timeOf time
  have seen' := failureSeen_later from_ seen
  rw [failureSeen, ← reading_advance (timely_failureSeen t) ordered (Nat.le_refl t)] at seen'
  rw [takeFailure_snd]
  cases items : (b.advance token t).reports.failures.items with
  | cons first rest =>
      simp only [Reports.failureSeen, items, Option.some.injEq, Prod.mk.injEq] at seen'
      rw [seen'.2]
      rfl
  | nil =>
      -- otherwise it would come later
      have late : ∀ e ∈ (b.advance token t).pending token, t < e.1 :=
        fun _ => lt_of_mem_pending_advance
      have time : (Reports.failureSeen t (b.advance token t).reports _).map (·.1) = _ :=
        Reports.failureSeen_time late
      rw [seen', items] at time
      obtain ⟨e, mem⟩ := Timeline.mem_of_firstTime _ time.symm
      have after : t < max t t := late _ mem
      omega

end Member

end StoreWarden.Engine
