import Mathlib.Data.Nat.Find
import StoreWarden.Lifecycle
import StoreWarden.Proofs.RetryAttempts

/-!
# What ends a wait on a member

A wait on a member ends with the first of several events, `firstOf`.  When a member has reported
something that lasts is the first time at which its reports have it, `timeOf_eq_some_iff`, and it
does not matter how much of them has been taken in before, `advance_advance`.
-/

set_option autoImplicit false

namespace StoreWarden

/-! ## The first of several events -/

section
variable {α : Type}

theorem firstOf_eq_none_iff {events : List (Option Nat × α)} :
    firstOf events = none ↔ ∀ e ∈ events, e.1 = none := by
  induction events with
  | nil => simp [firstOf]
  | cons event rest ih =>
      obtain ⟨time, a⟩ := event
      cases time with
      | none => simp [firstOf, ih]
      | some t =>
          cases later : firstOf rest with
          | none => simp [firstOf, later]
          | some found => by_cases before : t ≤ found.1 <;> simp [firstOf, later, before]

theorem mem_of_firstOf {events : List (Option Nat × α)} {t : Nat} {a : α}
    (first : firstOf events = some (t, a)) : (some t, a) ∈ events := by
  induction events generalizing t a with
  | nil => cases first
  | cons event rest ih =>
      obtain ⟨time, b⟩ := event
      cases time with
      | none => exact List.mem_cons_of_mem _ (ih first)
      | some u =>
          simp only [firstOf] at first
          cases later : firstOf rest with
          | none =>
              simp only [later, Option.some.injEq, Prod.mk.injEq] at first
              obtain ⟨rfl, rfl⟩ := first
              exact List.mem_cons_self
          | some found =>
              obtain ⟨v, c⟩ := found
              simp only [later] at first
              by_cases before : u ≤ v
              · simp only [if_pos before, Option.some.injEq, Prod.mk.injEq] at first
                obtain ⟨rfl, rfl⟩ := first
                exact List.mem_cons_self
              · simp only [if_neg before] at first
                exact List.mem_cons_of_mem _ (ih (later.trans first))

theorem le_of_firstOf {events : List (Option Nat × α)} {t : Nat} {a : α}
    (first : firstOf events = some (t, a)) : ∀ e ∈ events, ∀ u ∈ e.1, t ≤ u := by
  induction events generalizing t a with
  | nil => cases first
  | cons event rest ih =>
      obtain ⟨time, b⟩ := event
      rw [List.forall_mem_cons]
      cases time with
      | none => exact ⟨by simp, ih first⟩
      | some u =>
          simp only [firstOf] at first
          cases later : firstOf rest with
          | none =>
              simp only [later, Option.some.injEq, Prod.mk.injEq] at first
              refine ⟨by simp [first.1], ?_⟩
              intro e mem
              simp [firstOf_eq_none_iff.1 later e mem]
          | some found =>
              obtain ⟨v, c⟩ := found
              have after := ih later
              simp only [later] at first
              by_cases before : u ≤ v
              · simp only [if_pos before, Option.some.injEq, Prod.mk.injEq] at first
                obtain ⟨rfl, -⟩ := first
                refine ⟨by simp, ?_⟩
                intro e mem w time
                exact before.trans (after e mem w time)
              · simp only [if_neg before, Option.some.injEq, Prod.mk.injEq] at first
                obtain ⟨rfl, -⟩ := first
                exact ⟨by simpa using Nat.le_of_not_le before, after⟩

theorem firstOf_cons_eq_some_iff {time : Option Nat} {a b : α} {rest : List (Option Nat × α)}
    {t : Nat} : firstOf ((time, a) :: rest) = some (t, b) ↔
      (time = some t ∧ a = b ∧ ∀ e ∈ rest, ∀ u ∈ e.1, t ≤ u) ∨
        (firstOf rest = some (t, b) ∧ ∀ u ∈ time, t < u) := by
  constructor
  · intro first
    have least := le_of_firstOf first
    rw [List.forall_mem_cons] at least
    cases time with
    | none => exact Or.inr ⟨first, by simp⟩
    | some u =>
        simp only [firstOf] at first
        cases later : firstOf rest with
        | none =>
            simp only [later, Option.some.injEq, Prod.mk.injEq] at first
            exact Or.inl ⟨congrArg some first.1, first.2, least.2⟩
        | some found =>
            simp only [later] at first
            by_cases before : u ≤ found.1
            · simp only [if_pos before, Option.some.injEq, Prod.mk.injEq] at first
              exact Or.inl ⟨congrArg some first.1, first.2, least.2⟩
            · rw [if_neg before] at first
              obtain rfl : found.1 = t := congrArg Prod.fst (Option.some.inj first)
              exact Or.inr ⟨first, by simpa using before⟩
  · rintro (⟨rfl, rfl, least⟩ | ⟨later, earlier⟩)
    · cases later : firstOf rest with
      | none => simp [firstOf, later]
      | some found =>
          have after : t ≤ found.1 := least _ (mem_of_firstOf later) _ rfl
          simp [firstOf, later, after]
    · cases time with
      | none => exact later
      | some u =>
          have before : ¬ u ≤ t := by simpa using earlier
          simp [firstOf, later, before]

/-- Of events listed by rank the first one counts, and among those that come with it the one of
lowest rank. -/
theorem firstOf_before {rank : α → Nat} {events : List (Option Nat × α)}
    (ranked : events.Pairwise fun e f => rank e.2 ≤ rank f.2) {t : Nat} {a : α}
    (first : firstOf events = some (t, a)) :
    ∀ e ∈ events, ∀ u ∈ e.1, t < u ∨ t = u ∧ rank a ≤ rank e.2 := by
  induction events generalizing t a with
  | nil => cases first
  | cons event rest ih =>
      obtain ⟨time, b⟩ := event
      obtain ⟨lower, ranked⟩ := List.pairwise_cons.1 ranked
      rw [List.forall_mem_cons]
      rcases firstOf_cons_eq_some_iff.1 first with ⟨rfl, rfl, least⟩ | ⟨later, earlier⟩
      · constructor
        · intro u same
          exact Or.inr ⟨Option.some.inj same, Nat.le_refl _⟩
        · intro e mem u time
          rcases Nat.lt_or_eq_of_le (least e mem u time) with before | same
          · exact Or.inl before
          · exact Or.inr ⟨same, lower e mem⟩
      · exact ⟨fun u time => Or.inl (earlier u time), ih ranked later⟩

/-- A wait that names the cancellation first, and otherwise nothing past, ends with it exactly if
the run is cancelled by then. -/
theorem isCancelled_firstOf {m : Moment} {c a : α} {events : List (Option Nat × α)} {t : Nat}
    (first : firstOf ((m.token.seenFrom m.now, c) :: events) = some (t, a))
    (others : ∀ e ∈ events, e.2 ≠ c) (later : ∀ e ∈ events, ∀ u ∈ e.1, m.now ≤ u) :
    m.now ≤ t ∧ ((m.moveTo t).isCancelled = true ↔ a = c) := by
  rcases firstOf_cons_eq_some_iff.1 first with ⟨seen, rfl, -⟩ | ⟨first, before⟩
  · exact ⟨Cancellation.le_of_seenFrom seen,
      fun _ => rfl, fun _ => Moment.isCancelled_moveTo_seen seen⟩
  · have mem := mem_of_firstOf first
    have after : m.now ≤ t := later _ mem t rfl
    refine ⟨after, ?_, fun same => absurd same (others _ mem)⟩
    intro cancelled
    cases fires : m.token.firesAt with
    | none => simp [Moment.isCancelled, Moment.moveTo, Cancellation.isFired, fires] at cancelled
    | some f =>
        have fired : f ≤ t := by
          simp only [Moment.isCancelled, Moment.moveTo, Cancellation.isFired, fires] at cancelled
          exact of_decide_eq_true cancelled
        have early : t < max m.now f := before _ (by simp [Cancellation.seenFrom, fires])
        omega

end

/-! ## Timelines -/

namespace Engine

/-- A property of reports that holds on once it holds. -/
def Lasting (p : Reports → Bool) : Prop := ∀ r e, p r = true → p (r.after e) = true

/-- A failure that is reported touches the queue alone. -/
theorem Reports.after_failure (r : Reports) (failure : Failure) :
    (r.after (.reported (.failure failure))).ready = r.ready ∧
      (r.after (.reported (.failure failure))).stopped = r.stopped := by
  rw [Reports.after_failure_eq]
  exact ⟨rfl, rfl⟩

theorem lasting_stopped : Lasting (·.stopped) := by
  intro r e stopped
  cases e with
  | gone => exact stopped
  | reported report =>
      cases report with
      | stopped => rfl
      | ready => exact stopped
      | failure failure => exact (r.after_failure failure).2.trans stopped

theorem lasting_ready : Lasting (·.ready) := by
  intro r e ready
  cases e with
  | gone => exact ready
  | reported report =>
      cases report with
      | ready => rfl
      | stopped => exact ready
      | failure failure => exact (r.after_failure failure).1.trans ready

theorem Lasting.foldl {p : Reports → Bool} (lasting : Lasting p) (timeline : Timeline) :
    ∀ {r : Reports}, p r = true → p (timeline.foldl (fun r e => r.after e.2) r) = true := by
  induction timeline with
  | nil => intro r has; exact has
  | cons entry rest ih => intro r has; exact ih (lasting r entry.2 has)

namespace Timeline

/-- Nothing in a timeline comes before what is listed earlier. -/
def InOrder (timeline : Timeline) : Prop := timeline.Pairwise (·.1 ≤ ·.1)

/-- Reports after all that happens up to `t`. -/
def reportsAt (timeline : Timeline) (t : Nat) (r : Reports) : Reports :=
  (timeline.filter (·.1 ≤ t)).foldl (fun r e => r.after e.2) r

theorem reportsAt_of_lt {timeline : Timeline} {t : Nat} (later : ∀ e ∈ timeline, t < e.1)
    (r : Reports) : timeline.reportsAt t r = r := by
  have none' : timeline.filter (·.1 ≤ t) = [] := by
    rw [List.filter_eq_nil_iff]
    intro e mem
    simpa using later e mem
  rw [reportsAt, none']
  rfl

theorem reportsAt_cons {entry : Nat × Event} {timeline : Timeline} {t : Nat}
    (before : entry.1 ≤ t) (r : Reports) :
    reportsAt (entry :: timeline) t r = timeline.reportsAt t (r.after entry.2) := by
  simp [reportsAt, before]

theorem firstTime_eq_some_iff {p : Reports → Bool} (lasting : Lasting p) {timeline : Timeline}
    (ordered : timeline.InOrder) : ∀ {r : Reports} {t : Nat}, p r = false →
      (timeline.firstTime p r = some t ↔ p (timeline.reportsAt t r) = true ∧
        ∀ u < t, p (timeline.reportsAt u r) = false) := by
  induction timeline with
  | nil => intro r t lacks; simp [firstTime, reportsAt, lacks]
  | cons entry rest ih =>
      intro r t lacks
      obtain ⟨sooner, ordered⟩ := List.pairwise_cons.1 ordered
      -- before the first entry nothing has happened, so that the rest decides from there on
      have early (u : Nat) (before : u < entry.1) : reportsAt (entry :: rest) u r = r := by
        refine reportsAt_of_lt ?_ r
        rw [List.forall_mem_cons]
        exact ⟨before, fun e mem => before.trans_le (sooner e mem)⟩
      simp only [firstTime]
      by_cases has : p (r.after entry.2) = true
      · rw [if_pos has]
        have from_ (u : Nat) (after : entry.1 ≤ u) :
            p (reportsAt (entry :: rest) u r) = true := by
          rw [reportsAt_cons after]
          exact lasting.foldl _ has
        constructor
        · intro same
          obtain rfl := Option.some.inj same
          refine ⟨from_ _ (Nat.le_refl _), ?_⟩
          intro u before
          rw [early u before, lacks]
        · rintro ⟨reached, before⟩
          have after : entry.1 ≤ t := by
            by_contra before
            rw [early t (by omega), lacks] at reached
            cases reached
          rcases Nat.eq_or_lt_of_le after with same | later
          · exact congrArg some same
          · have never := before _ later
            rw [from_ _ (Nat.le_refl _)] at never
            cases never
      · have lacks' : p (r.after entry.2) = false := by simpa using has
        rw [if_neg has, ih ordered lacks']
        have same (u : Nat) : p (reportsAt (entry :: rest) u r) =
            p (reportsAt rest u (r.after entry.2)) := by
          by_cases before : u < entry.1
          · have late : ∀ e ∈ rest, u < e.1 := fun e mem => before.trans_le (sooner e mem)
            rw [early u before, reportsAt_of_lt late, lacks, lacks']
          · rw [reportsAt_cons (by omega)]
        simp only [same]

theorem filter_split {timeline : Timeline} (ordered : timeline.InOrder) (seen : Nat) {u v : Nat}
    (after : u ≤ v) : (timeline.filter (seen < ·.1)).filter (·.1 ≤ v) =
      (timeline.filter (seen < ·.1)).filter (·.1 ≤ u) ++
        (timeline.filter (max seen u < ·.1)).filter (·.1 ≤ v) := by
  induction timeline with
  | nil => rfl
  | cons entry rest ih =>
      obtain ⟨sooner, ordered⟩ := List.pairwise_cons.1 ordered
      have rest_ := ih ordered
      -- the first entry is over already, comes up to `u`, or is later, and then so is the rest
      by_cases old : entry.1 ≤ seen
      · have old' : ¬ seen < entry.1 := by omega
        have old'' : ¬ max seen u < entry.1 := by omega
        simpa [old', old''] using rest_
      by_cases first : entry.1 ≤ u
      · have new : seen < entry.1 := by omega
        have first' : ¬ max seen u < entry.1 := by omega
        have both : entry.1 ≤ v := by omega
        simpa [new, first, first', both] using rest_
      · have none' : ((entry :: rest).filter (seen < ·.1)).filter (·.1 ≤ u) = [] := by
          rw [List.filter_eq_nil_iff]
          intro e mem
          have listed := (List.mem_filter.1 mem).1
          have late : entry.1 ≤ e.1 := by
            rcases List.mem_cons.1 listed with rfl | deeper
            · exact Nat.le_refl _
            · exact sooner e deeper
          have beyond : ¬ e.1 ≤ u := by omega
          simp only [beyond, decide_false, Bool.false_eq_true, not_false_eq_true]
        rw [none', List.nil_append, List.filter_filter, List.filter_filter]
        refine List.filter_congr ?_
        intro e listed
        have late : entry.1 ≤ e.1 := by
          rcases List.mem_cons.1 listed with rfl | deeper
          · exact Nat.le_refl _
          · exact sooner e deeper
        have same : seen < e.1 ↔ max seen u < e.1 := by omega
        simp only [same]

end Timeline

theorem Timeline.mem_of_firstTime {p : Reports → Bool} (timeline : Timeline) :
    ∀ {r : Reports} {t : Nat}, timeline.firstTime p r = some t →
      ∃ event, (t, event) ∈ timeline := by
  induction timeline with
  | nil => intro r t first; cases first
  | cons entry rest ih =>
      intro r t first
      obtain ⟨u, event⟩ := entry
      simp only [Timeline.firstTime] at first
      by_cases has : p (r.after event) = true
      · rw [if_pos has] at first
        obtain rfl := Option.some.inj first
        exact ⟨event, List.mem_cons_self⟩
      · rw [if_neg has] at first
        obtain ⟨other, mem⟩ := ih first
        exact ⟨other, List.mem_cons_of_mem _ mem⟩

/-! ## Members -/

namespace Member

/-- Whatever becomes of the cancellation, what happens to the member is listed in order of time. -/
def InOrder (b : Member) : Prop := ∀ token, (b.future token).InOrder

variable {b : Member} {token : Cancellation} {p : Reports → Bool}

theorem le_of_timeOf {now t : Nat} (time : b.timeOf p token now = some t) : now ≤ t := by
  simp only [timeOf] at time
  by_cases has : p (b.advance token now).reports = true
  · rw [if_pos has] at time
    exact Nat.le_of_eq (Option.some.inj time)
  · rw [if_neg has] at time
    obtain ⟨event, mem⟩ := Timeline.mem_of_firstTime _ time
    have later : max b.seen now < t := of_decide_eq_true (List.mem_filter.1 mem).2
    omega

theorem advance_advance (ordered : b.InOrder) {u v : Nat} (after : u ≤ v) :
    (b.advance token u).advance token v = b.advance token v := by
  have reports : ((b.advance token u).advance token v).reports = (b.advance token v).reports := by
    simp only [advance, pending]
    rw [Timeline.filter_split (ordered token) b.seen after, List.foldl_append]
    rfl
  have seen : max (max b.seen u) v = max b.seen v := by omega
  cases b with
  | mk r seen_ future =>
      simp only [advance] at reports seen ⊢
      rw [reports, seen]

theorem timeOf_eq_some_iff (ordered : b.InOrder) (lasting : Lasting p) {now t : Nat} :
    b.timeOf p token now = some t ↔ now ≤ t ∧ p (b.advance token t).reports = true ∧
      ∀ u, now ≤ u → u < t → p (b.advance token u).reports = false := by
  simp only [timeOf]
  by_cases has : p (b.advance token now).reports = true
  · rw [if_pos has]
    constructor
    · intro same
      obtain rfl := Option.some.inj same
      exact ⟨Nat.le_refl _, has, fun u from_ before => by omega⟩
    · rintro ⟨from_, -, before⟩
      rcases Nat.eq_or_lt_of_le from_ with same | later
      · exact congrArg some same
      · have lacks := before now (Nat.le_refl _) later
        rw [has] at lacks
        cases lacks
  · rw [if_neg has]
    have lacks : p (b.advance token now).reports = false := by simpa using has
    have later : ∀ e ∈ (b.advance token now).pending token, now < e.1 := by
      intro e mem
      have new : max b.seen now < e.1 := of_decide_eq_true (List.mem_filter.1 mem).2
      omega
    have ordered' : ((b.advance token now).pending token).InOrder := (ordered token).filter _
    have early (u : Nat) (before : u < now) :
        ((b.advance token now).pending token).reportsAt u (b.advance token now).reports =
          (b.advance token now).reports :=
      Timeline.reportsAt_of_lt (fun e mem => before.trans (later e mem)) _
    have since (u : Nat) (from_ : now ≤ u) :
        ((b.advance token now).pending token).reportsAt u (b.advance token now).reports =
          (b.advance token u).reports :=
      congrArg Member.reports (advance_advance ordered from_)
    rw [Timeline.firstTime_eq_some_iff lasting ordered' lacks]
    constructor
    · rintro ⟨reached, before⟩
      have from_ : now ≤ t := by
        by_contra before
        rw [early t (by omega), lacks] at reached
        cases reached
      refine ⟨from_, since t from_ ▸ reached, ?_⟩
      intro u from' earlier
      exact since u from' ▸ before u earlier
    · rintro ⟨from_, reached, before⟩
      refine ⟨(since t from_).symm ▸ reached, ?_⟩
      intro u earlier
      by_cases from' : now ≤ u
      · rw [since u from']
        exact before u from' earlier
      · rw [early u (by omega), lacks]

theorem timeOf_advance_of_le (ordered : b.InOrder) {u now : Nat} (before : u ≤ now) :
    (b.advance token u).timeOf p token now = b.timeOf p token now := by
  simp only [timeOf, advance_advance ordered before]

theorem timeOf_advance_self (ordered : b.InOrder) (t : Nat) :
    (b.advance token t).timeOf p token t = b.timeOf p token t :=
  timeOf_advance_of_le ordered (Nat.le_refl t)

/-- Somebody who asks later learns of what has been by then at once. -/
theorem timeOf_later (ordered : b.InOrder) (lasting : Lasting p) {now u t : Nat} (from_ : now ≤ u)
    (time : b.timeOf p token now = some t) : b.timeOf p token u = some (max u t) := by
  obtain ⟨after, has, lacks⟩ := (timeOf_eq_some_iff ordered lasting).1 time
  apply (timeOf_eq_some_iff ordered lasting).2
  refine ⟨Nat.le_max_left _ _, ?_, ?_⟩
  · rw [← advance_advance ordered (Nat.le_max_right u t)]
    exact lasting.foldl _ has
  · intro v after' early
    exact lacks v (from_.trans after') (by omega)

theorem timeOf_advance (ordered : b.InOrder) (lasting : Lasting p) {now u t : Nat}
    (from_ : now ≤ u) (before : u ≤ t) (time : b.timeOf p token now = some t) :
    (b.advance token u).timeOf p token u = some t := by
  have ordered' : (b.advance token u).InOrder := ordered
  obtain ⟨-, has, lacks⟩ := (timeOf_eq_some_iff ordered lasting).1 time
  refine (timeOf_eq_some_iff ordered' lasting).2 ⟨before, ?_, ?_⟩
  · rwa [advance_advance ordered before]
  · intro v after earlier
    rw [advance_advance ordered after]
    exact lacks v (from_.trans after) earlier

theorem le_timeOf_advance (ordered : b.InOrder) (lasting : Lasting p) {now u t : Nat}
    (from_ : now ≤ u) (time : (b.advance token u).timeOf p token u = some t) :
    ∃ v ≤ t, b.timeOf p token now = some v := by
  have ordered' : (b.advance token u).InOrder := ordered
  obtain ⟨after, has, -⟩ := (timeOf_eq_some_iff ordered' lasting).1 time
  rw [advance_advance ordered after] at has
  have reached : ∃ v, now ≤ v ∧ p (b.advance token v).reports = true := ⟨t, from_.trans after, has⟩
  obtain ⟨since, has'⟩ := Nat.find_spec reached
  refine ⟨Nat.find reached, Nat.find_min' reached ⟨from_.trans after, has⟩, ?_⟩
  refine (timeOf_eq_some_iff ordered lasting).2 ⟨since, has', ?_⟩
  intro v after' earlier
  have not_yet := Nat.find_min reached earlier
  simpa [after'] using not_yet

/-! ### Failures that a member never reports -/

structure NeverReports (failure : Failure) (b : Member) : Prop where
  reported : failure ∉ b.reports.failures.items
  coming : ∀ token t, (t, Event.reported (.failure failure)) ∉ b.future token

/-- No failure that a member reports is that it was cancelled. -/
structure NeverCancelled (b : Member) : Prop where
  reported : Failure.cancelled ∉ b.reports.failures.items
  coming : ∀ token t, (t, Event.reported (.failure .cancelled)) ∉ b.future token

theorem neverCancelled_iff : b.NeverCancelled ↔ b.NeverReports .cancelled :=
  ⟨fun never => ⟨never.reported, never.coming⟩, fun never => ⟨never.reported, never.coming⟩⟩

section NeverReports

variable {failure : Failure}

theorem failure_notMem_after {r : Reports} {e : Event} (none' : failure ∉ r.failures.items)
    (other : e ≠ .reported (.failure failure)) : failure ∉ (r.after e).failures.items := by
  cases e with
  | gone => exact none'
  | reported report =>
      cases report with
      | ready | stopped => exact none'
      | failure reported =>
          have own : reported ≠ failure := by
            rintro rfl
            exact other rfl
          rw [Reports.after_failure_eq, Mailbox.send_items]
          split
          · simp [none', own.symm]
          · simpa using none'

theorem failure_notMem_foldl (timeline : Timeline) : ∀ {r : Reports},
    failure ∉ r.failures.items → (∀ e ∈ timeline, e.2 ≠ .reported (.failure failure)) →
    failure ∉ (timeline.foldl (fun r e => r.after e.2) r).failures.items := by
  induction timeline with
  | nil => intro r none' _; exact none'
  | cons entry rest ih =>
      intro r none' other
      rw [List.forall_mem_cons] at other
      exact ih (failure_notMem_after none' other.1) other.2

theorem NeverReports.advance (never : b.NeverReports failure) (token : Cancellation) (t : Nat) :
    (b.advance token t).NeverReports failure := by
  refine ⟨failure_notMem_foldl _ never.reported ?_, never.coming⟩
  rintro ⟨u, e⟩ mem rfl
  exact never.coming token u (List.mem_of_mem_filter (List.mem_of_mem_filter mem))

theorem NeverReports.takeFailure_ne (never : b.NeverReports failure) :
    b.takeFailure.2 ≠ some failure := by
  intro same
  apply never.reported
  rw [takeFailure_snd] at same
  exact List.mem_of_mem_head? same

/-- The failure that stands for the end of a member, its own or another. -/
theorem NeverReports.getD_takeFailure_ne (never : b.NeverReports failure) {other : Failure}
    (own : other ≠ failure) : b.takeFailure.2.getD other ≠ failure := by
  have reported := never.takeFailure_ne
  cases taken : b.takeFailure.2 with
  | none => exact own
  | some told =>
      rintro rfl
      exact reported taken

end NeverReports

theorem NeverCancelled.advance (never : b.NeverCancelled) (token : Cancellation) (t : Nat) :
    (b.advance token t).NeverCancelled :=
  neverCancelled_iff.2 ((neverCancelled_iff.1 never).advance token t)

end Member

end Engine

/-! ## The two waits of a run -/

namespace Life

open Engine (Member)

variable {p : Parts} {m : Moment} {b : Member} {t : Nat}

/-- The wait until the member serves ends no earlier than it begins, and with the cancellation
exactly if the run is cancelled by then. -/
theorem isCancelled_startup {event : Startup} (ends : startup p m b = some (t, event)) :
    m.now ≤ t ∧ ((m.moveTo t).isCancelled = true ↔ event = .cancelled) := by
  refine isCancelled_firstOf ends (by simp) ?_
  simp only [List.forall_mem_cons, List.not_mem_nil, false_imp_iff, implies_true, and_true]
  refine ⟨fun u => Member.le_of_timeOf, fun u => Member.le_of_timeOf, ?_⟩
  intro u limit
  obtain ⟨seconds, -, rfl⟩ := Option.map_eq_some_iff.1 limit
  exact Nat.le_add_right _ _

/-- The wait on a member that serves ends no earlier than it begins, and with the cancellation
exactly if the run is cancelled by then. -/
theorem isCancelled_ending {event : Ending} (ends : ending m b = some (t, event)) :
    m.now ≤ t ∧ ((m.moveTo t).isCancelled = true ↔ event = .cancelled) := by
  refine isCancelled_firstOf ends (by simp) ?_
  simp only [List.forall_mem_cons, List.not_mem_nil, false_imp_iff, implies_true, and_true]
  exact ⟨fun u => Member.le_of_timeOf, fun u => Member.le_of_timeOf⟩

end Life

end StoreWarden
