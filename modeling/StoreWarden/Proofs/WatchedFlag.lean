import Mathlib.Logic.Relation
import StoreWarden.Clock
import StoreWarden.Proofs.WatchSchedule

/-!
# The flag of a watched member

Here a watch goes one step at a time: it pauses until the next check is due, begins it, and waits
for the answer no longer than the limit.  Somebody else may cancel the run at any moment, also
between two things that happen at one time, and the watch then ends before it does anything else.
Time passes only while nothing else can happen.

At every moment the flag shows the last check that has ended.  The rounds and the flag of
`Watch.rounds` and `flagAt` are those of the courses in which a cancellation goes before an answer
of the same time.
-/

set_option autoImplicit false

namespace StoreWarden.Readiness.Watch

inductive Phase where
  | pausing (due : Nat)
  | checking (due start : Nat)
  | ended
deriving DecidableEq, Repr

structure Point where
  now : Nat
  token : Cancellation
  flag : Flag
  phase : Phase
  done : List Round

def Point.start (initial : Flag) : Point := ⟨0, .never, initial, .pausing 0, []⟩

inductive Does (w : Watch) (checks : Nat → Check) : Point → Point → Prop
  | stops {now : Nat} {token : Cancellation} {flag : Flag} {phase : Phase} {done : List Round}
      (fired : token.isFired now = true) (on : phase ≠ .ended) :
      Does w checks ⟨now, token, flag, phase, done⟩ ⟨now, token, flag, .ended, done⟩
  | begins {now due : Nat} {token : Cancellation} {flag : Flag} {done : List Round}
      (free : token.isFired now = false) (past : due ≤ now) :
      Does w checks ⟨now, token, flag, .pausing due, done⟩
        ⟨now, token, flag, .checking due now, done⟩
  | pauses {now due : Nat} {token : Cancellation} {flag : Flag} {done : List Round}
      (free : token.isFired now = false) (early : now < due) :
      Does w checks ⟨now, token, flag, .pausing due, done⟩
        ⟨now + 1, token, flag, .pausing due, done⟩
  | answered {now due start d : Nat} {token : Cancellation} {flag : Flag} {done : List Round}
      {r : Round} (free : token.isFired now = false)
      (takes : (checks done.length).takes = some d) (past : start + d ≤ now)
      (round : r = ⟨done.length, due, start, now, (checks done.length).serves⟩) :
      Does w checks ⟨now, token, flag, .checking due start, done⟩
        ⟨now, token, (flag.set r.ready).1, .pausing (w.dueAfter r), done ++ [r]⟩
  | givesUp {now due start : Nat} {token : Cancellation} {flag : Flag} {done : List Round}
      {r : Round} (free : token.isFired now = false)
      (silent : ∀ d ∈ (checks done.length).takes, now < start + d) (late : start + w.limit ≤ now)
      (round : r = ⟨done.length, due, start, now, false⟩) :
      Does w checks ⟨now, token, flag, .checking due start, done⟩
        ⟨now, token, (flag.set r.ready).1, .pausing (w.dueAfter r), done ++ [r]⟩
  | waits {now due start : Nat} {token : Cancellation} {flag : Flag} {done : List Round}
      (free : token.isFired now = false)
      (silent : ∀ d ∈ (checks done.length).takes, now < start + d) (early : now < start + w.limit) :
      Does w checks ⟨now, token, flag, .checking due start, done⟩
        ⟨now + 1, token, flag, .checking due start, done⟩
  | rests {now : Nat} {token : Cancellation} {flag : Flag} {done : List Round} :
      Does w checks ⟨now, token, flag, .ended, done⟩ ⟨now + 1, token, flag, .ended, done⟩

inductive Step (w : Watch) (checks : Nat → Check) : Point → Point → Prop
  | own {p q : Point} (does : w.Does checks p q) : Step w checks p q
  | cancelled {p : Point} : Step w checks p { p with token := p.token.cancel p.now }

def Reaches (w : Watch) (checks : Nat → Check) (initial : Flag) : Point → Prop :=
  Relation.ReflTransGen (w.Step checks) (Point.start initial)

/-- Nothing is left to do at this time. -/
def AtRest (w : Watch) (checks : Nat → Check) (p : Point) : Prop :=
  ∃ q, w.Does checks p q ∧ q.now = p.now + 1

/-- The flag shows the last check that has ended, and a check has ended by its time, unless the run
was cancelled by then. -/
structure ShowsLast (w : Watch) (checks : Nat → Check) (initial : Flag) (p : Point) : Prop where
  flag : p.flag.isReady = true ↔
    (∃ r d, p.done.getLast? = some r ∧ w.Responds (checks r.number) d ∧
      (checks r.number).serves = true) ∨ (p.done = [] ∧ initial.isReady = true)
  ends : ∀ i, (∃ d, w.Responds (checks i) d ∧
      (w.nth checks i).finish = (w.nth checks i).start + d) ∨
    (∀ d, ¬ w.Responds (checks i) d) ∧
      (w.nth checks i).finish = (w.nth checks i).start + w.limit
  /-- Which checks have ended: those before now and before the cancellation.  One that ends at the
  very time may or may not have. -/
  done : ∃ n, p.done = w.upTo checks n ∧
    (∀ i < n, (w.nth checks i).finish ≤ p.now ∧
      ∀ f ∈ p.token.firesAt, (w.nth checks i).finish ≤ f) ∧
    ∀ i, n ≤ i → (p.token.firesAt = none → p.now ≤ (w.nth checks i).finish) ∧
      ∀ f ∈ p.token.firesAt, f ≤ (w.nth checks i).finish
  /-- Nothing changes from the cancellation on. -/
  frozen : p.token.isFired p.now = true → ∀ q, Relation.ReflTransGen (w.Step checks) p q →
    q.flag = p.flag ∧ q.done = p.done
  returned : ∀ f ∈ p.token.firesAt, f < p.now → p.phase = .ended
  /-- The watch goes on, and never cancels. -/
  goes : (∃ q, w.Does checks p q) ∧ ∀ q, w.Does checks p q → q.token = p.token
  running : p.token.firesAt = none → w.AtRest checks p → ∀ stop, p.now < stop →
    ∃ rounds, w.rounds checks stop = .ok rounds ∧ p.flag = flagAt initial rounds stop p.now
  stopped : ∀ stop ∈ p.token.firesAt, (∀ r ∈ p.done, r.finish < stop) →
    ∃ rounds, w.rounds checks stop = .ok rounds ∧ p.flag = flagAt initial rounds stop p.now

variable {w : Watch} {checks : Nat → Check} {initial : Flag}

/-! ## Single steps -/

theorem exists_does (p : Point) : ∃ q, w.Does checks p q := by
  obtain ⟨now, token, flag, phase, done⟩ := p
  cases phase with
  | ended => exact ⟨_, .rests⟩
  | pausing due =>
      cases fired : token.isFired now with
      | true => exact ⟨_, .stops fired (by simp)⟩
      | false =>
          rcases Nat.lt_or_ge now due with early | past
          · exact ⟨_, .pauses fired early⟩
          · exact ⟨_, .begins fired past⟩
  | checking due start =>
      cases fired : token.isFired now with
      | true => exact ⟨_, .stops fired (by simp)⟩
      | false =>
          by_cases silent : ∀ d ∈ (checks done.length).takes, now < start + d
          · rcases Nat.lt_or_ge now (start + w.limit) with early | late
            · exact ⟨_, .waits fired silent early⟩
            · exact ⟨_, .givesUp fired silent late rfl⟩
          · push Not at silent
            obtain ⟨d, takes, past⟩ := silent
            exact ⟨_, .answered fired takes past rfl⟩

theorem token_of_does {p q : Point} (does : w.Does checks p q) : q.token = p.token := by
  cases does <;> rfl

/-- What a point knows that no step takes back, once the run is cancelled. -/
theorem frozen_step {p q : Point} (fired : p.token.isFired p.now = true)
    (step : w.Step checks p q) :
    q.flag = p.flag ∧ q.done = p.done ∧ q.token.isFired q.now = true := by
  cases step with
  | cancelled =>
      refine ⟨rfl, rfl, ?_⟩
      rw [Cancellation.isFired_cancel, fired, Bool.true_or]
  | own does =>
      cases does with
      | stops => exact ⟨rfl, rfl, fired⟩
      | rests => exact ⟨rfl, rfl, Cancellation.isFired_mono (Nat.le_succ _) fired⟩
      | begins free | pauses free | answered free | givesUp free | waits free =>
          exact absurd fired (Bool.eq_false_iff.1 free)

theorem frozen_of_fired {p q : Point} (fired : p.token.isFired p.now = true)
    (course : Relation.ReflTransGen (w.Step checks) p q) :
    q.flag = p.flag ∧ q.done = p.done := by
  have all : q.flag = p.flag ∧ q.done = p.done ∧ q.token.isFired q.now = true := by
    induction course with
    | refl => exact ⟨rfl, rfl, fired⟩
    | tail _ step ih =>
        obtain ⟨flag, done, fired'⟩ := frozen_step ih.2.2 step
        exact ⟨flag.trans ih.1, done.trans ih.2.1, fired'⟩
  exact ⟨all.1, all.2.1⟩

/-! ## What is known in each phase -/

/-- A run that is still watched was cancelled only just now, if at all. -/
inductive Stands (w : Watch) (checks : Nat → Check) (initial : Flag) : Point → Prop
  | pausing {now n : Nat} {token : Cancellation} (from_ : w.freeAt checks n ≤ now)
      (early : now ≤ (w.nth checks n).start) (fresh : ∀ f ∈ token.firesAt, f = now) :
      Stands w checks initial
        ⟨now, token, shown initial (w.upTo checks n), .pausing (w.nth checks n).due,
          w.upTo checks n⟩
  | checking {now n : Nat} {token : Cancellation} (from_ : (w.nth checks n).start ≤ now)
      (early : now ≤ (w.nth checks n).finish) (fresh : ∀ f ∈ token.firesAt, f = now) :
      Stands w checks initial
        ⟨now, token, shown initial (w.upTo checks n),
          .checking (w.nth checks n).due (w.nth checks n).start, w.upTo checks n⟩
  | ended {now n f : Nat} {token : Cancellation} (fires : token.firesAt = some f) (past : f ≤ now)
      (ended : ∀ i < n, (w.nth checks i).finish ≤ f) (open_ : f ≤ (w.nth checks n).finish) :
      Stands w checks initial
        ⟨now, token, shown initial (w.upTo checks n), .ended, w.upTo checks n⟩

variable (w checks) in
theorem start_eq : Point.start initial = ⟨0, .never, shown initial (w.upTo checks 0),
    .pausing (w.nth checks 0).due, w.upTo checks 0⟩ := by
  rw [nth_zero_due]
  rfl

theorem stands_start : w.Stands checks initial (Point.start initial) := by
  rw [start_eq w checks]
  exact .pausing (Nat.le_refl 0) (Nat.zero_le _) (by simp [Cancellation.never])

theorem firesAt_of_fired {token : Cancellation} {now : Nat} (fired : token.isFired now = true) :
    ∃ f, token.firesAt = some f ∧ f ≤ now := by
  unfold Cancellation.isFired at fired
  cases fires : token.firesAt with
  | none => simp [fires] at fired
  | some f =>
      simp only [fires, decide_eq_true_eq] at fired
      exact ⟨f, rfl, fired⟩

/-- Time passes only in a run that is not cancelled. -/
theorem fresh_later {token : Cancellation} {now : Nat} (fresh : ∀ f ∈ token.firesAt, f = now)
    (free : token.isFired now = false) : ∀ f ∈ token.firesAt, f = now + 1 := by
  intro f fires
  obtain rfl := fresh f fires
  have fired : token.isFired f = true := by
    rw [Option.mem_def] at fires
    simp [Cancellation.isFired, fires]
  cases fired.symm.trans free

theorem fresh_cancel {token : Cancellation} {now : Nat}
    (fresh : ∀ f ∈ token.firesAt, f = now) : ∀ f ∈ (token.cancel now).firesAt, f = now := by
  unfold Cancellation.cancel
  intro f mem
  cases fires : token.firesAt with
  | none =>
      simp only [fires, Option.mem_def, Option.some.injEq] at mem
      exact mem.symm
  | some f' =>
      obtain rfl := fresh f' fires
      simp only [fires, Nat.min_self, Option.mem_def, Option.some.injEq] at mem
      exact mem.symm

theorem set_shown (n : Nat) : shown initial (w.upTo checks (n + 1)) =
    ((shown initial (w.upTo checks n)).set (w.nth checks n).ready).1 := by
  rw [upTo_succ, shown_concat]
  rfl

/-- The round that ends now is the next one of the schedule. -/
theorem stands_concluded {now n : Nat} {token : Cancellation} {ready : Bool} {r : Round}
    (fresh : ∀ f ∈ token.firesAt, f = now) (finish : (w.nth checks n).finish = now)
    (outcome : (w.nth checks n).ready = ready)
    (round : r = ⟨n, (w.nth checks n).due, (w.nth checks n).start, now, ready⟩) :
    w.Stands checks initial
      ⟨now, token, ((shown initial (w.upTo checks n)).set r.ready).1, .pausing (w.dueAfter r),
        w.upTo checks n ++ [r]⟩ := by
  have same : r = w.nth checks n := by
    rw [round, ← finish, ← outcome]
    exact (nth_eta n).symm
  subst same
  rw [← nth_due_succ, ← upTo_succ, ← set_shown]
  refine .pausing (Nat.le_of_eq finish) ?_ fresh
  rw [← finish]
  exact freeAt_le_start (n + 1)

theorem stands_does {p q : Point} (does : w.Does checks p q) (stands : w.Stands checks initial p) :
    w.Stands checks initial q := by
  cases stands with
  | @pausing now n token from_ early fresh =>
      cases does with
      | stops fired =>
          obtain ⟨f, fires, -⟩ := firesAt_of_fired fired
          obtain rfl := fresh f fires
          refine .ended fires (Nat.le_refl _) ?_ (Nat.le_trans early (start_le_finish n))
          intro i before
          exact Nat.le_trans (finish_le_freeAt before) from_
      | begins free past =>
          have begun : (w.nth checks n).start = now := by
            apply Nat.le_antisymm _ early
            rw [nth_start]
            exact Nat.max_le.2 ⟨past, from_⟩
          subst begun
          exact .checking (Nat.le_refl _) (start_le_finish n) fresh
      | pauses free before =>
          refine .pausing (Nat.le_succ_of_le from_) ?_ (fresh_later fresh free)
          exact Nat.le_trans before (due_le_start n)
  | @checking now n token from_ early fresh =>
      cases does with
      | stops fired =>
          obtain ⟨f, fires, -⟩ := firesAt_of_fired fired
          obtain rfl := fresh f fires
          refine .ended fires (Nat.le_refl _) ?_ early
          intro i before
          exact Nat.le_trans (Nat.le_trans (finish_le_freeAt before) (freeAt_le_start n)) from_
      | @answered _ _ _ d _ _ _ _ free takes past round =>
          rw [upTo_length] at takes round
          have responds := responds_of_takes takes (Nat.le_trans past early)
          obtain ⟨finish, ready⟩ := nth_of_responds responds
          exact stands_concluded fresh (by omega) ready round
      | givesUp free pending late round =>
          rw [upTo_length] at pending round
          have silent : ∀ d, ¬ w.Responds (checks n) d := by
            rintro d ⟨takes, within⟩
            have later := pending d takes
            omega
          obtain ⟨finish, ready⟩ := nth_of_silent silent
          exact stands_concluded fresh (by omega) ready round
      | waits free pending before =>
          rw [upTo_length] at pending
          refine .checking (Nat.le_succ_of_le from_) ?_ (fresh_later fresh free)
          exact lt_finish_iff.2 ⟨pending, before⟩
  | ended fires past ended open_ =>
      cases does with
      | stops _ on => exact absurd rfl on
      | rests => exact .ended fires (Nat.le_succ_of_le past) ended open_

theorem stands_step {p q : Point} (step : w.Step checks p q) (stands : w.Stands checks initial p) :
    w.Stands checks initial q := by
  cases step with
  | own does => exact stands_does does stands
  | cancelled =>
      cases stands with
      | pausing from_ early fresh => exact .pausing from_ early (fresh_cancel fresh)
      | checking from_ early fresh => exact .checking from_ early (fresh_cancel fresh)
      | ended fires past ended open_ =>
          refine .ended ?_ past ended open_
          simp only [Cancellation.cancel, fires, Nat.min_eq_left past]

theorem stands_of_reaches {p : Point} (reached : w.Reaches checks initial p) :
    w.Stands checks initial p := by
  induction reached with
  | refl => exact stands_start
  | tail _ step ih => exact stands_step step ih

/-! ## Every moment -/

theorem done_of_stands {p : Point} (stands : w.Stands checks initial p) :
    ∃ n, p.done = w.upTo checks n ∧ p.flag = shown initial (w.upTo checks n) ∧
      (∀ i < n, (w.nth checks i).finish ≤ p.now ∧
        ∀ f ∈ p.token.firesAt, (w.nth checks i).finish ≤ f) ∧
      (p.token.firesAt = none → p.now ≤ (w.nth checks n).finish) ∧
      ∀ f ∈ p.token.firesAt, f ≤ (w.nth checks n).finish := by
  cases stands with
  | @pausing now n token from_ early fresh =>
      have open_ : now ≤ (w.nth checks n).finish := Nat.le_trans early (start_le_finish n)
      refine ⟨n, rfl, rfl, ?_, fun _ => open_, ?_⟩
      · intro i before
        have ended := Nat.le_trans (finish_le_freeAt before) from_
        exact ⟨ended, fun f fires => (fresh f fires).symm ▸ ended⟩
      · exact fun f fires => (fresh f fires).symm ▸ open_
  | @checking now n token from_ early fresh =>
      refine ⟨n, rfl, rfl, ?_, fun _ => early, ?_⟩
      · intro i before
        have ended :=
          Nat.le_trans (Nat.le_trans (finish_le_freeAt before) (freeAt_le_start n)) from_
        exact ⟨ended, fun f fires => (fresh f fires).symm ▸ ended⟩
      · exact fun f fires => (fresh f fires).symm ▸ early
  | @ended now n f token fires past ended open_ =>
      refine ⟨n, rfl, rfl, ?_, ?_, ?_⟩
      · intro i before
        refine ⟨Nat.le_trans (ended i before) past, ?_⟩
        intro g fires'
        obtain rfl := Option.some.inj (fires.symm.trans fires')
        exact ended i before
      · intro never
        cases fires.symm.trans never
      · intro g fires'
        obtain rfl := Option.some.inj (fires.symm.trans fires')
        exact open_

theorem shown_iff (n : Nat) : (shown initial (w.upTo checks n)).isReady = true ↔
    (∃ r d, (w.upTo checks n).getLast? = some r ∧ w.Responds (checks r.number) d ∧
      (checks r.number).serves = true) ∨ (w.upTo checks n = [] ∧ initial.isReady = true) := by
  cases n with
  | zero => simp [shown, upTo]
  | succ n =>
      rw [upTo_succ, shown_concat]
      constructor
      · intro ready
        obtain ⟨d, responds, serves⟩ := ready_iff.1 ready
        refine Or.inl ⟨w.nth checks n, d, List.getLast?_concat, ?_⟩
        rw [nth_number]
        exact ⟨responds, serves⟩
      · rintro (⟨r, d, last, responds, serves⟩ | ⟨empty, -⟩)
        · rw [List.getLast?_concat] at last
          obtain rfl := Option.some.inj last
          rw [nth_number] at responds serves
          exact ready_iff.2 ⟨d, responds, serves⟩
        · simp at empty

theorem lt_finish_of_atRest {p : Point} (stands : w.Stands checks initial p)
    (rest : w.AtRest checks p) (never : p.token.firesAt = none) :
    ∃ n, p.done = w.upTo checks n ∧ p.now < (w.nth checks n).finish := by
  obtain ⟨q, does, later⟩ := rest
  cases stands with
  | @pausing now n token from_ early fresh =>
      refine ⟨n, rfl, ?_⟩
      cases does with
      | pauses _ before =>
          exact Nat.lt_of_lt_of_le before (Nat.le_trans (due_le_start n) (start_le_finish n))
      | stops | begins => exact absurd later.symm (Nat.succ_ne_self _)
  | @checking now n token from_ early fresh =>
      refine ⟨n, rfl, ?_⟩
      cases does with
      | waits _ pending before =>
          rw [upTo_length] at pending
          exact lt_finish_iff.2 ⟨pending, before⟩
      | stops | answered | givesUp => exact absurd later.symm (Nat.succ_ne_self _)
  | ended fires => cases fires.symm.trans never

theorem showsLast_of_stands (positive : 0 < w.interval) {p : Point}
    (stands : w.Stands checks initial p) : w.ShowsLast checks initial p := by
  obtain ⟨n, done, flag, ended, running, stopped⟩ := done_of_stands stands
  refine ⟨?_, ?_, ⟨n, done, ended, ?_⟩, ?_, ?_, ⟨exists_does p, fun q => token_of_does⟩, ?_, ?_⟩
  case refine_1 =>
      rw [flag, done]
      exact shown_iff n
  case refine_2 =>
      intro i
      rcases responds_or_silent (w := w) (checks i) with ⟨d, responds⟩ | silent
      · exact Or.inl ⟨d, responds, (nth_of_responds responds).1⟩
      · exact Or.inr ⟨silent, (nth_of_silent silent).1⟩
  case refine_3 =>
      intro i late
      have later : (w.nth checks n).finish ≤ (w.nth checks i).finish := finish_mono late
      exact ⟨fun never => Nat.le_trans (running never) later,
        fun f fires => Nat.le_trans (stopped f fires) later⟩
  case refine_4 => exact fun fired q course => frozen_of_fired fired course
  case refine_5 =>
      intro f fires before
      cases stands with
      | pausing _ _ fresh | checking _ _ fresh =>
          exact absurd (fresh f fires) (Nat.ne_of_lt before)
      | ended => rfl
  case refine_6 =>
      intro never rest stop before
      obtain ⟨total, rounds_eq, -⟩ := rounds_eq_upTo checks positive stop
      refine ⟨_, rounds_eq, ?_⟩
      obtain ⟨m, same, open_⟩ := lt_finish_of_atRest stands rest never
      obtain rfl : n = m := by
        have length : (w.upTo checks n).length = (w.upTo checks m).length := by rw [← done, same]
        rwa [upTo_length, upTo_length] at length
      rw [flag, flagAt_eq_shown positive rounds_eq ?_ (Or.inr open_)]
      exact fun i earlier =>
        ⟨Nat.lt_of_le_of_lt (ended i earlier).1 before, (ended i earlier).1⟩
  case refine_7 =>
      intro stop fires before
      obtain ⟨total, rounds_eq, -⟩ := rounds_eq_upTo checks positive stop
      refine ⟨_, rounds_eq, ?_⟩
      rw [flag, flagAt_eq_shown positive rounds_eq ?_ (Or.inl (stopped stop fires))]
      intro i earlier
      refine ⟨before (w.nth checks i) ?_, (ended i earlier).1⟩
      rw [done]
      exact List.mem_map_of_mem (List.mem_range.2 earlier)

/-! ## Courses -/

variable (w checks initial) in
/-- The watch that nobody ends, at a time before its round `n` begins. -/
def pausingAt (n t : Nat) : Point :=
  ⟨t, .never, shown initial (w.upTo checks n), .pausing (w.nth checks n).due, w.upTo checks n⟩

variable (w checks initial) in
def checkingAt (n t : Nat) : Point :=
  ⟨t, .never, shown initial (w.upTo checks n),
    .checking (w.nth checks n).due (w.nth checks n).start, w.upTo checks n⟩

theorem does_pause {n t : Nat} (from_ : w.freeAt checks n ≤ t)
    (early : t < (w.nth checks n).start) :
    w.Does checks (w.pausingAt checks initial n t) (w.pausingAt checks initial n (t + 1)) := by
  apply Does.pauses (Cancellation.isFired_never t)
  rw [nth_start] at early
  omega

theorem does_begin (n : Nat) :
    w.Does checks (w.pausingAt checks initial n (w.nth checks n).start)
      (w.checkingAt checks initial n (w.nth checks n).start) :=
  Does.begins (Cancellation.isFired_never _) (due_le_start n)

theorem does_wait {n t : Nat} (early : t < (w.nth checks n).finish) :
    w.Does checks (w.checkingAt checks initial n t) (w.checkingAt checks initial n (t + 1)) := by
  obtain ⟨pending, before⟩ := lt_finish_iff.1 early
  refine Does.waits (Cancellation.isFired_never t) ?_ before
  rwa [upTo_length]

theorem does_conclude (n : Nat) :
    w.Does checks (w.checkingAt checks initial n (w.nth checks n).finish)
      (w.pausingAt checks initial (n + 1) (w.freeAt checks (n + 1))) := by
  unfold pausingAt
  rw [set_shown, nth_due_succ, upTo_succ]
  rcases responds_or_silent (w := w) (checks n) with ⟨d, responds⟩ | silent
  · obtain ⟨finish, ready⟩ := nth_of_responds responds
    refine Does.answered (d := d) (Cancellation.isFired_never _) ?_ (Nat.le_of_eq finish.symm) ?_
    · rw [upTo_length]
      exact responds.1
    · rw [upTo_length, ← ready]
      exact nth_eta n
  · obtain ⟨finish, ready⟩ := nth_of_silent silent
    refine Does.givesUp (Cancellation.isFired_never _) ?_ (Nat.le_of_eq finish.symm) ?_
    · intro d takes
      rw [upTo_length] at takes
      have late : ¬ d ≤ w.limit := fun within => silent d ⟨takes, within⟩
      omega
    · rw [upTo_length, ← ready]
      exact nth_eta n

theorem reaches_pausingAt {n t : Nat}
    (opens : w.Reaches checks initial (w.pausingAt checks initial n (w.freeAt checks n)))
    (from_ : w.freeAt checks n ≤ t) (early : t ≤ (w.nth checks n).start) :
    w.Reaches checks initial (w.pausingAt checks initial n t) := by
  induction t, from_ using Nat.le_induction with
  | base => exact opens
  | succ t from_ ih => exact (ih (Nat.le_of_succ_le early)).tail (.own (does_pause from_ early))

theorem reaches_checkingAt {n t : Nat}
    (opens : w.Reaches checks initial (w.pausingAt checks initial n (w.freeAt checks n)))
    (from_ : (w.nth checks n).start ≤ t) (early : t ≤ (w.nth checks n).finish) :
    w.Reaches checks initial (w.checkingAt checks initial n t) := by
  induction t, from_ using Nat.le_induction with
  | base =>
      have paused := reaches_pausingAt opens (freeAt_le_start n) (Nat.le_refl _)
      exact paused.tail (.own (does_begin n))
  | succ t _ ih => exact (ih (Nat.le_of_succ_le early)).tail (.own (does_wait early))

theorem reaches_opens (n : Nat) :
    w.Reaches checks initial (w.pausingAt checks initial n (w.freeAt checks n)) := by
  induction n with
  | zero =>
      rw [freeAt, pausingAt, ← start_eq]
      exact .refl
  | succ n ih =>
      have ends := reaches_checkingAt ih (start_le_finish n) (Nat.le_refl _)
      exact ends.tail (.own (does_conclude n))

variable (initial) in
/-- While a round is open the watch has shown the rounds before it. -/
theorem reaches_open {n t : Nat} (from_ : w.freeAt checks n ≤ t)
    (early : t ≤ (w.nth checks n).finish) :
    ∃ phase, phase ≠ .ended ∧
      w.Reaches checks initial
        ⟨t, .never, shown initial (w.upTo checks n), phase, w.upTo checks n⟩ ∧
      (t < (w.nth checks n).finish → w.AtRest checks
        ⟨t, .never, shown initial (w.upTo checks n), phase, w.upTo checks n⟩) := by
  rcases Nat.lt_or_ge t (w.nth checks n).start with before | begun
  · exact ⟨.pausing _, by simp, reaches_pausingAt (reaches_opens n) from_ (Nat.le_of_lt before),
      fun _ => ⟨_, does_pause from_ before, rfl⟩⟩
  · exact ⟨.checking _ _, by simp, reaches_checkingAt (reaches_opens n) begun early,
      fun open_ => ⟨_, does_wait open_, rfl⟩⟩

theorem exists_resting (positive : 0 < w.interval) (t : Nat) :
    ∃ p, w.Reaches checks initial p ∧ p.now = t ∧ p.token = .never ∧ w.AtRest checks p := by
  obtain ⟨n, ended, open_⟩ := exists_open checks positive (t + 1)
  have from_ : w.freeAt checks n ≤ t := freeAt_le fun i before => Nat.le_of_lt_succ (ended i before)
  obtain ⟨phase, -, reached, rest⟩ := reaches_open initial from_ (Nat.le_of_lt open_)
  exact ⟨_, reached, rfl, rfl, rest open_⟩

/-- A cancellation may go before all else that happens at its time. -/
theorem exists_stopped (positive : 0 < w.interval) {stop t : Nat} (le : stop ≤ t) :
    ∃ p, w.Reaches checks initial p ∧ p.now = t ∧ p.token = .firingAt stop ∧
      ∀ r ∈ p.done, r.finish < stop := by
  obtain ⟨n, ended, open_⟩ := exists_open checks positive stop
  have from_ : w.freeAt checks n ≤ stop := freeAt_le fun i before => Nat.le_of_lt (ended i before)
  obtain ⟨phase, on, reached, -⟩ := reaches_open initial from_ open_
  have stopped : w.Reaches checks initial
      ⟨stop, .firingAt stop, shown initial (w.upTo checks n), .ended, w.upTo checks n⟩ := by
    have cancelled := reached.tail Step.cancelled
    refine cancelled.tail (.own (.stops ?_ on))
    simp [Cancellation.cancel, Cancellation.never, Cancellation.isFired]
  have rests : w.Reaches checks initial
      ⟨t, .firingAt stop, shown initial (w.upTo checks n), .ended, w.upTo checks n⟩ := by
    induction t, le using Nat.le_induction with
    | base => exact stopped
    | succ t _ ih => exact ih.tail (.own .rests)
  refine ⟨_, rests, rfl, rfl, ?_⟩
  intro r mem
  obtain ⟨i, before, rfl⟩ := List.mem_map.1 mem
  exact ended i (List.mem_range.1 before)

/-- At every moment of a watch the flag shows the last check that has ended, and there is a moment
at every time. -/
theorem watch_shows_last (w : Watch) (checks : Nat → Check) (initial : Flag)
    (positive : 0 < w.interval) :
    (∀ p, w.Reaches checks initial p → w.ShowsLast checks initial p) ∧
      (∀ t, ∃ p, w.Reaches checks initial p ∧ p.now = t ∧ p.token = .never ∧
        w.AtRest checks p) ∧
      ∀ stop t, stop ≤ t → ∃ p, w.Reaches checks initial p ∧ p.now = t ∧
        p.token = .firingAt stop ∧ ∀ r ∈ p.done, r.finish < stop :=
  ⟨fun _ reached => showsLast_of_stands positive (stands_of_reaches reached),
    exists_resting positive, fun _ _ => exists_stopped positive⟩

/-- A check that serves, one that hangs, and one that would answer too late for the run. -/
def flapping : Nat → Check
  | 0 => ⟨some 3, true⟩
  | 1 => ⟨none, true⟩
  | _ => ⟨some 5, true⟩

theorem watch_shows_last_flapping :
    ∃ p, Reaches ⟨10, 5⟩ flapping .initial p ∧ p.now = 30 ∧ p.token = .firingAt 23 ∧
      p.flag = ⟨false⟩ ∧ ShowsLast ⟨10, 5⟩ flapping .initial p := by
  obtain ⟨shows, -, stopped⟩ := watch_shows_last ⟨10, 5⟩ flapping .initial (by decide)
  obtain ⟨p, reached, now, token, before⟩ := stopped 23 30 (by decide)
  refine ⟨p, reached, now, token, ?_, shows p reached⟩
  have fires : p.token.firesAt = some 23 := by rw [token]; rfl
  obtain ⟨rounds, rounds_eq, shown⟩ := (shows p reached).stopped 23 fires before
  obtain rfl := Except.ok.inj (rounds_eq.symm.trans rfl)
  rw [shown, now]
  rfl

end StoreWarden.Readiness.Watch
