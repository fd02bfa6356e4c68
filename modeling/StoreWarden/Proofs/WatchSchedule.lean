import Mathlib.Data.List.Basic
import Mathlib.Data.Nat.Find
import StoreWarden.Readiness.Watch

/-!
# The schedule of a watch

A watch that nobody ends goes on for ever, `nth`: every check begins when it is due or when the one
before it has ended, whichever is later, and is due later than that.  The rounds of a watch that is
ended are those of the schedule that begin in time, and the flag at any time is that of the last
round that has ended by then.
-/

set_option autoImplicit false

namespace StoreWarden.Readiness

def shown (initial : Flag) (rounds : List Round) : Flag :=
  ⟨(rounds.getLast?.map (·.ready)).getD initial.isReady⟩

theorem shown_concat (initial : Flag) (rounds : List Round) (r : Round) :
    shown initial (rounds ++ [r]) = ⟨r.ready⟩ := by
  simp [shown]

theorem foldl_set (initial : Flag) (rounds : List Round) :
    (rounds.map fun r => (r.finish, r.ready)).foldl (fun f w => (f.set w.2).1) initial =
      shown initial rounds := by
  induction rounds generalizing initial with
  | nil => rfl
  | cons r rest ih =>
      rw [List.map_cons, List.foldl_cons, ih]
      cases rest <;> rfl

namespace Watch

variable (w : Watch) (checks : Nat → Check)

def nth : Nat → Round
  | 0 => w.first checks
  | n + 1 => w.next checks (nth n)

/-- When the rounds before this one have ended. -/
def freeAt : Nat → Nat
  | 0 => 0
  | n + 1 => (w.nth checks n).finish

def upTo (n : Nat) : List Round := (List.range n).map (w.nth checks)

variable {w checks} {n : Nat}

theorem upTo_length (n : Nat) : (w.upTo checks n).length = n := by
  rw [upTo, List.length_map, List.length_range]

theorem upTo_succ (n : Nat) :
    w.upTo checks (n + 1) = w.upTo checks n ++ [w.nth checks n] := by
  rw [upTo, List.range_succ, List.map_append]
  rfl

/-! ## One round -/

variable (w checks) in
theorem round_eq (number due free : Nat) : ∃ finish ready,
    w.round checks number due free = ⟨number, due, max due free, finish, ready⟩ := by
  unfold round
  split
  · split <;> exact ⟨_, _, rfl⟩
  · exact ⟨_, _, rfl⟩

theorem nth_due_succ (n : Nat) :
    (w.nth checks (n + 1)).due = w.dueAfter (w.nth checks n) := by
  obtain ⟨_, _, eq⟩ := round_eq w checks ((w.nth checks n).number + 1)
    (w.dueAfter (w.nth checks n)) (w.nth checks n).finish
  exact congrArg Round.due eq

theorem nth_zero_due : (w.nth checks 0).due = 0 := by
  obtain ⟨_, _, eq⟩ := round_eq w checks 0 0 0
  exact congrArg Round.due eq

theorem nth_eq_round (n : Nat) :
    w.nth checks n = w.round checks n (w.nth checks n).due (w.freeAt checks n) := by
  induction n with
  | zero =>
      rw [nth_zero_due]
      rfl
  | succ n ih =>
      obtain ⟨_, _, eq⟩ := round_eq w checks n (w.nth checks n).due
        (w.freeAt checks n)
      have number : (w.nth checks n).number = n := by rw [ih, eq]
      rw [nth_due_succ]
      simp only [nth, next, freeAt, number]

theorem nth_number (n : Nat) : (w.nth checks n).number = n := by
  obtain ⟨_, _, eq⟩ := round_eq w checks n (w.nth checks n).due
    (w.freeAt checks n)
  rw [nth_eq_round, eq]

theorem nth_start (n : Nat) :
    (w.nth checks n).start = max (w.nth checks n).due (w.freeAt checks n) := by
  obtain ⟨_, _, eq⟩ := round_eq w checks n (w.nth checks n).due
    (w.freeAt checks n)
  conv_lhs => rw [nth_eq_round, eq]

/-- Whether a check answers in time, and after how long. -/
def Responds (w : Watch) (c : Check) (d : Nat) : Prop := c.takes = some d ∧ d ≤ w.limit

theorem nth_of_responds {d : Nat} (responds : w.Responds (checks n) d) :
    (w.nth checks n).finish = (w.nth checks n).start + d ∧
      (w.nth checks n).ready = (checks n).serves := by
  rw [nth_eq_round]
  simp only [round, responds.1, if_pos responds.2, and_self]

theorem nth_of_silent (silent : ∀ d, ¬ w.Responds (checks n) d) :
    (w.nth checks n).finish = (w.nth checks n).start + w.limit ∧
      (w.nth checks n).ready = false := by
  rw [nth_eq_round]
  unfold round
  cases takes : (checks n).takes with
  | none => exact ⟨rfl, rfl⟩
  | some d =>
      have late : ¬ d ≤ w.limit := fun early => silent d ⟨takes, early⟩
      simp only [if_neg late, and_self]

theorem responds_or_silent (c : Check) : (∃ d, w.Responds c d) ∨ ∀ d, ¬ w.Responds c d := by
  rw [← not_exists]
  exact Classical.em _

theorem nth_eta (n : Nat) :
    w.nth checks n = ⟨n, (w.nth checks n).due, (w.nth checks n).start, (w.nth checks n).finish,
      (w.nth checks n).ready⟩ := by
  have number : (w.nth checks n).number = n := nth_number n
  revert number
  cases w.nth checks n
  rintro rfl
  rfl

theorem lt_finish_iff {now : Nat} : now < (w.nth checks n).finish ↔
    (∀ d ∈ (checks n).takes, now < (w.nth checks n).start + d) ∧
      now < (w.nth checks n).start + w.limit := by
  rcases responds_or_silent (w := w) (checks n) with ⟨d, responds⟩ | silent
  · have within := responds.2
    rw [(nth_of_responds responds).1]
    constructor
    · intro before
      refine ⟨?_, by omega⟩
      intro e takes
      obtain rfl := Option.some.inj (responds.1.symm.trans takes)
      exact before
    · exact fun pending => pending.1 d responds.1
  · rw [(nth_of_silent silent).1]
    constructor
    · intro before
      refine ⟨?_, before⟩
      intro d takes
      have late : ¬ d ≤ w.limit := fun within => silent d ⟨takes, within⟩
      omega
    · exact fun pending => pending.2

/-- An answer that is there in time ends the round. -/
theorem responds_of_takes {d : Nat} (takes : (checks n).takes = some d)
    (early : (w.nth checks n).start + d ≤ (w.nth checks n).finish) :
    w.Responds (checks n) d := by
  rcases responds_or_silent (w := w) (checks n) with ⟨e, responds⟩ | silent
  · obtain rfl := Option.some.inj (responds.1.symm.trans takes)
    exact responds
  · rw [(nth_of_silent silent).1] at early
    exact ⟨takes, Nat.le_of_add_le_add_left early⟩

theorem ready_iff : (w.nth checks n).ready = true ↔
    ∃ d, w.Responds (checks n) d ∧ (checks n).serves = true := by
  rcases responds_or_silent (w := w) (checks n) with ⟨d, responds⟩ | silent
  · rw [(nth_of_responds responds).2]
    exact ⟨fun serves => ⟨d, responds, serves⟩, fun ⟨_, _, serves⟩ => serves⟩
  · rw [(nth_of_silent silent).2]
    exact iff_of_false (by simp) fun ⟨d, responds, _⟩ => silent d responds

/-! ## The order of rounds -/

theorem start_le_finish (n : Nat) : (w.nth checks n).start ≤ (w.nth checks n).finish := by
  rcases responds_or_silent (w := w) (checks n) with ⟨d, responds⟩ | silent
  · rw [(nth_of_responds responds).1]
    exact Nat.le_add_right _ _
  · rw [(nth_of_silent silent).1]
    exact Nat.le_add_right _ _

theorem freeAt_le_start (n : Nat) : w.freeAt checks n ≤ (w.nth checks n).start := by
  rw [nth_start]
  exact Nat.le_max_right _ _

theorem due_le_start (n : Nat) : (w.nth checks n).due ≤ (w.nth checks n).start := by
  rw [nth_start]
  exact Nat.le_max_left _ _

theorem finish_le_succ (n : Nat) : (w.nth checks n).finish ≤ (w.nth checks (n + 1)).finish :=
  Nat.le_trans (freeAt_le_start (n + 1)) (start_le_finish (n + 1))

theorem finish_mono {i : Nat} (le : i ≤ n) : (w.nth checks i).finish ≤ (w.nth checks n).finish := by
  induction n with
  | zero =>
      obtain rfl := Nat.le_zero.1 le
      exact Nat.le_refl _
  | succ n ih =>
      rcases Nat.lt_or_eq_of_le le with before | rfl
      · exact Nat.le_trans (ih (Nat.le_of_lt_succ before)) (finish_le_succ n)
      · exact Nat.le_refl _

theorem finish_le_freeAt {i : Nat} (before : i < n) :
    (w.nth checks i).finish ≤ w.freeAt checks n := by
  cases n with
  | zero => cases before
  | succ n => exact finish_mono (Nat.le_of_lt_succ before)

theorem freeAt_le {t : Nat} (ended : ∀ i < n, (w.nth checks i).finish ≤ t) :
    w.freeAt checks n ≤ t := by
  cases n with
  | zero => exact Nat.zero_le t
  | succ n => exact ended n (Nat.lt_succ_self n)

/-- A watch with a pace gets to every number of rounds only in time. -/
theorem le_due (positive : 0 < w.interval) (n : Nat) : n ≤ (w.nth checks n).due := by
  induction n with
  | zero => exact Nat.zero_le _
  | succ n ih =>
      have later : (w.nth checks n).due ≤ (w.nth checks n).start := due_le_start n
      rw [nth_due_succ, dueAfter]
      split <;> omega

theorem le_start (positive : 0 < w.interval) (n : Nat) : n ≤ (w.nth checks n).start :=
  Nat.le_trans (le_due positive n) (due_le_start n)

variable (checks) in
/-- One round is open at every time. -/
theorem exists_open (positive : 0 < w.interval) (t : Nat) :
    ∃ n, (∀ i < n, (w.nth checks i).finish < t) ∧ t ≤ (w.nth checks n).finish := by
  have late : ∃ n, t ≤ (w.nth checks n).finish :=
    ⟨t, Nat.le_trans (le_start positive t) (start_le_finish t)⟩
  refine ⟨Nat.find late, ?_, Nat.find_spec late⟩
  intro i before
  exact Nat.lt_of_not_le (Nat.find_min late before)

/-! ## Rounds that begin in time -/

variable (w checks) in
theorem roundsFrom_nth (stop count : Nat) : ∀ n, ∃ k,
    w.roundsFrom checks stop count (w.nth checks n) = (List.range' n k).map (w.nth checks) ∧
      (stop ≤ (w.nth checks (n + k)).start ∨ k = count) := by
  induction count with
  | zero => exact fun n => ⟨0, rfl, Or.inr rfl⟩
  | succ count ih =>
      intro n
      by_cases begins : (w.nth checks n).start < stop
      · obtain ⟨k, rounds, last⟩ := ih (n + 1)
        refine ⟨k + 1, ?_, ?_⟩
        · simp only [roundsFrom, if_pos begins, List.range'_succ, List.map_cons]
          exact congrArg _ rounds
        · rw [Nat.add_right_comm, Nat.add_assoc] at last
          exact last.imp_right (congrArg (· + 1))
      · refine ⟨0, ?_, Or.inl (Nat.le_of_not_lt begins)⟩
        simp only [roundsFrom, if_neg begins, List.range'_zero, List.map_nil]

variable (checks) in
theorem rounds_eq_upTo (positive : 0 < w.interval) (stop : Nat) :
    ∃ n, w.rounds checks stop = .ok (w.upTo checks n) ∧ stop ≤ (w.nth checks n).start := by
  obtain ⟨n, rounds, last⟩ := roundsFrom_nth w checks stop stop 0
  rw [Nat.zero_add] at last
  refine ⟨n, ?_, ?_⟩
  · unfold Watch.rounds upTo
    rw [if_neg (Nat.ne_of_gt positive), List.range_eq_range', ← rounds]
    rfl
  · rcases last with late | rfl
    · exact late
    · exact le_start positive n

/-- The flag at time `t` is that of the rounds which have ended by then and before the stop. -/
theorem flagAt_eq_shown (positive : 0 < w.interval) {initial : Flag} {rounds : List Round}
    {stop t : Nat} (rounds_eq : w.rounds checks stop = .ok rounds)
    (ended : ∀ i < n, (w.nth checks i).finish < stop ∧ (w.nth checks i).finish ≤ t)
    (open_ : stop ≤ (w.nth checks n).finish ∨ t < (w.nth checks n).finish) :
    flagAt initial rounds stop t = shown initial (w.upTo checks n) := by
  obtain ⟨total, same, late⟩ := rounds_eq_upTo checks positive stop
  obtain rfl := Except.ok.inj (rounds_eq.symm.trans same)
  -- a round that has ended in time has also begun in time
  have few : n ≤ total := by
    by_contra more
    have past := (ended total (Nat.lt_of_not_le more)).1
    have begun : (w.nth checks total).start ≤ (w.nth checks total).finish := start_le_finish total
    omega
  obtain ⟨rest, rfl⟩ := Nat.exists_eq_add_of_le few
  have kept : ((w.upTo checks (n + rest)).filter fun r => r.finish < stop).filter
      (fun r => r.finish ≤ t) = w.upTo checks n := by
    rw [List.filter_filter, upTo, List.range_add, List.map_append, List.filter_append]
    have first : ((List.range n).map (w.nth checks)).filter
        (fun r => decide (r.finish ≤ t) && decide (r.finish < stop)) =
          (List.range n).map (w.nth checks) := by
      apply List.filter_eq_self.2
      intro r mem
      obtain ⟨i, before, rfl⟩ := List.mem_map.1 mem
      obtain ⟨early, past⟩ := ended i (List.mem_range.1 before)
      simp [early, past]
    have second : (((List.range rest).map (n + ·)).map (w.nth checks)).filter
        (fun r => decide (r.finish ≤ t) && decide (r.finish < stop)) = [] := by
      apply List.filter_eq_nil_iff.2
      intro r mem
      obtain ⟨_, numbered, rfl⟩ := List.mem_map.1 mem
      obtain ⟨i, -, rfl⟩ := List.mem_map.1 numbered
      have later : (w.nth checks n).finish ≤ (w.nth checks (n + i)).finish :=
        finish_mono (Nat.le_add_right n i)
      simp only [Bool.and_eq_true, decide_eq_true_eq]
      omega
    rw [first, second, List.append_nil]
    rfl
  unfold flagAt writes
  rw [List.filter_map]
  change List.foldl _ _ (List.map _ (List.filter (fun r : Round => decide (r.finish ≤ t)) _)) = _
  rw [kept]
  exact foldl_set initial _

end Watch

end StoreWarden.Readiness
