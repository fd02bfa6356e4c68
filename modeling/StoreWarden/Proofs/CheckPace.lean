import StoreWarden.Proofs.WatchedFlag

/-!
# The pace of a watch

A check may hold up the one after it, and what is held up by more than the tolerance sets the pace
anew.  Time that is lost is never made up for: between any two checks there lies as much as the pace
asks for, but for one tolerance, however many checks are between them.  Nor is more than the longer
of the pace and the limit of a check ever added.
-/

set_option autoImplicit false

namespace StoreWarden.Readiness.Watch

/-- Times at which checks began, and the rounds of those that have ended. -/
structure Paced (w : Watch) (begun : List Nat) (ended : List Round) : Prop where
  first : ∀ s ∈ begun.head?, s = 0
  same : ended.map (·.start) <+: begun
  /-- There is no burst, over any number of checks. -/
  apart : ∀ i k s t, begun[i]? = some s → begun[i + k]? = some t →
    s + k * w.interval ≤ t + tolerance
  near : ∀ i k s t, begun[i]? = some s → begun[i + k]? = some t →
    t ≤ s + k * max w.interval w.limit
  /-- A check has ended when another one begins. -/
  alone : ∀ (i j : Nat) (r : Round) t, i < j → ended[i]? = some r → begun[j]? = some t →
    r.finish ≤ t
  limited : ∀ r ∈ ended, r.start ≤ r.finish ∧ r.finish ≤ r.start + w.limit
  updates : ∀ i (r next : Round), ended[i]? = some r → ended[i + 1]? = some next →
    r.finish ≤ next.finish ∧ next.finish ≤ r.finish + (w.interval + w.limit)

/-- When checks began: those that have ended, and the one that is going. -/
def Point.begun (p : Point) : List Nat :=
  p.done.map (·.start) ++
    match p.phase with
    | .checking _ start => [start]
    | _ => []

structure KeepsPace (w : Watch) (checks : Nat → Check) (p : Point) : Prop where
  paced : w.Paced p.begun p.done
  one : p.begun.length ≤ p.done.length + 1
  goes : p.token.firesAt = none → p.phase ≠ .ended
  atOnce : p.phase ≠ .ended → p.begun = [] → p.now = 0
  /-- The next check is not put off. -/
  goesOn : p.phase ≠ .ended → ∀ s ∈ p.begun.getLast?, p.now ≤ s + max w.interval w.limit
  shown : p.phase ≠ .ended → p.done = [] → p.now ≤ w.limit
  fresh : p.phase ≠ .ended → ∀ r ∈ p.done.getLast?, p.now ≤ r.finish + (w.interval + w.limit)
  /-- A check begins when it is recorded to, and when one ends the flag is set. -/
  recorded : ∀ q, w.Does checks p q → q.phase ≠ .ended →
    (q.begun = p.begun ∨ q.begun = p.begun ++ [p.now]) ∧
      ((q.done = p.done ∧ q.flag = p.flag) ∨
        ∃ r : Round, r.finish = p.now ∧ q.done = p.done ++ [r] ∧ q.flag = ⟨r.ready⟩)

/-- A watch begins every check that it can begin before its end. -/
structure Persists (w : Watch) (stop : Nat) (rounds : List Round) : Prop where
  paced : w.Paced (rounds.map (·.start)) rounds
  begins : rounds = [] → stop = 0
  goesOn : ∀ r ∈ rounds.getLast?, stop ≤ r.start + max w.interval w.limit

variable {w : Watch} {checks : Nat → Check} {initial : Flag} {n : Nat}

/-! ## From one check to the next -/

theorem due_add_le_succ (n : Nat) :
    (w.nth checks n).due + w.interval ≤ (w.nth checks (n + 1)).due := by
  have begins : (w.nth checks n).due ≤ (w.nth checks n).start := due_le_start n
  rw [nth_due_succ, dueAfter]
  split <;> omega

theorem start_add_le_due_succ (n : Nat) :
    (w.nth checks n).start + w.interval ≤ (w.nth checks (n + 1)).due + tolerance := by
  rw [nth_due_succ, dueAfter]
  split <;> omega

theorem due_succ_le (n : Nat) :
    (w.nth checks (n + 1)).due ≤ (w.nth checks n).start + w.interval := by
  have begins : (w.nth checks n).due ≤ (w.nth checks n).start := due_le_start n
  rw [nth_due_succ, dueAfter]
  split <;> omega

theorem finish_le_add (n : Nat) :
    (w.nth checks n).finish ≤ (w.nth checks n).start + w.limit := by
  rcases responds_or_silent (w := w) (checks n) with ⟨d, responds⟩ | silent
  · rw [(nth_of_responds responds).1]
    exact Nat.add_le_add_left responds.2 _
  · exact Nat.le_of_eq (nth_of_silent silent).1

theorem start_succ_le (n : Nat) :
    (w.nth checks (n + 1)).start ≤ (w.nth checks n).start + max w.interval w.limit := by
  have due : (w.nth checks (n + 1)).due ≤ (w.nth checks n).start + w.interval := due_succ_le n
  have free : (w.nth checks n).finish ≤ (w.nth checks n).start + w.limit := finish_le_add n
  rw [nth_start, freeAt]
  omega

theorem start_succ_le_finish_add (n : Nat) :
    (w.nth checks (n + 1)).start ≤ (w.nth checks n).finish + w.interval := by
  have due : (w.nth checks (n + 1)).due ≤ (w.nth checks n).start + w.interval := due_succ_le n
  have ends : (w.nth checks n).start ≤ (w.nth checks n).finish := start_le_finish n
  rw [nth_start, freeAt]
  omega

theorem finish_succ_le (n : Nat) :
    (w.nth checks (n + 1)).finish ≤ (w.nth checks n).finish + (w.interval + w.limit) := by
  have ends : (w.nth checks (n + 1)).finish ≤ (w.nth checks (n + 1)).start + w.limit :=
    finish_le_add (n + 1)
  have begins : (w.nth checks (n + 1)).start ≤ (w.nth checks n).finish + w.interval :=
    start_succ_le_finish_add n
  omega

/-! ## From one check to any later one -/

theorem due_add_mul_le (i k : Nat) :
    (w.nth checks i).due + k * w.interval ≤ (w.nth checks (i + k)).due := by
  induction k with
  | zero => simp
  | succ k ih =>
      have step : (w.nth checks (i + k)).due + w.interval ≤ (w.nth checks (i + k + 1)).due :=
        due_add_le_succ (i + k)
      rw [Nat.succ_mul, ← Nat.add_assoc i k 1]
      omega

/-- Only the first of the checks may have been late, as those after it are due by its beginning. -/
theorem start_add_mul_le (i k : Nat) :
    (w.nth checks i).start + k * w.interval ≤ (w.nth checks (i + k)).start + tolerance := by
  cases k with
  | zero => simp
  | succ k =>
      have first : (w.nth checks i).start + w.interval ≤ (w.nth checks (i + 1)).due + tolerance :=
        start_add_le_due_succ i
      have rest : (w.nth checks (i + 1)).due + k * w.interval ≤ (w.nth checks (i + 1 + k)).due :=
        due_add_mul_le (i + 1) k
      have begins : (w.nth checks (i + 1 + k)).due ≤ (w.nth checks (i + 1 + k)).start :=
        due_le_start _
      rw [Nat.succ_mul, Nat.add_comm k 1, ← Nat.add_assoc i 1 k]
      omega

theorem start_le_add_mul (i k : Nat) :
    (w.nth checks (i + k)).start ≤ (w.nth checks i).start + k * max w.interval w.limit := by
  induction k with
  | zero => simp
  | succ k ih =>
      have step : (w.nth checks (i + k + 1)).start ≤
          (w.nth checks (i + k)).start + max w.interval w.limit := start_succ_le (i + k)
      rw [Nat.succ_mul, ← Nat.add_assoc i k 1]
      omega

/-! ## All checks that have begun -/

theorem upTo_getElem? {i : Nat} {r : Round} :
    (w.upTo checks n)[i]? = some r ↔ i < n ∧ w.nth checks i = r := by
  rw [upTo, List.getElem?_map, Option.map_eq_some_iff]
  constructor
  · rintro ⟨j, at_, rfl⟩
    obtain ⟨before, rfl⟩ := List.getElem?_eq_some_iff.1 at_
    rw [List.length_range] at before
    rw [List.getElem_range]
    exact ⟨before, rfl⟩
  · rintro ⟨before, rfl⟩
    exact ⟨i, List.getElem?_range before, rfl⟩

theorem starts_getElem? {i s : Nat} :
    ((w.upTo checks n).map (·.start))[i]? = some s ↔ i < n ∧ (w.nth checks i).start = s := by
  rw [List.getElem?_map, Option.map_eq_some_iff]
  constructor
  · rintro ⟨r, at_, rfl⟩
    obtain ⟨before, rfl⟩ := upTo_getElem?.1 at_
    exact ⟨before, rfl⟩
  · rintro ⟨before, rfl⟩
    exact ⟨_, upTo_getElem?.2 ⟨before, rfl⟩, rfl⟩

theorem exists_of_upTo_getLast? {r : Round} (last : (w.upTo checks n).getLast? = some r) :
    ∃ k, n = k + 1 ∧ w.nth checks k = r := by
  cases n with
  | zero => cases last
  | succ k =>
      rw [upTo_succ, List.getLast?_concat] at last
      exact ⟨k, rfl, Option.some.inj last⟩

theorem eq_zero_of_upTo (none' : w.upTo checks n = []) : n = 0 := by
  rw [← @upTo_length w checks n, none']
  rfl

theorem nth_zero_start : (w.nth checks 0).start = 0 := by
  rw [nth_start, nth_zero_due]
  rfl

theorem upTo_of_le {m : Nat} (le : n ≤ m) : w.upTo checks n <+: w.upTo checks m := by
  obtain ⟨k, rfl⟩ := Nat.exists_eq_add_of_le le
  rw [upTo, upTo, List.range_add, List.map_append]
  exact List.prefix_append _ _

theorem paced_upTo {m : Nat} (le : n ≤ m) :
    w.Paced ((w.upTo checks m).map (·.start)) (w.upTo checks n) := by
  constructor
  case first =>
    intro s first
    rw [Option.mem_def, List.head?_eq_getElem?, starts_getElem?] at first
    obtain ⟨-, rfl⟩ := first
    exact nth_zero_start
  case same => exact (upTo_of_le le).map _
  case apart =>
    intro i k s t first last
    obtain ⟨-, rfl⟩ := starts_getElem?.1 first
    obtain ⟨-, rfl⟩ := starts_getElem?.1 last
    exact start_add_mul_le i k
  case near =>
    intro i k s t first last
    obtain ⟨-, rfl⟩ := starts_getElem?.1 first
    obtain ⟨-, rfl⟩ := starts_getElem?.1 last
    exact start_le_add_mul i k
  case alone =>
    intro i j r t before ended begun
    obtain ⟨-, rfl⟩ := upTo_getElem?.1 ended
    obtain ⟨-, rfl⟩ := starts_getElem?.1 begun
    exact Nat.le_trans (finish_le_freeAt before) (freeAt_le_start j)
  case limited =>
    intro r mem
    obtain ⟨i, -, rfl⟩ := List.mem_map.1 mem
    exact ⟨start_le_finish i, finish_le_add i⟩
  case updates =>
    intro i r next first second
    obtain ⟨-, rfl⟩ := upTo_getElem?.1 first
    obtain ⟨-, rfl⟩ := upTo_getElem?.1 second
    exact ⟨finish_le_succ i, finish_succ_le i⟩

/-- Of the checks that have begun no more than the last is still going, and it is not over yet, nor
is the next one overdue. -/
theorem begun_of_stands {p : Point} (stands : w.Stands checks initial p) :
    ∃ n m, p.done = w.upTo checks n ∧ p.begun = (w.upTo checks m).map (·.start) ∧
      n ≤ m ∧ m ≤ n + 1 ∧ (p.phase ≠ .ended →
        p.now ≤ (w.nth checks n).finish ∧ p.now ≤ (w.nth checks m).start) := by
  cases stands with
  | @pausing now n token from_ early fresh =>
      refine ⟨n, n, rfl, List.append_nil _, Nat.le_refl n, Nat.le_succ n, fun _ => ⟨?_, early⟩⟩
      exact Nat.le_trans early (start_le_finish n)
  | @checking now n token from_ early fresh =>
      refine ⟨n, n + 1, rfl, ?_, Nat.le_succ n, Nat.le_refl _, fun _ => ⟨early, ?_⟩⟩
      · rw [upTo_succ, List.map_append]
        rfl
      · exact Nat.le_trans early (freeAt_le_start (n + 1))
  | @ended now n f token fires past ended open_ =>
      exact ⟨n, n, rfl, List.append_nil _, Nat.le_refl n, Nat.le_succ n, fun on => absurd rfl on⟩

theorem recorded_of_does {p q : Point} (does : w.Does checks p q) (on : q.phase ≠ .ended) :
    (q.begun = p.begun ∨ q.begun = p.begun ++ [p.now]) ∧
      ((q.done = p.done ∧ q.flag = p.flag) ∨
        ∃ r : Round, r.finish = p.now ∧ q.done = p.done ++ [r] ∧ q.flag = ⟨r.ready⟩) := by
  cases does with
  | stops | rests => exact absurd rfl on
  | begins =>
      refine ⟨Or.inr ?_, Or.inl ⟨rfl, rfl⟩⟩
      simp [Point.begun]
  | pauses | waits => exact ⟨Or.inl rfl, Or.inl ⟨rfl, rfl⟩⟩
  | answered _ _ _ round | givesUp _ _ _ round =>
      refine ⟨Or.inl ?_, Or.inr ⟨_, ?_, rfl, rfl⟩⟩
      · simp [Point.begun, round]
      · rw [round]

theorem keepsPace_of_stands {p : Point} (stands : w.Stands checks initial p) :
    w.KeepsPace checks p := by
  obtain ⟨n, m, done, begun, le, le_succ, open_⟩ := begun_of_stands stands
  constructor
  case paced =>
    rw [done, begun]
    exact paced_upTo le
  case one =>
    rw [done, begun, List.length_map, upTo_length, upTo_length]
    exact le_succ
  case goes =>
    cases stands with
    | pausing | checking => simp
    | ended fires => exact fun never => absurd (fires.symm.trans never) (by simp)
  case atOnce =>
    intro on none'
    rw [begun, List.map_eq_nil_iff] at none'
    obtain rfl := eq_zero_of_upTo none'
    exact Nat.le_zero.1 (Nat.le_trans (open_ on).2 (Nat.le_of_eq nth_zero_start))
  case goesOn =>
    intro on s last
    rw [begun, Option.mem_def, List.getLast?_map, Option.map_eq_some_iff] at last
    obtain ⟨r, last, rfl⟩ := last
    obtain ⟨k, rfl, rfl⟩ := exists_of_upTo_getLast? last
    exact Nat.le_trans (open_ on).2 (start_succ_le k)
  case shown =>
    intro on none'
    obtain rfl := eq_zero_of_upTo (done.symm.trans none')
    have ends : (w.nth checks 0).finish ≤ (w.nth checks 0).start + w.limit := finish_le_add 0
    rw [nth_zero_start, Nat.zero_add] at ends
    exact Nat.le_trans (open_ on).1 ends
  case fresh =>
    intro on r last
    rw [done] at last
    obtain ⟨k, rfl, rfl⟩ := exists_of_upTo_getLast? last
    exact Nat.le_trans (open_ on).1 (finish_succ_le k)
  case recorded => exact fun q => recorded_of_does

variable (checks) in
theorem exists_rounds (positive : 0 < w.interval) (stop : Nat) :
    ∃ rounds, w.rounds checks stop = .ok rounds ∧ w.Persists stop rounds := by
  obtain ⟨n, rounds_eq, late⟩ := rounds_eq_upTo checks positive stop
  refine ⟨_, rounds_eq, ⟨paced_upTo (Nat.le_refl n), ?_, ?_⟩⟩
  · intro none'
    obtain rfl := eq_zero_of_upTo none'
    exact Nat.le_zero.1 (Nat.le_trans late (Nat.le_of_eq nth_zero_start))
  · intro r last
    obtain ⟨k, rfl, rfl⟩ := exists_of_upTo_getLast? last
    exact Nat.le_trans late (start_succ_le k)

/-- A watch keeps its pace at every moment, and there is a moment at every time. -/
theorem watch_keeps_pace (w : Watch) (checks : Nat → Check) (initial : Flag)
    (positive : 0 < w.interval) :
    (∀ p, w.Reaches checks initial p → w.KeepsPace checks p) ∧
      (∀ t, ∃ p, w.Reaches checks initial p ∧ p.now = t ∧ p.token = .never ∧
        w.AtRest checks p) ∧
      ∀ stop, ∃ rounds, w.rounds checks stop = .ok rounds ∧ w.Persists stop rounds :=
  ⟨fun _ reached => keepsPace_of_stands (stands_of_reaches reached), exists_resting positive,
    exists_rounds checks positive⟩

/-- A check that hangs for longer than the pace puts off the next, and is not made up for. -/
theorem watch_keeps_pace_flapping :
    ∃ rounds, Watch.rounds ⟨10, 25⟩ flapping 50 = .ok rounds ∧
      rounds.map (·.start) = [0, 10, 35, 45] ∧ Persists ⟨10, 25⟩ 50 rounds ∧
        ∃ p, Reaches ⟨10, 25⟩ flapping .initial p ∧ p.now = 30 ∧
          KeepsPace ⟨10, 25⟩ flapping p := by
  obtain ⟨keeps, rests, persists⟩ := watch_keeps_pace ⟨10, 25⟩ flapping .initial (by decide)
  obtain ⟨rounds, rounds_eq, paced⟩ := persists 50
  obtain ⟨p, reached, now, -, -⟩ := rests 30
  refine ⟨rounds, rounds_eq, ?_, paced, p, reached, now, keeps p reached⟩
  obtain rfl := Except.ok.inj rounds_eq
  rfl

end StoreWarden.Readiness.Watch
