import StoreWarden.Proofs.RetryAttempts

/-!
# The law of repeated attempts

Whether an attempt is made, and when, is decided by the attempt before it: it comes a whole wait
after that has ended, exactly if attempts are left, the failure is accepted and the cancellation has
not fired by then.  The last attempt decides the result.

`Runs` lists the ways in which repeated attempts can go.  Which of two things that come together is
noticed first does not occur in it: a wait that ends with the cancellation leads to the same moment
and the same result, whichever is seen.
-/

set_option autoImplicit false

namespace StoreWarden

/-! ## Waits that the cancellation may cut short -/

theorem Cancellation.isFired_iff {token : Cancellation} {t : Nat} :
    token.isFired t = true ↔ ∃ c, token.firesAt = some c ∧ c ≤ t := by
  unfold isFired
  cases fires : token.firesAt with
  | none => simp
  | some c => simp

theorem Moment.isCancelled_after {m : Moment} {d : Nat} :
    (m.after d).isCancelled = true ↔ ∃ c, m.token.firesAt = some c ∧ c ≤ m.now + d :=
  Cancellation.isFired_iff

theorem Moment.meets_iff {m last : Moment} :
    m.Meets last ↔ ∃ c, m.token.firesAt = some c ∧ last = m.moveTo (max m.now c) := by
  unfold Meets Cancellation.seenFrom
  constructor
  · rintro ⟨t, seen, rfl⟩
    obtain ⟨c, fires, rfl⟩ := Option.map_eq_some_iff.1 seen
    exact ⟨c, fires, rfl⟩
  · rintro ⟨c, fires, rfl⟩
    exact ⟨_, by rw [fires]; rfl, rfl⟩

theorem Moment.wait_of_free {m : Moment} {d : Nat} (free : (m.after d).isCancelled = false)
    (tie : Bool) : m.wait d tie = (m.after d, .elapsed) := by
  cases waited : m.wait d tie with
  | mk next wake =>
      cases wake with
      | elapsed => rw [after_of_wait_elapsed waited]
      | cancelled =>
          -- a wait is cut short at its end at the latest
          obtain ⟨t, seen, rfl⟩ := moveTo_of_wait_cancelled waited
          have fired := isCancelled_moveTo_seen seen
          have before : t ≤ m.now + d := by
            unfold wait at waited
            simp only [seen] at waited
            split at waited
            · omega
            · split at waited
              · next tied =>
                  simp only [Bool.and_eq_true, decide_eq_true_eq] at tied
                  omega
              · cases waited
          have late := Cancellation.isFired_mono before fired
          exact absurd late (by simpa [isCancelled, after, moveTo] using free)

/-! ## The ways in which attempts can go -/

namespace Retry

variable {α : Type} {r : Retry} {op : Operation α} {left n : Nat} {m idle last : Moment}
  {made : List (Exchange α)} {ending : Ending α}

/-- What at most `left` attempts come to, of which the first has number `n` and is made in `m`. -/
inductive Runs (r : Retry) (op : Operation α) :
    (left n : Nat) → Moment → List (Exchange α) → Ending α → Prop
  | none {n : Nat} {m : Moment} :
      Runs r op 0 n m [] (some (m, .error (.misuse (.zeroAttempts r.name))))
  | unmade {left n : Nat} {m : Moment} (cancelled : m.isCancelled = true) :
      Runs r op (left + 1) n m [] (some (m, .error .cancelled))
  | endless {left n : Nat} {m : Moment} (free : m.isCancelled = false)
      (never : (op n m.now).run m = none) : Runs r op (left + 1) n m [.of op n m] none
  | succeeded {left n : Nat} {m idle : Moment} {value : α} (free : m.isCancelled = false)
      (done : (op n m.now).run m = some (idle, .ok value)) :
      Runs r op (left + 1) n m [.of op n m] (some (idle, .ok value))
  | failed {left n : Nat} {m idle : Moment} {failure : Failure} (free : m.isCancelled = false)
      (failed : (op n m.now).run m = some (idle, .error failure))
      (final : r.accepts failure = false ∨ left = 0) :
      Runs r op (left + 1) n m [.of op n m] (some (idle, .error failure))
  | cutShort {left n : Nat} {m idle last : Moment} {failure : Failure}
      (free : m.isCancelled = false) (failed : (op n m.now).run m = some (idle, .error failure))
      (accepted : r.accepts failure = true) (more : left ≠ 0)
      (early : (idle.after r.backoff).isCancelled = true) (meets : idle.Meets last) :
      Runs r op (left + 1) n m [.of op n m] (some (last, .error .cancelled))
  | again {left n : Nat} {m idle : Moment} {failure : Failure} {made : List (Exchange α)}
      {ending : Ending α} (free : m.isCancelled = false)
      (failed : (op n m.now).run m = some (idle, .error failure))
      (accepted : r.accepts failure = true) (more : left ≠ 0)
      (due : (idle.after r.backoff).isCancelled = false)
      (rest : Runs r op left (n + 1) (idle.after r.backoff) made ending) :
      Runs r op (left + 1) n m (.of op n m :: made) ending

theorem loop_of_cancelled (r : Retry) (op : Operation α) (tie : Nat → Bool)
    (cancelled : m.isCancelled = true) (earlier : List Nat) :
    r.loop op tie (left + 1) n earlier m = ⟨earlier.reverse, some (m, .error .cancelled)⟩ := by
  simp only [loop, if_pos cancelled]

/-- However ties are decided, attempts go one of these ways. -/
theorem loop_runs (r : Retry) (op : Operation α) (tie : Nat → Bool) (left : Nat) :
    ∀ (n : Nat) (earlier : List Nat) (m : Moment), ∃ made : List (Exchange α),
      (r.loop op tie left n earlier m).starts = earlier.reverse ++ made.map (·.made.now) ∧
      Runs r op left n m made (r.loop op tie left n earlier m).ending := by
  induction left with
  | zero =>
      intro n earlier m
      exact ⟨[], by simp [loop], .none⟩
  | succ left ih =>
      intro n earlier m
      by_cases cancelled : m.isCancelled = true
      · rw [loop_of_cancelled r op tie cancelled]
        exact ⟨[], by simp, .unmade cancelled⟩
      have free : m.isCancelled = false := by simpa using cancelled
      have alone : (m.now :: earlier).reverse =
          earlier.reverse ++ [Exchange.of op n m].map (·.made.now) := by simp [Exchange.of]
      cases ended : (op n m.now).run m with
      | none =>
          simp only [loop, if_neg cancelled, ended]
          exact ⟨_, alone, .endless free ended⟩
      | some result =>
          obtain ⟨idle, answer⟩ := result
          cases answer with
          | ok value =>
              simp only [loop, if_neg cancelled, ended]
              exact ⟨_, alone, .succeeded free ended⟩
          | error failure =>
              by_cases final : r.accepts failure = false ∨ left = 0
              · have stops : (!r.accepts failure || decide (left = 0)) = true := by
                  simpa using final
                simp only [loop, if_neg cancelled, ended, if_pos stops]
                exact ⟨_, alone, .failed free ended final⟩
              obtain ⟨refused, more⟩ := not_or.1 final
              have accepted : r.accepts failure = true := by simpa using refused
              have goes : ¬ (!r.accepts failure || decide (left = 0)) = true := by
                simpa using final
              cases early : (idle.after r.backoff).isCancelled with
              | false =>
                  simp only [loop, if_neg cancelled, ended, if_neg goes,
                    Moment.wait_of_free early]
                  obtain ⟨made, starts, runs⟩ := ih (n + 1) (m.now :: earlier)
                    (idle.after r.backoff)
                  refine ⟨.of op n m :: made, ?_, .again free ended accepted more early runs⟩
                  rw [starts, alone]
                  simp
              | true =>
                  cases waited : idle.wait r.backoff (tie n) with
                  | mk next wake =>
                      cases wake with
                      | cancelled =>
                          simp only [loop, if_neg cancelled, ended, if_neg goes, waited]
                          have meets := Moment.moveTo_of_wait_cancelled waited
                          exact ⟨_, alone, .cutShort free ended accepted more early meets⟩
                      | elapsed =>
                          -- the look at the cancellation before the next attempt makes up for it
                          obtain rfl := Moment.after_of_wait_elapsed waited
                          obtain ⟨fewer, rfl⟩ := Nat.exists_eq_succ_of_ne_zero more
                          simp only [loop, if_neg cancelled, ended, if_neg goes, waited,
                            if_pos early]
                          have meets := (Moment.Meets.self early).of_wait_elapsed waited
                          exact ⟨_, alone, .cutShort free ended accepted more early meets⟩

/-! ## The law -/

/-- What the last of `count` attempts, of at most `left`, makes of the whole. -/
inductive Decides (r : Retry) (left count : Nat) : Ending α → Ending α → Prop
  | endless : Decides r left count none none
  | succeeded (idle : Moment) (value : α) :
      Decides r left count (some (idle, .ok value)) (some (idle, .ok value))
  | failed {idle : Moment} {failure : Failure}
      (final : r.accepts failure = false ∨ count = left) :
      Decides r left count (some (idle, .error failure)) (some (idle, .error failure))
  | cutShort {idle : Moment} {failure : Failure} {c : Nat} (accepted : r.accepts failure = true)
      (more : count ≠ left) (fires : idle.token.firesAt = some c)
      (early : c ≤ idle.now + r.backoff) :
      Decides r left count (some (idle, .error failure))
        (some (idle.moveTo (max idle.now c), .error .cancelled))

/-- What becomes of at most `left` attempts, numbered from `n`, of which the first is due in `m`. -/
structure Law (r : Retry) (op : Operation α) (left n : Nat) (m : Moment)
    (made : List (Exchange α)) (ending : Ending α) : Prop where
  bound : made.length ≤ left
  calls : ∀ i e, made[i]? = some e → e = Exchange.of op (n + i) e.made
  first : made.head?.map (·.made) = if m.isCancelled then none else some m
  next : ∀ i e later, made[i]? = some e →
    ((∃ e', made[i + 1]? = some e' ∧ e'.made = later) ↔
      i + 1 < left ∧ ∃ idle failure, e.ending = some (idle, .error failure) ∧
        r.accepts failure = true ∧ later = idle.after r.backoff ∧ later.isCancelled = false)
  unmade : made = [] → ending = some (m, .error .cancelled)
  last : ∀ e, made.getLast? = some e → r.Decides left made.length e.ending ending

theorem Decides.cutShort_of_accepted {count : Nat} {failure : Failure}
    (decides : r.Decides left count (some (idle, .error failure)) ending)
    (accepted : r.accepts failure = true) (more : count ≠ left) :
    (idle.after r.backoff).isCancelled = true := by
  cases decides with
  | failed final => simp [accepted, more] at final
  | cutShort _ _ fires early => exact Moment.isCancelled_after.2 ⟨_, fires, early⟩

theorem Law.single (free : m.isCancelled = false)
    (decides : r.Decides (left + 1) 1 ((op n m.now).run m) ending) :
    Law r op (left + 1) n m [.of op n m] ending := by
  have only (i : Nat) (e : Exchange α) (at_ : [Exchange.of op n m][i]? = some e) :
      i = 0 ∧ e = .of op n m := by
    cases i with
    | zero => exact ⟨rfl, (Option.some.inj at_).symm⟩
    | succ i => simp at at_
  constructor
  case bound => simp
  case calls =>
    intro i e at_
    obtain ⟨rfl, rfl⟩ := only i e at_
    rfl
  case first => simp [free, Exchange.of]
  case next =>
    intro i e later at_
    obtain ⟨rfl, rfl⟩ := only i e at_
    refine iff_of_false (by simp) ?_
    rintro ⟨more, idle, failure, ended, accepted, rfl, due⟩
    rw [show (op n m.now).run m = _ from ended] at decides
    have late := decides.cutShort_of_accepted accepted (by omega)
    exact absurd late (by simp [due])
  case unmade => intro empty; cases empty
  case last =>
    intro e latest
    obtain rfl := Option.some.inj latest
    exact decides

theorem Decides.succ {count : Nat} {last : Ending α} (decides : r.Decides left count last ending) :
    r.Decides (left + 1) (count + 1) last ending := by
  cases decides with
  | endless => exact .endless
  | succeeded => exact .succeeded _ _
  | failed final => exact .failed (final.imp_right (congrArg (· + 1)))
  | cutShort accepted more fires early =>
      exact .cutShort accepted (fun all => more (Nat.succ.inj all)) fires early

theorem Law.cons {failure : Failure}
    (law : Law r op left (n + 1) (idle.after r.backoff) made ending)
    (free : m.isCancelled = false) (ended : (op n m.now).run m = some (idle, .error failure))
    (accepted : r.accepts failure = true) (due : (idle.after r.backoff).isCancelled = false) :
    Law r op (left + 1) n m (.of op n m :: made) ending := by
  have first : made.head?.map (·.made) = some (idle.after r.backoff) := by
    rw [law.first, due]
    rfl
  obtain ⟨e, rest, rfl⟩ : ∃ e rest, made = e :: rest := by
    cases made with
    | nil => cases first
    | cons e rest => exact ⟨e, rest, rfl⟩
  have here : e.made = idle.after r.backoff := Option.some.inj first
  constructor
  case bound => exact Nat.succ_le_succ law.bound
  case calls =>
    intro i f at_
    cases i with
    | zero =>
        obtain rfl := Option.some.inj at_
        rfl
    | succ i =>
        have own := law.calls i f at_
        rwa [Nat.add_right_comm, Nat.add_assoc] at own
  case first => simp [free, Exchange.of]
  case next =>
    intro i f later at_
    cases i with
    | zero =>
        obtain rfl := Option.some.inj at_
        have more : 0 < left := Nat.lt_of_lt_of_le (by simp) law.bound
        constructor
        · rintro ⟨f, at_, rfl⟩
          obtain rfl : e = f := by simpa using at_
          exact ⟨Nat.succ_lt_succ more, idle, failure, ended, accepted, here, here ▸ due⟩
        · rintro ⟨-, idle', failure', ended', -, rfl, -⟩
          obtain ⟨rfl, -⟩ := by simpa using ended.symm.trans ended'
          exact ⟨e, rfl, here⟩
    | succ i =>
        have own := law.next i f later at_
        rw [List.getElem?_cons_succ, own]
        simp only [Nat.add_lt_add_iff_right]
  case unmade => intro empty; cases empty
  case last => exact fun f latest => (law.last f (by simpa using latest)).succ

theorem Runs.law (runs : Runs r op left n m made ending) (some_attempt : left ≠ 0) :
    Law r op left n m made ending := by
  induction runs with
  | none => exact absurd rfl some_attempt
  | unmade cancelled => constructor <;> simp [cancelled]
  | endless free never =>
      apply Law.single free
      rw [never]
      exact .endless
  | succeeded free done =>
      apply Law.single free
      rw [done]
      exact .succeeded _ _
  | failed free failed final =>
      apply Law.single free
      rw [failed]
      exact .failed (final.imp_right fun none' => by omega)
  | cutShort free failed accepted more early meets =>
      obtain ⟨c, fires, rfl⟩ := Moment.meets_iff.1 meets
      obtain ⟨c', fires', before⟩ := Moment.isCancelled_after.1 early
      obtain rfl := Option.some.inj (fires.symm.trans fires')
      apply Law.single free
      rw [failed]
      exact .cutShort accepted (by omega) fires before
  | again free failed accepted more due rest ih => exact (ih more).cons free failed accepted due

theorem run_law (r : Retry) (op : Operation α) (tie : Nat → Bool) (m : Moment)
    (some_attempt : 1 ≤ r.attempts) : ∃ made : List (Exchange α),
      (r.run op tie m).starts = made.map (·.made.now) ∧
      Law r op r.attempts 0 m made (r.run op tie m).ending := by
  obtain ⟨made, starts, runs⟩ := loop_runs r op tie r.attempts 0 [] m
  exact ⟨made, starts, runs.law (Nat.ne_of_gt some_attempt)⟩

def thrice : Retry := ⟨"fetch", 3, 10, always⟩

def refused : Operation Unit := fun _ _ =>
  ⟨some 4, false, false, fun fs => (fs, .error (.http .connect))⟩

/-- The second failure comes at 18, and the wait after it is cut short at 20. -/
theorem run_law_refused : ∃ made : List (Exchange Unit), made.map (·.made.now) = [0, 14] ∧
    Law thrice refused 3 0 ⟨0, .firingAt 20, .empty⟩ made
      (some (⟨20, .firingAt 20, .empty⟩, .error .cancelled)) := by
  obtain ⟨made, starts, law⟩ :=
    run_law thrice refused (fun _ => true) ⟨0, .firingAt 20, .empty⟩ (by decide)
  have times : (thrice.run refused (fun _ => true) ⟨0, .firingAt 20, .empty⟩).starts =
      [0, 14] := by decide +kernel
  have ending : (thrice.run refused (fun _ => true) ⟨0, .firingAt 20, .empty⟩).ending =
      some (⟨20, .firingAt 20, .empty⟩, .error .cancelled) := by rfl
  exact ⟨made, starts.symm.trans times, ending ▸ law⟩

end Retry

end StoreWarden
