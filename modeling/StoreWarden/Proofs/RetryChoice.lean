import StoreWarden.Proofs.RetryLaw

/-!
# A free choice that nobody sees

A wait between two attempts is for two things, its end and the cancellation.  It is looked at when
the first of them has come, or later, and of those that have come by then either may be taken.
`Selects` leaves both the choice and the lateness open.

Nothing hangs on the choice.  To go on from a wait that ends cancelled is to be stopped before the
next attempt, in the same moment, so that every way is the one of `patient`, which never takes the
cancellation out of a wait.
-/

set_option autoImplicit false

namespace StoreWarden

namespace Moment

/-- When a wait of `d` first has something to show. -/
def stirs (m : Moment) (d : Nat) : Nat :=
  match m.token.seenFrom m.now with
  | none => m.now + d
  | some seen => min seen (m.now + d)

/-- What somebody may find who looks at a wait of `d`, this late after it has something to show. -/
def Wakes (m : Moment) (d late : Nat) (next : Moment) (wake : Wake) : Prop :=
  next = m.moveTo (m.stirs d + late) ∧
    match wake with
    | .elapsed => m.now + d ≤ next.now
    | .cancelled => next.isCancelled = true

theorem isCancelled_of_stirs_lt {m : Moment} {d t : Nat} (reached : m.stirs d ≤ t)
    (early : t < m.now + d) : (m.moveTo t).isCancelled = true := by
  unfold stirs at reached
  cases seen : m.token.seenFrom m.now with
  | none =>
      simp only [seen] at reached
      omega
  | some f =>
      simp only [seen] at reached
      have fired : f ≤ t := by omega
      exact Cancellation.isFired_mono fired (isCancelled_moveTo_seen seen)

theorem stirs_of_free {m : Moment} {d : Nat} (free : (m.after d).isCancelled = false) :
    m.stirs d = m.now + d := by
  by_contra other
  have before : m.stirs d ≤ m.now + d := by
    unfold stirs
    split <;> omega
  have fired := isCancelled_of_stirs_lt (m := m) (d := d) (Nat.le_refl _) (by omega)
  have late := Cancellation.isFired_mono before fired
  exact absurd late (by simpa [isCancelled, after, moveTo] using free)

theorem moveTo_stirs_of_meets {m last : Moment} {d : Nat}
    (early : (m.after d).isCancelled = true) (meets : m.Meets last) :
    last = m.moveTo (m.stirs d) := by
  obtain ⟨t, seen, rfl⟩ := meets
  obtain ⟨c, fires, before⟩ := isCancelled_after.1 early
  have same : max m.now c = t := by simpa [Cancellation.seenFrom, fires] using seen
  have least : min t (m.now + d) = t := by omega
  simp only [stirs, seen, least]

end Moment

namespace Retry

variable {α : Type} {r : Retry} {op : Operation α} {late : Nat → Nat} {left n : Nat} {m : Moment}
  {made : List (Exchange α)} {ending : Ending α}

/-- What at most `left` attempts may come to, of which the first has number `n` and is due in `m`.
The wait after attempt `n` is looked at `late n` after it has something to show. -/
inductive Selects (r : Retry) (op : Operation α) (late : Nat → Nat) :
    (left n : Nat) → Moment → List (Exchange α) → Ending α → Prop
  | none {n : Nat} {m : Moment} :
      Selects r op late 0 n m [] (some (m, .error (.misuse (.zeroAttempts r.name))))
  | unmade {left n : Nat} {m : Moment} (cancelled : m.isCancelled = true) :
      Selects r op late (left + 1) n m [] (some (m, .error .cancelled))
  | endless {left n : Nat} {m : Moment} (free : m.isCancelled = false)
      (never : (op n m.now).run m = none) :
      Selects r op late (left + 1) n m [.of op n m] none
  | succeeded {left n : Nat} {m idle : Moment} {value : α} (free : m.isCancelled = false)
      (done : (op n m.now).run m = some (idle, .ok value)) :
      Selects r op late (left + 1) n m [.of op n m] (some (idle, .ok value))
  | failed {left n : Nat} {m idle : Moment} {failure : Failure} (free : m.isCancelled = false)
      (failed : (op n m.now).run m = some (idle, .error failure))
      (final : r.accepts failure = false ∨ left = 0) :
      Selects r op late (left + 1) n m [.of op n m] (some (idle, .error failure))
  | stopped {left n : Nat} {m idle last : Moment} {failure : Failure}
      (free : m.isCancelled = false) (failed : (op n m.now).run m = some (idle, .error failure))
      (accepted : r.accepts failure = true) (more : left ≠ 0)
      (taken : idle.Wakes r.backoff (late n) last .cancelled) :
      Selects r op late (left + 1) n m [.of op n m] (some (last, .error .cancelled))
  | again {left n : Nat} {m idle next : Moment} {failure : Failure} {made : List (Exchange α)}
      {ending : Ending α} (free : m.isCancelled = false)
      (failed : (op n m.now).run m = some (idle, .error failure))
      (accepted : r.accepts failure = true) (more : left ≠ 0)
      (taken : idle.Wakes r.backoff (late n) next .elapsed)
      (rest : Selects r op late left (n + 1) next made ending) :
      Selects r op late (left + 1) n m (.of op n m :: made) ending

/-- The attempts of somebody who sits out every wait, and looks at the cancellation only before an
attempt. -/
def patient (r : Retry) (op : Operation α) (late : Nat → Nat) :
    (left n : Nat) → Moment → List (Exchange α) × Ending α
  | 0, _, m => ([], some (m, .error (.misuse (.zeroAttempts r.name))))
  | left + 1, n, m =>
    if m.isCancelled then ([], some (m, .error .cancelled))
    else
      match (op n m.now).run m with
      | some (idle, .error failure) =>
        if r.accepts failure = false ∨ left = 0 then ([.of op n m], some (idle, .error failure))
        else
          let rest := r.patient op late left (n + 1)
            (idle.moveTo (idle.stirs r.backoff + late n))
          (.of op n m :: rest.1, rest.2)
      | ending => ([.of op n m], ending)

theorem patient_of_cancelled (some_left : left ≠ 0) (cancelled : m.isCancelled = true) :
    r.patient op late left n m = ([], some (m, .error .cancelled)) := by
  obtain ⟨fewer, rfl⟩ := Nat.exists_eq_succ_of_ne_zero some_left
  simp only [patient, if_pos cancelled]

theorem patient_of_again {idle : Moment} {failure : Failure} (free : m.isCancelled = false)
    (failed : (op n m.now).run m = some (idle, .error failure))
    (accepted : r.accepts failure = true) (more : left ≠ 0) :
    r.patient op late (left + 1) n m =
      (.of op n m ::
          (r.patient op late left (n + 1) (idle.moveTo (idle.stirs r.backoff + late n))).1,
        (r.patient op late left (n + 1) (idle.moveTo (idle.stirs r.backoff + late n))).2) := by
  have goes : ¬ (r.accepts failure = false ∨ left = 0) := by simp [accepted, more]
  simp only [patient, free, failed, if_neg goes, Bool.false_eq_true, if_false]

theorem Selects.eq_patient (selects : Selects r op late left n m made ending) :
    r.patient op late left n m = (made, ending) := by
  induction selects with
  | none => rfl
  | unmade cancelled => exact patient_of_cancelled (Nat.succ_ne_zero _) cancelled
  | endless free never => simp [patient, free, never]
  | succeeded free done => simp [patient, free, done]
  | failed free failed final => simp [patient, free, failed, if_pos final]
  | stopped free failed accepted more taken =>
      -- the patient one goes on from here, and is stopped before the next attempt
      obtain ⟨rfl, cancelled⟩ := taken
      rw [patient_of_again free failed accepted more, patient_of_cancelled more cancelled]
  | again free failed accepted more taken rest ih =>
      obtain ⟨rfl, -⟩ := taken
      rw [patient_of_again free failed accepted more, ih]

theorem selects_patient (r : Retry) (op : Operation α) (late : Nat → Nat) (left : Nat) :
    ∀ (n : Nat) (m : Moment), Selects r op late left n m (r.patient op late left n m).1
      (r.patient op late left n m).2 := by
  induction left with
  | zero => intro n m; exact .none
  | succ left ih =>
      intro n m
      by_cases cancelled : m.isCancelled = true
      · rw [patient_of_cancelled (Nat.succ_ne_zero _) cancelled]
        exact .unmade cancelled
      have free : m.isCancelled = false := by simpa using cancelled
      cases ended : (op n m.now).run m with
      | none =>
          simp only [patient, if_neg cancelled, ended]
          exact .endless free ended
      | some result =>
          obtain ⟨idle, answer⟩ := result
          cases answer with
          | ok value =>
              simp only [patient, if_neg cancelled, ended]
              exact .succeeded free ended
          | error failure =>
              by_cases final : r.accepts failure = false ∨ left = 0
              · simp only [patient, if_neg cancelled, ended, if_pos final]
                exact .failed free ended final
              obtain ⟨refused, more⟩ := not_or.1 final
              have accepted : r.accepts failure = true := by simpa using refused
              rw [patient_of_again free ended accepted more]
              -- what has to be taken out of the wait is always there
              by_cases passed : idle.now + r.backoff ≤ idle.stirs r.backoff + late n
              · exact .again free ended accepted more ⟨rfl, passed⟩ (ih _ _)
              · have fired := Moment.isCancelled_of_stirs_lt (Nat.le_add_right _ (late n))
                  (Nat.lt_of_not_le passed)
                rw [patient_of_cancelled more fired]
                exact .stopped free ended accepted more ⟨rfl, fired⟩

theorem Runs.selects (runs : Runs r op left n m made ending) :
    Selects r op (fun _ => 0) left n m made ending := by
  induction runs with
  | none => exact .none
  | unmade cancelled => exact .unmade cancelled
  | endless free never => exact .endless free never
  | succeeded free done => exact .succeeded free done
  | failed free failed final => exact .failed free failed final
  | cutShort free failed accepted more early meets =>
      have taken := Moment.moveTo_stirs_of_meets early meets
      exact .stopped free failed accepted more ⟨taken, meets.isCancelled⟩
  | @again left n m idle failure made ending free failed accepted more due rest ih =>
      have taken : idle.after r.backoff = idle.moveTo (idle.stirs r.backoff + 0) := by
        rw [Moment.stirs_of_free due]
        rfl
      exact .again free failed accepted more ⟨taken, Nat.le_refl _⟩ ih

/-- How waits are decided makes no difference to repeated attempts: neither among the ways in which
the loop can go, nor among all those that waits leave open, however late they are looked at. -/
theorem run_indifferent (r : Retry) (op : Operation α) (m : Moment) :
    (∀ tie tie' : Nat → Bool, r.run op tie m = r.run op tie' m) ∧
    (∀ tie : Nat → Bool, ∃ made : List (Exchange α),
      (r.run op tie m).starts = made.map (·.made.now) ∧
      Selects r op (fun _ => 0) r.attempts 0 m made (r.run op tie m).ending) ∧
    ∀ late : Nat → Nat, ∃! way : List (Exchange α) × Ending α,
      Selects r op late r.attempts 0 m way.1 way.2 := by
  have chosen (tie : Nat → Bool) : ∃ made : List (Exchange α),
      (r.run op tie m).starts = made.map (·.made.now) ∧
      Selects r op (fun _ => 0) r.attempts 0 m made (r.run op tie m).ending := by
    obtain ⟨made, starts, runs⟩ := loop_runs r op tie r.attempts 0 [] m
    exact ⟨made, starts, runs.selects⟩
  refine ⟨?_, chosen, ?_⟩
  · intro tie tie'
    obtain ⟨made, starts, selects⟩ := chosen tie
    obtain ⟨made', starts', selects'⟩ := chosen tie'
    obtain ⟨rfl, same⟩ := Prod.mk.inj (selects.eq_patient.symm.trans selects'.eq_patient)
    calc r.run op tie m
        = ⟨(r.run op tie m).starts, (r.run op tie m).ending⟩ := rfl
      _ = ⟨(r.run op tie' m).starts, (r.run op tie' m).ending⟩ := by rw [starts, starts', same]
      _ = r.run op tie' m := rfl
  · intro late
    refine ⟨r.patient op late r.attempts 0 m, selects_patient r op late _ _ _, ?_⟩
    intro way selects
    exact selects.eq_patient.symm

def hasty : Retry := ⟨"fetch", 3, 0, always⟩

def selfCancelled : Operation Unit := fun _ _ =>
  ⟨some 4, false, true, fun fs => (fs, .error (.http .connect))⟩

/-- The first attempt cancels just before it fails, and a wait of no length follows.  Whether the
wait is seen as passed or as cancelled, no other attempt is made. -/
theorem run_indifferent_selfCancelled :
    hasty.run selfCancelled (fun _ => true) ⟨0, .never, .empty⟩ =
        hasty.run selfCancelled (fun _ => false) ⟨0, .never, .empty⟩ ∧
      hasty.run selfCancelled (fun _ => true) ⟨0, .never, .empty⟩ =
        ⟨[0], some (⟨4, .firingAt 4, .empty⟩, .error .cancelled)⟩ ∧
      (Moment.wait ⟨4, .firingAt 4, .empty⟩ 0 true).2 = .elapsed ∧
      (Moment.wait ⟨4, .firingAt 4, .empty⟩ 0 false).2 = .cancelled := by
  have same := (run_indifferent hasty selfCancelled ⟨0, .never, .empty⟩).1
  exact ⟨same _ _, rfl, rfl, rfl⟩

end Retry

end StoreWarden
