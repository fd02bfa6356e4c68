import Mathlib.Data.List.Chain
import StoreWarden.Retry

/-!
# The attempts of a repeated operation

A repeated operation is seen from outside by the exchanges it makes: each is a call of the
operation, the first is made at once, and each later one after a failure that the policy accepts
and a whole wait.  `loop_stops` gives the exchanges of a run and says how they end it: with the
last of them, or where the cancellation finds the run once that has been answered.
-/

set_option autoImplicit false

namespace StoreWarden

/-! ## Waits -/

theorem Cancellation.le_of_seenFrom {token : Cancellation} {now t : Nat}
    (seen : token.seenFrom now = some t) : now ≤ t := by
  unfold Cancellation.seenFrom at seen
  obtain ⟨f, -, rfl⟩ := Option.map_eq_some_iff.1 seen
  exact Nat.le_max_left now f

theorem Moment.after_of_wait_elapsed {m next : Moment} {d : Nat} {tie : Bool}
    (h : m.wait d tie = (next, .elapsed)) : next = m.after d := by
  unfold Moment.wait at h
  cases seen : m.token.seenFrom m.now with
  | none =>
      simp only [seen, Prod.mk.injEq, and_true] at h
      exact h.symm
  | some t =>
      simp only [seen] at h
      by_cases early : t < m.now + d
      · simp [if_pos early] at h
      · by_cases tied : (t = m.now + d && !tie) = true
        · simp only [if_neg early, if_pos tied] at h
          cases h
        · simp only [if_neg early, if_neg tied, Prod.mk.injEq, and_true] at h
          exact h.symm

theorem Moment.isCancelled_moveTo_seen {m : Moment} {t u : Nat}
    (seen : m.token.seenFrom u = some t) : (m.moveTo t).isCancelled = true := by
  unfold Cancellation.seenFrom at seen
  cases fires : m.token.firesAt with
  | none => simp [fires] at seen
  | some f =>
      simp only [fires, Option.map_some, Option.some.injEq] at seen
      have reached : f ≤ t := by omega
      simp [Moment.isCancelled, Moment.moveTo, Cancellation.isFired, fires, reached]

theorem Moment.moveTo_of_wait_cancelled {m next : Moment} {d : Nat} {tie : Bool}
    (h : m.wait d tie = (next, .cancelled)) :
    ∃ t, m.token.seenFrom m.now = some t ∧ next = m.moveTo t := by
  unfold Moment.wait at h
  cases seen : m.token.seenFrom m.now with
  | none => simp [seen] at h
  | some t =>
      refine ⟨t, rfl, ?_⟩
      simp only [seen] at h
      by_cases early : t < m.now + d
      · simp only [if_pos early, Prod.mk.injEq, and_true] at h
        exact h.symm
      · by_cases tied : (t = m.now + d && !tie) = true
        · simp only [if_neg early, if_pos tied, Prod.mk.injEq, and_true] at h
          exact h.symm
        · simp only [if_neg early, if_neg tied] at h
          cases h

theorem Moment.isCancelled_of_wait_cancelled {m next : Moment} {d : Nat} {tie : Bool}
    (h : m.wait d tie = (next, .cancelled)) : next.isCancelled = true := by
  obtain ⟨t, seen, rfl⟩ := moveTo_of_wait_cancelled h
  exact isCancelled_moveTo_seen seen

/-- Where the cancellation goes first, a wait that has passed ends without it. -/
theorem Moment.isCancelled_of_wait_elapsed {m next : Moment} {d : Nat}
    (h : m.wait d false = (next, .elapsed)) : next.isCancelled = false := by
  obtain rfl := after_of_wait_elapsed h
  unfold Moment.wait Cancellation.seenFrom at h
  unfold Moment.isCancelled Cancellation.isFired
  cases fires : m.token.firesAt with
  | none => simp [Moment.after, Moment.moveTo, fires]
  | some f =>
      simp only [fires, Option.map_some] at h
      have later : m.now + d < max m.now f := by
        by_cases early : max m.now f < m.now + d
        · simp [early] at h
        · by_cases tied : max m.now f = m.now + d
          · simp [tied] at h
          · omega
      have unfired : ¬ f ≤ m.now + d := by omega
      simp [Moment.after, Moment.moveTo, fires, unfired]

/-- The moment in which the cancellation finds somebody who does nothing from `m` on. -/
def Moment.Meets (m next : Moment) : Prop :=
  ∃ t, m.token.seenFrom m.now = some t ∧ next = m.moveTo t

theorem Moment.Meets.isCancelled {m next : Moment} (meets : m.Meets next) :
    next.isCancelled = true := by
  obtain ⟨t, seen, rfl⟩ := meets
  exact isCancelled_moveTo_seen seen

theorem Moment.Meets.self {m : Moment} (cancelled : m.isCancelled = true) : m.Meets m := by
  unfold Moment.isCancelled Cancellation.isFired at cancelled
  cases fires : m.token.firesAt with
  | none => simp [fires] at cancelled
  | some f =>
      have past : f ≤ m.now := by simpa [fires] using cancelled
      have now : max m.now f = m.now := by omega
      exact ⟨m.now, by simp [Cancellation.seenFrom, fires, now], rfl⟩

/-- Waiting out a wait that the cancellation does not cut short makes no difference. -/
theorem Moment.Meets.of_wait_elapsed {m next last : Moment} {d : Nat} {tie : Bool}
    (waited : m.wait d tie = (next, .elapsed)) (meets : next.Meets last) : m.Meets last := by
  obtain rfl := after_of_wait_elapsed waited
  obtain ⟨t, seen, rfl⟩ := meets
  cases fires : m.token.firesAt with
  | none => simp [Cancellation.seenFrom, Moment.after, Moment.moveTo, fires] at seen
  | some f =>
      have later : m.now + d ≤ max m.now f := by
        by_contra early
        simp [Moment.wait, Cancellation.seenFrom, fires, Nat.lt_of_not_le early] at waited
      simp only [Cancellation.seenFrom, Moment.after, Moment.moveTo, fires, Option.map_some,
        Option.some.injEq] at seen
      refine ⟨t, ?_, rfl⟩
      simp only [Cancellation.seenFrom, fires, Option.map_some, Option.some.injEq]
      omega

/-! ## Calls -/

namespace Call

variable {α : Type} {c : Call α} {m next : Moment} {answer : Except Failure α}

theorem seen_of_givesUpAt {now t : Nat} {token : Cancellation}
    (gives : c.givesUpAt now token = some t) : token.seenFrom now = some t := by
  unfold Call.givesUpAt at gives
  cases heeds : c.heeds with
  | false => simp [heeds] at gives
  | true =>
      cases seen : token.seenFrom now with
      | none => simp [heeds, seen] at gives
      | some u =>
          simp only [heeds, seen] at gives
          split at gives
          · exact gives
          · split at gives
            · exact gives
            · cases gives

/-- The moment in which a call made in `m` is concluded after `d`, when it has had its effect. -/
def concluded (c : Call α) (m : Moment) (d : Nat) : Moment :=
  let done : Moment := { m.after d with files := (c.effect m.files).1 }
  if c.cancels then done.cancel else done

/-- A call that has ended has given up, with nothing done, or has had its effect. -/
theorem run_cases (ended : c.run m = some (next, answer)) :
    m.Meets next ∧ answer = .error .cancelled ∨
      ∃ d, c.after = some d ∧ next = c.concluded m d ∧ answer = (c.effect m.files).2 := by
  unfold Call.run at ended
  cases gives : c.givesUpAt m.now m.token with
  | some t =>
      simp only [gives, Option.some.injEq, Prod.mk.injEq] at ended
      obtain ⟨rfl, rfl⟩ := ended
      exact Or.inl ⟨⟨t, seen_of_givesUpAt gives, rfl⟩, rfl⟩
  | none =>
      cases takes : c.after with
      | none => simp [gives, takes] at ended
      | some d =>
          simp only [gives, takes, Option.some.injEq, Prod.mk.injEq] at ended
          exact Or.inr ⟨d, rfl, ended.1.symm, ended.2.symm⟩

@[simp] theorem concluded_now (c : Call α) (m : Moment) (d : Nat) :
    (c.concluded m d).now = m.now + d := by
  unfold concluded
  cases c.cancels <;> rfl

@[simp] theorem concluded_files (c : Call α) (m : Moment) (d : Nat) :
    (c.concluded m d).files = (c.effect m.files).1 := by
  unfold concluded
  cases c.cancels <;> rfl

/-- A call takes time, and takes no cancellation back. -/
theorem run_later (ended : c.run m = some (next, answer)) :
    m.now ≤ next.now ∧ ∀ t, m.token.isFired t = true → next.token.isFired t = true := by
  obtain ⟨⟨t, seen, rfl⟩, -⟩ | ⟨d, -, rfl, -⟩ := run_cases ended
  · exact ⟨Cancellation.le_of_seenFrom seen, fun _ => id⟩
  · refine ⟨by simp, ?_⟩
    intro t fired
    unfold concluded
    cases c.cancels with
    | false => exact fired
    | true =>
        simp only [if_true, Moment.cancel, Moment.after, Moment.moveTo,
          Cancellation.isFired_cancel, fired, Bool.true_or]

theorem isCancelled_run (cancelled : m.isCancelled = true)
    (answered : c.run m = some (next, answer)) : next.isCancelled = true := by
  obtain ⟨after, kept⟩ := run_later answered
  exact Cancellation.isFired_mono after (kept _ cancelled)

end Call

/-! ## Exchanges -/

/-- One call as it went: its number, the moment in which it was made, and how it ended. -/
structure Exchange (α : Type) where
  number : Nat
  made : Moment
  ending : Ending α

/-- The exchange that call number `n` of an operation comes to in a moment. -/
def Exchange.of {α : Type} (op : Retry.Operation α) (n : Nat) (m : Moment) : Exchange α :=
  ⟨n, m, (op n m.now).run m⟩

namespace Retry

variable {α : Type}

/-- An attempt follows a failure that the policy accepts, once the wait has passed. -/
def Follows (r : Retry) (tie : Nat → Bool) (e next : Exchange α) : Prop :=
  ∃ m failure, e.ending = some (m, .error failure) ∧ r.accepts failure = true ∧
    m.wait r.backoff (tie e.number) = (next.made, .elapsed)

/-- Exchanges that are attempts of an operation, numbered from `n`, the first made in `m`. -/
structure Attempts (r : Retry) (op : Operation α) (tie : Nat → Bool) (n : Nat) (m : Moment)
    (made : List (Exchange α)) : Prop where
  numbered : made.map (·.number) = List.range' n made.length
  calls : ∀ e ∈ made, e = .of op e.number e.made
  begins : ∀ e ∈ made.head?, e.made = m
  heeds : ∀ e ∈ made, e.made.isCancelled = false
  follows : made.IsChain (r.Follows tie)

/-- How at most `left` attempts end: as the last of them, where a failure has used them up or is
not accepted; by the cancellation; or by there being none to make. -/
def Ends (r : Retry) (left : Nat) (made : List (Exchange α)) : Ending α → Prop
  | none => ∃ e, made.getLast? = some e ∧ e.ending = none
  | some (m, answer) =>
    (∃ e, made.getLast? = some e ∧ e.ending = some (m, answer) ∧
      ∀ failure, answer = .error failure → r.accepts failure = false ∨ made.length = left) ∨
    (answer = .error .cancelled ∧ m.isCancelled = true) ∨
    (left = 0 ∧ answer = .error (.misuse (.zeroAttempts r.name)))

/-- With nothing to do: at the beginning, or since the last attempt has failed. -/
def Idle (m : Moment) (made : List (Exchange α)) (idle : Moment) : Prop :=
  made.getLast? = none ∧ idle = m ∨
    ∃ e failure, made.getLast? = some e ∧ e.ending = some (idle, .error failure)

/-- How at most `left` attempts that begin in `m` end, with the moment in which the cancellation
ends them: when it finds them idle, with attempts left. -/
def Stops (r : Retry) (left : Nat) (m : Moment) (made : List (Exchange α)) : Ending α → Prop
  | none => ∃ e, made.getLast? = some e ∧ e.ending = none
  | some (last, answer) =>
    (∃ e, made.getLast? = some e ∧ e.ending = some (last, answer) ∧
      ∀ failure, answer = .error failure → r.accepts failure = false ∨ made.length = left) ∨
    (answer = .error .cancelled ∧ made.length < left ∧
      ∃ idle, Idle m made idle ∧ idle.Meets last) ∨
    (left = 0 ∧ answer = .error (.misuse (.zeroAttempts r.name)))

theorem Stops.ends {r : Retry} {left : Nat} {m : Moment} {made : List (Exchange α)}
    {ending : Ending α} (stops : r.Stops left m made ending) : r.Ends left made ending := by
  match ending, stops with
  | none, last => exact last
  | some (m, answer), .inl last => exact Or.inl last
  | some (m, answer), .inr (.inl ⟨cancelled, _, _, _, meets⟩) =>
      exact Or.inr (Or.inl ⟨cancelled, meets.isCancelled⟩)
  | some (m, answer), .inr (.inr zero) => exact Or.inr (Or.inr zero)

theorem Attempts.nil {r : Retry} {op : Operation α} {tie : Nat → Bool} {n : Nat} {m : Moment} :
    r.Attempts op tie n m [] :=
  ⟨rfl, by simp, by simp, by simp, .nil⟩

theorem Attempts.cons {r : Retry} {op : Operation α} {tie : Nat → Bool} {n : Nat}
    {m later : Moment} {made : List (Exchange α)} (free : m.isCancelled = false)
    (rest : r.Attempts op tie (n + 1) later made)
    (link : ∀ e ∈ made.head?, r.Follows tie (.of op n m) e) :
    r.Attempts op tie n m (.of op n m :: made) := by
  refine ⟨?_, ?_, ?_, ?_, ?_⟩
  · simp only [List.map_cons, List.length_cons, List.range'_succ, rest.numbered]
    rfl
  · intro e mem
    rcases List.mem_cons.1 mem with rfl | mem
    · rfl
    · exact rest.calls e mem
  · intro e first
    obtain rfl := Option.some.inj first
    rfl
  · intro e mem
    rcases List.mem_cons.1 mem with rfl | mem
    · exact free
    · exact rest.heeds e mem
  · exact List.isChain_cons.2 ⟨link, rest.follows⟩

theorem Attempts.single {r : Retry} {op : Operation α} {tie : Nat → Bool} {n : Nat} {m : Moment}
    (free : m.isCancelled = false) : r.Attempts op tie n m [.of op n m] := by
  have none' : r.Attempts op tie (n + 1) m [] := .nil
  exact none'.cons free (by simp)

theorem Stops.cons {r : Retry} {op : Operation α} {tie : Nat → Bool} {left n : Nat}
    {m later next : Moment} {failure : Failure} {made : List (Exchange α)} {ending : Ending α}
    (stops : r.Stops left next made ending) (more : left ≠ 0)
    (failed : (op n m.now).run m = some (later, .error failure))
    (waited : later.wait r.backoff (tie n) = (next, .elapsed)) :
    r.Stops (left + 1) m (.of op n m :: made) ending := by
  have last : ∀ f, made.getLast? = some f → (Exchange.of op n m :: made).getLast? = some f := by
    intro f h
    simp [List.getLast?_cons, h]
  match ending, stops with
  | none, ⟨f, h, never⟩ => exact ⟨f, last f h, never⟩
  | some (found, answer), .inl ⟨f, h, ended, given⟩ =>
      refine Or.inl ⟨f, last f h, ended, ?_⟩
      intro failure failed
      rcases given failure failed with refused | used
      · exact Or.inl refused
      · exact Or.inr (by simp [used])
  | some (found, answer), .inr (.inl ⟨cancelled, fewer, idle, at_, meets⟩) =>
      refine Or.inr (Or.inl ⟨cancelled, by simpa using fewer, ?_⟩)
      rcases at_ with ⟨none', rfl⟩ | ⟨f, failure, h, ended⟩
      · obtain rfl : made = [] := List.getLast?_eq_none_iff.1 none'
        have at_ : Idle m [Exchange.of op n m] later := Or.inr ⟨_, failure, rfl, failed⟩
        exact ⟨later, at_, meets.of_wait_elapsed waited⟩
      · exact ⟨idle, Or.inr ⟨f, failure, last f h, ended⟩, meets⟩
  | some (found, answer), .inr (.inr ⟨zero, _⟩) => exact absurd zero more

/-- A repeated operation makes its attempts one after the other, at most as many as are left, and
ends with them. -/
theorem loop_stops (r : Retry) (op : Operation α) (tie : Nat → Bool) (left : Nat) :
    ∀ (n : Nat) (earlier : List Nat) (m : Moment), ∃ made : List (Exchange α),
      (r.loop op tie left n earlier m).starts = earlier.reverse ++ made.map (·.made.now) ∧
      r.Attempts op tie n m made ∧ made.length ≤ left ∧
      r.Stops left m made (r.loop op tie left n earlier m).ending := by
  induction left with
  | zero =>
      intro n earlier m
      exact ⟨[], by simp [loop], .nil, Nat.le_refl _, Or.inr (Or.inr ⟨rfl, rfl⟩)⟩
  | succ left ih =>
      intro n earlier m
      by_cases cancelled : m.isCancelled = true
      · refine ⟨[], ?_, .nil, Nat.zero_le _, ?_⟩
        · simp [loop, cancelled]
        · rw [loop, if_pos cancelled]
          exact Or.inr (Or.inl ⟨rfl, Nat.zero_lt_succ _, m, Or.inl ⟨rfl, rfl⟩, .self cancelled⟩)
      have free : m.isCancelled = false := by simpa using cancelled
      have alone : (m.now :: earlier).reverse =
          earlier.reverse ++ [Exchange.of op n m].map (·.made.now) := by simp [Exchange.of]
      have few : [Exchange.of op n m].length ≤ left + 1 := by simp
      cases ended : (op n m.now).run m with
      | none =>
          simp only [loop, if_neg cancelled, ended]
          exact ⟨_, alone, .single free, few, _, rfl, ended⟩
      | some result =>
          obtain ⟨later, answer⟩ := result
          cases answer with
          | ok value =>
              simp only [loop, if_neg cancelled, ended]
              refine ⟨_, alone, .single free, few, Or.inl ⟨_, rfl, ended, ?_⟩⟩
              intro failure failed
              cases failed
          | error failure =>
              by_cases stop : (!r.accepts failure || left = 0) = true
              · simp only [loop, if_neg cancelled, ended, if_pos stop]
                refine ⟨_, alone, .single free, few, Or.inl ⟨_, rfl, ended, ?_⟩⟩
                intro other failed
                obtain rfl := Except.error.inj failed
                simpa using stop
              have accepted : r.accepts failure = true := by
                cases h : r.accepts failure with
                | true => rfl
                | false => simp [h] at stop
              have more : left ≠ 0 := by
                rintro rfl
                simp at stop
              cases waited : later.wait r.backoff (tie n) with
              | mk next wake =>
                  cases wake with
                  | cancelled =>
                      simp only [loop, if_neg cancelled, ended, if_neg stop, waited]
                      refine ⟨_, alone, .single free, few, Or.inr (Or.inl ⟨rfl, ?_, later, ?_, ?_⟩)⟩
                      · simpa using Nat.pos_of_ne_zero more
                      · exact Or.inr ⟨_, failure, rfl, ended⟩
                      · exact Moment.moveTo_of_wait_cancelled waited
                  | elapsed =>
                      simp only [loop, if_neg cancelled, ended, if_neg stop, waited]
                      obtain ⟨made, starts, attempts, bound, stops⟩ := ih (n + 1)
                        (m.now :: earlier) next
                      refine ⟨.of op n m :: made, ?_, attempts.cons free ?_, ?_, ?_⟩
                      · rw [starts, alone]
                        simp
                      · intro e first
                        have same := attempts.begins e first
                        exact ⟨later, failure, ended, accepted, same ▸ waited⟩
                      · simpa using bound
                      · exact stops.cons more ended waited

end Retry

end StoreWarden
