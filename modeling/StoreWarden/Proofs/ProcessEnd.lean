import Mathlib.Logic.Relation
import Mathlib.Order.Nat
import Mathlib.Tactic.Push
import StoreWarden.Command

/-!
# The end of a process

A process that runs does two things side by side: it runs, and it listens for signals.  Either may
end it, the run with its answer and the second signal at once.  Of two things that come at one time
either may go first, and time passes only while nothing else can happen.

`Open` and `Ended` tell all that a course can have come to.
-/

set_option autoImplicit false

namespace StoreWarden

open Shutdown (Act Stage)

structure Process where
  now : Nat
  ahead : List (Nat × Signal)
  handled : List Signal
  stage : Stage
  /-- What was done on signals, and when. -/
  acts : List (Nat × Act)
  code : Option Nat

namespace Process

def start (signals : List (Nat × Signal)) : Process := ⟨0, signals, [], .watching, [], none⟩

/-- What may happen next, if it is known when the run ends and how. -/
inductive Step (result : Option (Nat × Except Failure Unit)) : Process → Process → Prop
  | handles {now t : Nat} {signal : Signal} {ahead : List (Nat × Signal)} {handled : List Signal}
      {stage next : Stage} {acts : List (Nat × Act)} {more : List Act} (due : t ≤ now)
      (takes : stage.take signal = (next, more)) :
      Step result ⟨now, (t, signal) :: ahead, handled, stage, acts, none⟩
        ⟨now, ahead, handled ++ [signal], next, acts ++ more.map (now, ·),
          if .exit ∈ more then some Shutdown.forcedExitCode else none⟩
  /-- Nothing comes between the end of the run and that of the process. -/
  | returns {now last : Nat} {answer : Except Failure Unit} {ahead : List (Nat × Signal)}
      {handled : List Signal} {stage : Stage} {acts : List (Nat × Act)}
      (ended : result = some (last, answer)) (past : last ≤ now) :
      Step result ⟨now, ahead, handled, stage, acts, none⟩
        ⟨now, ahead, handled, stage, acts, some (Report.ofAnswer answer).code⟩
  | passes {now : Nat} {ahead : List (Nat × Signal)} {handled : List Signal} {stage : Stage}
      {acts : List (Nat × Act)} (quiet : ∀ e ∈ ahead.head?, now < e.1)
      (runs : ∀ e ∈ result, now < e.1) :
      Step result ⟨now, ahead, handled, stage, acts, none⟩
        ⟨now + 1, ahead, handled, stage, acts, none⟩

variable {signals : List (Nat × Signal)} {result : Option (Nat × Except Failure Unit)}
  {p q : Process}

theorem code_of_step (step : Step result p q) : p.code = none := by
  cases step <;> rfl

theorem now_of_step (step : Step result p q) (stops : q.code ≠ none) : q.now = p.now := by
  cases step with
  | passes => exact absurd rfl stops
  | handles | returns => rfl

variable (result) in
theorem exists_step (running : p.code = none) : ∃ q, Step result p q := by
  obtain ⟨now, ahead, handled, stage, acts, code⟩ := p
  obtain rfl : code = none := running
  by_cases quiet : ∀ e ∈ ahead.head?, now < e.1
  · by_cases runs : ∀ e ∈ result, now < e.1
    · exact ⟨_, .passes quiet runs⟩
    · push Not at runs
      obtain ⟨⟨last, answer⟩, ended, past⟩ := runs
      exact ⟨_, .returns ended past⟩
  · push Not at quiet
    obtain ⟨⟨t, signal⟩, first, due⟩ := quiet
    obtain ⟨rest, rfl⟩ := List.head?_eq_some_iff.1 first
    exact ⟨_, .handles due rfl⟩

/-! ## What a course comes to -/

/-- A process that has not ended has handled every signal at its time, and its run has not ended
before. -/
inductive Open (signals : List (Nat × Signal)) (result : Option (Nat × Except Failure Unit)) :
    Process → Prop
  | watching {now : Nat} (quiet : ∀ e ∈ signals.head?, now ≤ e.1)
      (runs : ∀ e ∈ result, now ≤ e.1) :
      Open signals result ⟨now, signals, [], .watching, [], none⟩
  | stopping {now t : Nat} {signal : Signal} {ahead : List (Nat × Signal)}
      (first : signals = (t, signal) :: ahead) (past : t ≤ now)
      (quiet : ∀ e ∈ ahead.head?, now ≤ e.1) (runs : ∀ e ∈ result, now ≤ e.1) :
      Open signals result
        ⟨now, ahead, [signal], .stopping, [(t, .record signal), (t, .cancel)], none⟩

inductive Ended (signals : List (Nat × Signal)) (result : Option (Nat × Except Failure Unit)) :
    Process → Prop
  | forced {t u : Nat} {signal other : Signal} {ahead : List (Nat × Signal)}
      (first : signals = (t, signal) :: (u, other) :: ahead) (runs : ∀ e ∈ result, u ≤ e.1) :
      Ended signals result
        ⟨u, ahead, [signal, other], .over, [(t, .record signal), (t, .cancel), (u, .exit)],
          some Shutdown.forcedExitCode⟩
  | returned {p : Process} {answer : Except Failure Unit} (open_ : Open signals result p)
      (ended : result = some (p.now, answer)) :
      Ended signals result { p with code := some (Report.ofAnswer answer).code }

def Stands (signals : List (Nat × Signal)) (result : Option (Nat × Except Failure Unit))
    (p : Process) : Prop :=
  Open signals result p ∨ Ended signals result p

theorem Open.code_eq (open_ : Open signals result p) : p.code = none := by
  cases open_ <;> rfl

theorem Open.runs (open_ : Open signals result p) : ∀ e ∈ result, p.now ≤ e.1 := by
  cases open_ with
  | watching _ runs | stopping _ _ _ runs => exact runs

theorem Ended.code_ne (ended : Ended signals result p) : p.code ≠ none := by
  cases ended <;> simp

theorem Open.quiet (open_ : Open signals result p) : ∀ e ∈ p.ahead.head?, p.now ≤ e.1 := by
  cases open_ with
  | watching quiet | stopping _ _ quiet => exact quiet

theorem second_eq_some_iff {α : Type} {l : List α} {b : α} :
    l[1]? = some b ↔ ∃ a rest, l = a :: b :: rest := by
  rcases l with _ | ⟨a, _ | ⟨c, rest⟩⟩ <;> simp

/-- The second signal comes no earlier than the next one. -/
theorem Open.le_second (ordered : signals.Pairwise (·.1 ≤ ·.1)) (open_ : Open signals result p)
    {t : Nat} (quiet : ∀ e ∈ p.ahead.head?, t ≤ e.1) : ∀ e ∈ signals[1]?, t ≤ e.1 := by
  intro e second
  cases open_ with
  | watching =>
      obtain ⟨a, rest, rfl⟩ := second_eq_some_iff.1 second
      have later := List.rel_of_pairwise_cons ordered (List.mem_cons_self ..)
      exact Nat.le_trans (quiet a rfl) later
  | stopping first =>
      subst first
      rw [List.getElem?_cons_succ, ← List.head?_eq_getElem?] at second
      exact quiet e second

theorem Stands.open (stands : Stands signals result p) (running : p.code = none) :
    Open signals result p :=
  stands.resolve_right fun ended => ended.code_ne running

theorem Stands.ended (stands : Stands signals result p) {code : Nat} (stops : p.code = some code) :
    Ended signals result p := by
  refine stands.resolve_left fun open_ => ?_
  cases open_.code_eq.symm.trans stops

theorem stands_start : Stands signals result (start signals) :=
  Or.inl (.watching (fun _ _ => Nat.zero_le _) fun _ _ => Nat.zero_le _)

theorem Open.step (ordered : signals.Pairwise (·.1 ≤ ·.1)) (step : Step result p q)
    (open_ : Open signals result p) : Stands signals result q := by
  cases step with
  | @returns now last answer _ _ _ _ ended past =>
      have same : last = now := Nat.le_antisymm past (open_.runs _ ended)
      subst same
      exact Or.inr (.returned open_ ended)
  | passes quiet runs =>
      cases open_ with
      | watching => exact Or.inl (.watching quiet runs)
      | stopping first past => exact Or.inl (.stopping first (Nat.le_succ_of_le past) quiet runs)
  | @handles now t signal ahead _ _ _ _ _ due takes =>
      cases open_ with
      | watching quiet runs =>
          obtain rfl : t = now := Nat.le_antisymm due (quiet _ rfl)
          obtain ⟨rfl, rfl⟩ := by simpa [Stage.take] using takes
          refine Or.inl (.stopping rfl (Nat.le_refl t) ?_ runs)
          intro e next
          exact List.rel_of_pairwise_cons ordered (List.mem_of_mem_head? next)
      | stopping first past quiet runs =>
          obtain rfl : t = now := Nat.le_antisymm due (quiet _ rfl)
          obtain ⟨rfl, rfl⟩ := by simpa [Stage.take] using takes
          exact Or.inr (.forced first runs)

theorem Stands.step (ordered : signals.Pairwise (·.1 ≤ ·.1)) (step : Step result p q)
    (stands : Stands signals result p) : Stands signals result q :=
  (stands.open (code_of_step step)).step ordered step

theorem stands_of_reaches (ordered : signals.Pairwise (·.1 ≤ ·.1))
    (course : Relation.ReflTransGen (Step result) (start signals) p) :
    Stands signals result p := by
  induction course with
  | refl => exact stands_start
  | tail _ step ih => exact ih.step ordered step

/-! ## Exit codes -/

theorem ofFailure_code {failure : Failure} (own : ∀ d, failure ≠ .defect d) :
    (Report.ofFailure failure).code = 1 := by
  cases failure with
  | defect d => exact absurd rfl (own d)
  | document _ | io _ | http _ | sidecar _ _ | tls _ _ | settings _ | engine _ | probe _
  | cancelled | misuse _ => rfl

theorem Open.handled (open_ : Open signals result p) : p.handled.length ≤ 1 := by
  cases open_ <;> simp

/-- The code is 0 if the run has ended in order, 101 if an assumption was broken, and 1 otherwise;
and 1 in any case if a second signal was handled. -/
theorem Ended.code (ended : Ended signals result p) :
    (p.code = some 0 ∧ (∃ last, result = some (last, .ok ())) ∧ p.handled.length ≤ 1) ∨
      (p.code = some Report.brokenCode ∧ (∃ last d, result = some (last, .error (.defect d))) ∧
        p.handled.length ≤ 1) ∨
      (p.code = some 1 ∧ (p.handled.length ≤ 1 → ∃ last failure, (∀ d, failure ≠ .defect d) ∧
        result = some (last, .error failure))) := by
  cases ended with
  | forced => exact Or.inr (Or.inr ⟨rfl, fun few => absurd few (by simp)⟩)
  | @returned p answer open_ ended =>
      cases answer with
      | ok done => exact Or.inl ⟨rfl, ⟨p.now, ended⟩, open_.handled⟩
      | error failure =>
          by_cases broken : ∃ d, failure = .defect d
          · obtain ⟨d, rfl⟩ := broken
            exact Or.inr (Or.inl ⟨rfl, ⟨p.now, d, ended⟩, open_.handled⟩)
          · have own (d : Defect) : failure ≠ .defect d := fun same => broken ⟨d, same⟩
            refine Or.inr (Or.inr ⟨congrArg some (ofFailure_code own), ?_⟩)
            exact fun _ => ⟨p.now, failure, own, ended⟩

/-- A second signal is handled only before the run ends or when it does. -/
theorem Ended.of_second (ended : Ended signals result p) (second : 1 < p.handled.length) :
    ∃ e, signals[1]? = some e ∧ p.now = e.1 ∧ ∀ r ∈ result, e.1 ≤ r.1 := by
  cases ended with
  | @forced _ u _ other _ first runs =>
      subst first
      exact ⟨(u, other), rfl, rfl, runs⟩
  | returned open_ => exact absurd open_.handled (Nat.not_le.2 second)

/-- A run that ends the process ends before a second signal comes or when it does. -/
theorem Ended.of_first (ordered : signals.Pairwise (·.1 ≤ ·.1)) (ended : Ended signals result p)
    (few : p.handled.length ≤ 1) :
    ∃ answer, result = some (p.now, answer) ∧ p.code = some (Report.ofAnswer answer).code ∧
      ∀ e ∈ signals[1]?, p.now ≤ e.1 := by
  cases ended with
  | forced => simp at few
  | @returned p answer open_ ended =>
      have before := open_.le_second ordered open_.quiet
      exact ⟨answer, ended, rfl, before⟩

/-- The run is cancelled when the first signal comes, and not otherwise. -/
theorem Stands.cancel_mem (stands : Stands signals result p) :
    (∀ t, (t, .cancel) ∈ p.acts → signals.head?.map (·.1) = some t) ∧
      ∀ t, signals.head?.map (·.1) = some t → t < p.now → (t, .cancel) ∈ p.acts := by
  have of_open {p : Process} (open_ : Open signals result p) :
      (∀ t, (t, .cancel) ∈ p.acts → signals.head?.map (·.1) = some t) ∧
        ∀ t, signals.head?.map (·.1) = some t → t < p.now → (t, .cancel) ∈ p.acts := by
    cases open_ with
    | watching quiet =>
        refine ⟨by simp, ?_⟩
        intro t first before
        obtain ⟨e, head, rfl⟩ := Option.map_eq_some_iff.1 first
        exact absurd (quiet e head) (Nat.not_le.2 before)
    | stopping first =>
        subst first
        simp
  rcases stands with open_ | ended
  · exact of_open open_
  · cases ended with
    | returned open_ =>
        have cancels := of_open open_
        exact cancels
    | forced first =>
        subst first
        simp

/-! ## Courses end -/

/-- A course with an end of the run, or a second signal, does not go on for ever. -/
theorem Stands.halts (ordered : signals.Pairwise (·.1 ≤ ·.1)) {bound : Nat}
    (ends : result.map (·.1) = some bound ∨ (signals[1]?).map (·.1) = some bound)
    (stands : Stands signals result p) : Acc (fun q p => Step result p q) p := by
  induction left : (bound - p.now) + p.ahead.length using Nat.strongRecOn generalizing p with
  | ind n ih =>
      refine Acc.intro p fun q step => ?_
      have open_ := stands.open (code_of_step step)
      have next := open_.step ordered step
      cases step with
      | returns =>
          refine Acc.intro _ fun _ more => ?_
          cases code_of_step more
      | handles =>
          refine ih _ ?_ next rfl
          rw [← left]
          exact Nat.add_lt_add_left (Nat.lt_succ_self _) _
      | @passes now ahead _ _ _ quiet runs =>
          have early : now < bound := by
            rcases ends with ends | ends
            · obtain ⟨e, ended, rfl⟩ := Option.map_eq_some_iff.1 ends
              exact runs e ended
            · obtain ⟨e, second, rfl⟩ := Option.map_eq_some_iff.1 ends
              exact open_.le_second ordered quiet e second
          refine ih _ ?_ next rfl
          rw [← left]
          exact Nat.add_lt_add_right (Nat.sub_lt_sub_left early (Nat.lt_succ_self now)) _

/-- Every course that does not go on for ever can be continued to an end. -/
theorem exists_end (halts : Acc (fun q p => Step result p q) p) :
    ∃ q, Relation.ReflTransGen (Step result) p q ∧ q.code ≠ none := by
  induction halts with
  | intro p _ ih =>
      by_cases running : p.code = none
      · obtain ⟨next, step⟩ := exists_step result running
        obtain ⟨q, course, stops⟩ := ih next step
        exact ⟨q, .head step course, stops⟩
      · exact ⟨p, .refl, running⟩

/-- The run may go first even if a second signal comes when it ends. -/
theorem exists_returned (ordered : signals.Pairwise (·.1 ≤ ·.1)) {last : Nat}
    {answer : Except Failure Unit} (ended : result = some (last, answer))
    (first : ∀ e ∈ signals[1]?, last ≤ e.1) (open_ : Open signals result p) :
    ∃ q, Relation.ReflTransGen (Step result) p q ∧
      q.code = some (Report.ofAnswer answer).code := by
  have halts : Acc (fun q p => Step result p q) p :=
    Stands.halts ordered (Or.inl (by rw [ended]; rfl)) (Or.inl open_)
  induction halts with
  | intro p _ ih =>
      rcases Nat.lt_or_eq_of_le (open_.runs _ ended) with early | now
      · obtain ⟨next, step⟩ := exists_step result open_.code_eq
        rcases open_.step ordered step with still | stops
        · obtain ⟨q, course, code⟩ := ih next step still
          exact ⟨q, .head step course, code⟩
        · -- neither the run nor a second signal can have ended the process so early
          have now := now_of_step step stops.code_ne
          rcases Nat.lt_or_ge 1 next.handled.length with second | few
          · obtain ⟨e, comes, at_, -⟩ := stops.of_second second
            have late := first e comes
            omega
          · obtain ⟨_, same, -⟩ := stops.of_first ordered few
            rw [ended, Option.some.injEq, Prod.mk.injEq] at same
            omega
      · obtain ⟨now', ahead, handled, stage, acts, code⟩ := p
        obtain rfl : code = none := open_.code_eq
        exact ⟨_, .single (.returns ended (Nat.le_of_eq now.symm)), rfl⟩

end Process

end StoreWarden
