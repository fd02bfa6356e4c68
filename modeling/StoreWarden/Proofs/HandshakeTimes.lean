import Mathlib.Algebra.Ring.Nat
import StoreWarden.Proofs.CancelledHandshake

/-!
# How long a handshake takes

Time passes in calls and in waits, and nowhere else.  Every call is made in the moment that the one
before it has led to: at once, or a whole interval later after a turn that has left the state open,
or a whole backoff later after a failed fetch (`Log.Paced`).  So a handshake that nobody cancels
takes the time of its calls, an interval for every status call that has not found initialization
successful, and a backoff between any two fetches, `Log.Lasts`.
-/

set_option autoImplicit false

namespace StoreWarden

open Sidecar (Depth Progress Service)

/-! ## Sums along a chain -/

section Chain

variable {α : Type} {start busy : α → Nat} {gap : Nat} {p : α → Bool}

theorem end_of_spaced (rest : List α) : ∀ {first last : α},
    (first :: rest).IsChain (fun x y => start y = start x + busy x + gap) →
    (first :: rest).getLast? = some last →
    start last + busy last = start first + ((first :: rest).map busy).sum + gap * rest.length := by
  induction rest with
  | nil =>
      intro first last spaced latest
      obtain rfl : first = last := by simpa using latest
      simp
  | cons next rest ih =>
      intro first last spaced latest
      obtain ⟨step, spaced⟩ := List.isChain_cons_cons.1 spaced
      have reached := ih spaced (by simpa using latest)
      have more : gap * (next :: rest).length = gap * rest.length + gap := by
        rw [List.length_cons, Nat.mul_succ]
      simp only [List.map_cons, List.sum_cons] at reached ⊢
      omega

theorem countP_of_chain (rest : List α) : ∀ {first last : α},
    (first :: rest).IsChain (fun x _ => p x = true) → (first :: rest).getLast? = some last →
    p last = false → (first :: rest).countP p = rest.length := by
  induction rest with
  | nil =>
      intro first last chain latest final
      obtain rfl : first = last := by simpa using latest
      simp [final]
  | cons next rest ih =>
      intro first last chain latest final
      obtain ⟨open_, chain⟩ := List.isChain_cons_cons.1 chain
      rw [List.countP_cons_of_pos open_, ih chain (by simpa using latest) final,
        List.length_cons]

end Chain

/-! ## Calls -/

/-- How long it took to the answer, if there is one. -/
def Exchange.duration {α : Type} (e : Exchange α) : Nat :=
  match e.ending with
  | some (answered, _) => answered.now - e.made.now
  | none => 0

theorem Exchange.now_add_duration {α : Type} {op : Retry.Operation α} {e : Exchange α}
    {idle : Moment} {answer : Except Failure α} (own : e = .of op e.number e.made)
    (ended : e.ending = some (idle, answer)) : e.made.now + e.duration = idle.now := by
  have answered := ended
  rw [own] at answered
  have later := (Call.run_later answered).1
  simp only [duration, ended]
  omega

theorem Retry.Attempts.now_of_last {α : Type} {r : Retry} {op : Operation α} {tie : Nat → Bool}
    {n : Nat} {m last : Moment} {made : List (Exchange α)} {e : Exchange α}
    {answer : Except Failure α} (attempts : r.Attempts op tie n m made)
    (latest : made.getLast? = some e) (ended : e.ending = some (last, answer)) :
    last.now = m.now + (made.map Exchange.duration).sum + r.backoff * (made.length - 1) := by
  have spaced : made.IsChain fun e next =>
      next.made.now = e.made.now + e.duration + r.backoff := by
    apply attempts.follows.imp_of_mem_imp
    rintro e next mem - ⟨idle, failure, ended, -, waited⟩
    rw [Exchange.now_add_duration (attempts.calls e mem) ended, Moment.after_of_wait_elapsed waited]
    rfl
  cases made with
  | nil => cases latest
  | cons first rest =>
      have begun := attempts.begins first rfl
      have total := end_of_spaced rest spaced latest
      have own := attempts.calls e (List.mem_of_getLast? latest)
      rw [Exchange.now_add_duration own ended, begun] at total
      exact total

namespace Handshake

variable {h : Handshake} {s : Service} {tie : Nat → Bool} {rounds n k : Nat} {m last : Moment}
  {turns : List Turn} {log : Log}

/-! ## Turns -/

namespace Turn

/-- How long the calls of a turn took. -/
def busy (t : Turn) : Nat := t.status.duration + (t.trigger.map (·.2.duration)).getD 0

def succeeded (t : Turn) : Bool :=
  match t.status.ending with
  | some (_, .ok .successful) => true
  | _ => false

theorem succeeded_iff {t : Turn} :
    t.succeeded = true ↔ ∃ ready, t.status.ending = some (ready, .ok .successful) := by
  unfold succeeded
  constructor
  · intro found
    split at found
    · next ready ended => exact ⟨ready, ended⟩
    · cases found
  · rintro ⟨ready, ended⟩
    simp only [ended]

theorem not_succeeded_of_again {t : Turn} {idle : Moment} (again : t.verdict = .again idle) :
    t.succeeded = false := by
  by_contra other
  obtain ⟨ready, ended⟩ := succeeded_iff.1 (by simpa using other)
  simp [verdict, ended, isFinal, progressOf] at again

theorem answered_of_again {t : Turn} {idle : Moment} (ruled : t.Ruled h)
    (again : t.verdict = .again idle) : t.answered = some idle := by
  rw [answered_eq ruled, again]

end Turn

theorem Turns.now_add_busy (asks : h.Turns s n k m turns) {t : Turn} (mem : t ∈ turns)
    {idle : Moment} (answered : t.answered = some idle) :
    t.status.made.now + t.busy = idle.now := by
  unfold Turn.answered at answered
  unfold Turn.busy
  cases called : t.trigger with
  | none =>
      simp only [called] at answered
      obtain ⟨⟨idle, answer⟩, ended, rfl⟩ := Option.map_eq_some_iff.1 answered
      exact Exchange.now_add_duration (asks.statusCalls t mem) ended
  | some call =>
      obtain ⟨depth, e⟩ := call
      simp only [called] at answered
      obtain ⟨⟨idle, answer⟩, ended, rfl⟩ := Option.map_eq_some_iff.1 answered
      have new := (asks.ruled t mem).status called
      have first := Exchange.now_add_duration (asks.statusCalls t mem) new
      have second := Exchange.now_add_duration (asks.triggerCalls t mem depth e called) ended
      simp only [Option.map_some, Option.getD_some]
      omega

/-- Up to the answer of the last status call, if that is `Successful`. -/
theorem Turns.now_of_last (asks : h.Turns s n k m turns) {t : Turn}
    (latest : turns.getLast? = some t)
    (successful : t.status.ending = some (last, .ok .successful)) :
    last.now = m.now + (turns.map Turn.busy).sum +
      h.pollInterval * turns.countP (fun t => !t.succeeded) := by
  have spaced : turns.IsChain fun t next =>
      next.status.made.now = t.status.made.now + t.busy + h.pollInterval := by
    apply asks.follows.imp_of_mem_imp
    rintro t next mem - ⟨idle, again, waited⟩
    have answered := Turn.answered_of_again (asks.ruled t mem) again
    rw [asks.now_add_busy mem answered, Moment.after_of_wait_elapsed waited]
    rfl
  have unfinished : turns.IsChain fun t _ => (!t.succeeded) = true := by
    apply asks.follows.imp
    rintro t next ⟨idle, again, -⟩
    rw [Turn.not_succeeded_of_again again]
    rfl
  have mem := List.mem_of_getLast? latest
  have answered := Turn.answered_of_successful (asks.ruled t mem) successful
  have finished : (!t.succeeded) = false := by simp [Turn.succeeded, successful]
  cases turns with
  | nil => cases latest
  | cons first rest =>
      have begun := asks.begins first rfl
      have total := end_of_spaced rest spaced latest
      rw [asks.now_add_busy mem answered, begun] at total
      rw [countP_of_chain rest unfinished latest finished]
      exact total

/-! ## The times of a log -/

/-- When the calls of a handshake that begins in `m` are made. -/
structure Log.Paced (h : Handshake) (m : Moment) (log : Log) : Prop where
  begins : ∀ t ∈ log.turns.head?, t.status.made = m
  trigger : ∀ t ∈ log.turns, ∀ depth e, t.trigger = some (depth, e) →
    t.status.ending = some (e.made, .ok .new)
  status : log.turns.IsChain fun t next =>
    ∃ idle, t.answered = some idle ∧ next.status.made = idle.after h.pollInterval
  document : ∀ e ∈ log.fetches.head?, ∃ t, log.turns.getLast? = some t ∧
    t.status.ending = some (e.made, .ok .successful)
  again : log.fetches.IsChain fun e next => ∃ idle failure,
    e.ending = some (idle, .error failure) ∧ next.made = idle.after h.fetchBackoff

theorem Log.Lawful.paced (lawful : log.Lawful h s tie m) : log.Paced h m := by
  constructor
  case begins => exact lawful.asks.begins
  case trigger => exact fun t mem depth e called => (lawful.asks.ruled t mem).status called
  case status =>
    apply lawful.asks.follows.imp_of_mem_imp
    rintro t next mem - ⟨idle, again, waited⟩
    have answered := Turn.answered_of_again (lawful.asks.ruled t mem) again
    exact ⟨idle, answered, Moment.after_of_wait_elapsed waited⟩
  case document =>
    intro e first
    rcases lawful.fetches with none' | ⟨t, ready, latest, successful, attempts⟩
    · simp [none'] at first
    · obtain rfl := attempts.begins e first
      exact ⟨t, latest, successful⟩
  case again =>
    rcases lawful.fetches with none' | ⟨t, ready, -, -, attempts⟩
    · rw [none']
      exact .nil
    · apply attempts.follows.imp
      rintro e next ⟨idle, failure, ended, -, waited⟩
      exact ⟨idle, failure, ended, Moment.after_of_wait_elapsed waited⟩

def Log.busy (log : Log) : Nat :=
  (log.turns.map Turn.busy).sum + (log.fetches.map Exchange.duration).sum

def Log.unfinished (log : Log) : Nat := log.turns.countP fun t => !t.succeeded

/-- A handshake that began in `m` has ended in `last` with its last call, and this is how long it
took. -/
structure Log.Lasts (h : Handshake) (m : Moment) (log : Log) (last : Moment) : Prop where
  ready : ∃ t, log.turns.getLast? = some t ∧ t.succeeded = true
  fetched : log.fetches = [] → h.fetchAttempts = 0
  prompt : log.answered m = some last
  elapsed : last.now = m.now + log.busy + h.pollInterval * log.unfinished +
    h.fetchBackoff * (log.fetches.length - 1)

theorem Log.lasts_of_fetch {made : List (Exchange Path)} {t : Turn} {ready : Moment}
    {e : Exchange Path} {answer : Except Failure Path} (asks : h.Turns s 0 0 m turns)
    (asked : turns.getLast? = some t)
    (successful : t.status.ending = some (ready, .ok .successful))
    (attempts : h.fetching.Attempts s.document tie 0 ready made)
    (latest : made.getLast? = some e) (ended : e.ending = some (last, answer)) :
    Log.Lasts h m ⟨turns, made⟩ last := by
  constructor
  case ready => exact ⟨t, asked, Turn.succeeded_iff.2 ⟨ready, successful⟩⟩
  case fetched =>
    rintro rfl
    cases latest
  case prompt => exact Log.answered_of_fetch latest ended m
  case elapsed =>
    have first := asks.now_of_last asked successful
    have second := attempts.now_of_last latest ended
    rw [first] at second
    simp only [Log.busy, Log.unfinished, fetching] at second ⊢
    omega

theorem Log.lasts_of_unfetched {t : Turn} (unattempted : h.fetchAttempts = 0)
    (asks : h.Turns s 0 0 m turns) (asked : turns.getLast? = some t)
    (successful : t.status.ending = some (last, .ok .successful)) :
    Log.Lasts h m ⟨turns, []⟩ last := by
  constructor
  case ready => exact ⟨t, asked, Turn.succeeded_iff.2 ⟨last, successful⟩⟩
  case fetched => exact fun _ => unattempted
  case prompt =>
    have ruled := asks.ruled t (List.mem_of_getLast? asked)
    rw [Log.answered_of_turn asked, Turn.answered_of_successful ruled successful]
  case elapsed => simpa [Log.busy, Log.unfinished] using asks.now_of_last asked successful

/-! ## The parts of a handshake -/

theorem run_of_polling (polled : (h.poll s rounds 0 0 m).ending = none) :
    h.run s tie rounds m = ⟨(h.poll s rounds 0 0 m).asked, none⟩ :=
  Course.followedBy_of_none polled

theorem run_of_refused {failure : Failure}
    (polled : (h.poll s rounds 0 0 m).ending = some (last, .error failure)) :
    h.run s tie rounds m = ⟨(h.poll s rounds 0 0 m).asked, some (last, .error failure)⟩ := by
  unfold run
  simp [Course.followedBy_of_some polled, Course.silent]

theorem run_of_ready {ready : Moment}
    (polled : (h.poll s rounds 0 0 m).ending = some (ready, .ok ())) :
    h.run s tie rounds m =
      ⟨(h.poll s rounds 0 0 m).asked ++ (h.fetch s tie ready).asked,
        (h.fetch s tie ready).ending.map fun (last, answer) =>
          (last, answer.bind (Engine.Settings.load last.files))⟩ := by
  unfold run
  rw [Course.followedBy_of_some polled]
  cases fetched : (h.fetch s tie ready).ending with
  | none => simp [Course.followedBy_of_none fetched]
  | some result =>
      obtain ⟨last, answer⟩ := result
      cases answer <;> simp [Course.followedBy_of_some fetched, Course.silent, Except.bind]

theorem fetch_of_unattempted (unattempted : h.fetchAttempts = 0) (s : Service) (tie : Nat → Bool)
    (m : Moment) : h.fetch s tie m =
      .silent (some (m, .error (.misuse (.zeroAttempts h.fetching.name)))) := by
  simp only [fetch, Retry.run, fetching, unattempted, Retry.loop, List.reverse_nil, List.map_nil,
    Course.silent]

theorem document_notMem_asked (t : Nat) (turns : List Turn) :
    ⟨t, .document⟩ ∉ turns.flatMap Turn.asked := by
  intro mem
  obtain ⟨turn, -, asked⟩ := List.mem_flatMap.1 mem
  unfold Turn.asked at asked
  cases called : turn.trigger <;> simp [called] at asked

/-- A handshake that has come to this end is not cancelled: it does not answer that it is, unless
that is the answer of a fetch and the cancellation has not fired by then. -/
def Uncancelled (c : Course Engine.Settings) (last : Moment)
    (result : Except Failure Engine.Settings) : Prop :=
  result = .error .cancelled → last.isCancelled = false ∧ ∃ t, ⟨t, .document⟩ ∈ c.asked

theorem lasts_of_fetched {t : Turn} {ready : Moment} {result : Except Failure Engine.Settings}
    (asks : h.Turns s 0 0 m turns) (asked : turns.getLast? = some t)
    (successful : t.status.ending = some (ready, .ok .successful)) {made : List (Exchange Path)}
    (attempts : h.fetching.Attempts s.document tie 0 ready made)
    (stops : h.fetching.Stops h.fetchAttempts ready made (h.fetch s tie ready).ending)
    (bound : made.length ≤ h.fetchAttempts)
    (ended : (h.fetch s tie ready).ending.map (fun (last, answer) =>
      (last, answer.bind (Engine.Settings.load last.files))) = some (last, result))
    (free : result = .error .cancelled → last.isCancelled = false) :
    Log.Lasts h m ⟨turns, made⟩ last := by
  by_cases unattempted : h.fetchAttempts = 0
  · obtain rfl : made = [] := List.length_eq_zero_iff.1 (by omega)
    rw [fetch_of_unattempted unattempted] at ended
    obtain ⟨rfl, -⟩ := Prod.mk.inj (Option.some.inj ended)
    exact Log.lasts_of_unfetched unattempted asks asked successful
  · obtain ⟨⟨found, answer⟩, fetched, same⟩ := Option.map_eq_some_iff.1 ended
    obtain ⟨rfl, rfl⟩ := Prod.mk.inj same
    rw [fetched] at stops
    rcases stops with ⟨e, latest, answered, -⟩ | ⟨rfl, -, idle, -, meets⟩ | ⟨zero, -⟩
    · exact Log.lasts_of_fetch asks asked successful attempts latest answered
    · exact absurd meets.isCancelled (by simp [free rfl])
    · exact absurd zero unattempted

/-- Every handshake makes its calls without delay, and one that is not cancelled takes the time of
its calls and of the waits between them.  One that does not end waits for an answer, or goes on
with more rounds. -/
theorem run_paced (h : Handshake) (s : Service) (tie : Nat → Bool) (rounds : Nat) (m : Moment) :
    ∃ log : Log, (h.run s tie rounds m).asked = log.asked ∧ log.Lawful h s tie m ∧
      log.Paced h m ∧
      (∀ last result, (h.run s tie rounds m).ending = some (last, result) →
        Uncancelled (h.run s tie rounds m) last result → log.Lasts h m last) ∧
      ((h.run s tie rounds m).ending = none →
        log.answered m = none ∨ log.turns.length = rounds) := by
  obtain ⟨turns, asked, asks, stops⟩ := poll_stops h s rounds 0 0 m
  have lawful : Log.Lawful h s tie m ⟨turns, []⟩ := ⟨asks, Or.inl rfl, Nat.zero_le _⟩
  have turnsAsked : (h.poll s rounds 0 0 m).asked = Log.asked ⟨turns, []⟩ := by
    simp [Log.asked, asked]
  cases polled : (h.poll s rounds 0 0 m).ending with
  | none =>
      rw [polled] at stops
      rw [run_of_polling polled]
      refine ⟨⟨turns, []⟩, turnsAsked, lawful, lawful.paced, fun last result ended => ?_, ?_⟩
      · cases ended
      · intro _
        rcases stops with ⟨t, latest, pending⟩ | ⟨used, -⟩
        · have reached := lawful.answered latest
          rw [pending] at reached
          exact Or.inl reached
        · exact Or.inr used
  | some result =>
      obtain ⟨ready, answer⟩ := result
      rw [polled] at stops
      cases answer with
      | error failure =>
          obtain ⟨rfl, -⟩ := stops
          rw [run_of_refused polled]
          refine ⟨⟨turns, []⟩, turnsAsked, lawful, lawful.paced, ?_, fun ended => by cases ended⟩
          -- only the cancellation ends asking for the state in this way
          intro last result ended uncancelled
          obtain ⟨rfl, rfl⟩ := Prod.mk.inj (Option.some.inj ended)
          obtain ⟨-, t, mem⟩ := uncancelled rfl
          rw [asked] at mem
          exact absurd mem (document_notMem_asked t turns)
      | ok done =>
          obtain ⟨t, latest, successful⟩ := stops
          obtain ⟨made, fetches, attempts, bound, stops⟩ := h.fetch_stops s tie ready
          rw [run_of_ready polled]
          have lawful : Log.Lawful h s tie m ⟨turns, made⟩ :=
            ⟨asks, Or.inr ⟨t, ready, latest, successful, attempts⟩, bound⟩
          refine ⟨⟨turns, made⟩, ?_, lawful, lawful.paced, ?_, ?_⟩
          · simp only [Log.asked, asked, fetches]
          · intro last result ended uncancelled
            exact lasts_of_fetched asks latest successful attempts stops bound ended
              fun cancelled => (uncancelled cancelled).1
          · intro endless
            rw [Option.map_eq_none_iff.1 endless] at stops
            obtain ⟨e, latest, never⟩ := stops
            exact Or.inl (Log.answered_of_fetch latest never m)

/-- A sidecar that fails in each of the ways that are made good. -/
def hesitant : Service where
  status n _ := ⟨some (n + 1), true, false, fun fs => (fs,
    if n = 0 then .ok .new else if n = 1 then .error (.http .timeout) else .ok .successful)⟩
  trigger _ _ _ := ⟨some 3, true, false, fun fs => (fs, .error (.http .connect))⟩
  document n _ := ⟨some 2, true, false, fun fs => (fs,
    if n = 0 then .error (.http .body) else .ok (Path.ofString "etcd.yaml"))⟩

/-- Six calls take 13 in all; two intervals and a backoff, of 10 each, come to them. -/
theorem run_paced_hesitant :
    ∃ log : Log, log.asked = [⟨0, .status⟩, ⟨1, .trigger .full⟩, ⟨14, .status⟩, ⟨26, .status⟩,
        ⟨29, .document⟩, ⟨41, .document⟩] ∧
      log.Paced brisk ⟨0, .never, .empty⟩ ∧
      log.Lasts brisk ⟨0, .never, .empty⟩ ⟨43, .never, .empty⟩ := by
  obtain ⟨log, asked, -, paced, lasts, -⟩ :=
    run_paced brisk hesitant (fun _ => true) 3 ⟨0, .never, .empty⟩
  have calls : (brisk.run hesitant (fun _ => true) 3 ⟨0, .never, .empty⟩).asked =
      [⟨0, .status⟩, ⟨1, .trigger .full⟩, ⟨14, .status⟩, ⟨26, .status⟩, ⟨29, .document⟩,
        ⟨41, .document⟩] := by decide +kernel
  have ending : ∃ result, (brisk.run hesitant (fun _ => true) 3 ⟨0, .never, .empty⟩).ending =
      some (⟨43, .never, .empty⟩, result) := ⟨_, rfl⟩
  obtain ⟨result, ending⟩ := ending
  have uncancelled : Uncancelled (brisk.run hesitant (fun _ => true) 3 ⟨0, .never, .empty⟩)
      ⟨43, .never, .empty⟩ result := by
    refine fun _ => ⟨rfl, 29, ?_⟩
    rw [calls]
    decide
  exact ⟨log, asked.symm.trans calls, paced, lasts _ _ ending uncancelled⟩

end Handshake

end StoreWarden
