import StoreWarden.Handshake
import StoreWarden.Proofs.RetryAttempts

/-!
# The log of a handshake

A handshake is seen by the sidecar as turns of asking for the state, each with a trigger call or
without one, and then as attempts to fetch the document.  `Turn.verdict` says where a turn leaves
the handshake, and `poll_succ` reads one round of asking as one turn; a whole run is then an
induction on the rounds.
-/

set_option autoImplicit false

namespace StoreWarden

open Sidecar (Asked Depth Progress Service)

namespace Course

theorem followedBy_of_none {α β : Type} {c : Course α}
    {next : Moment → Except Failure α → Course β} (h : c.ending = none) :
    c.followedBy next = ⟨c.asked, none⟩ := by
  simp only [followedBy, h]

theorem followedBy_of_some {α β : Type} {c : Course α}
    {next : Moment → Except Failure α → Course β} {m : Moment} {answer : Except Failure α}
    (h : c.ending = some (m, answer)) :
    c.followedBy next = ⟨c.asked ++ (next m answer).asked, (next m answer).ending⟩ := by
  simp only [followedBy, h]

end Course

namespace Handshake

/-- A status call, and the trigger call after it with its depth, if one was made. -/
structure Turn where
  status : Exchange Progress
  trigger : Option (Depth × Exchange Unit)

/-- Where a turn leaves the handshake. -/
inductive Verdict where
  /-- A call never ended. -/
  | pending
  | ready (m : Moment)
  | cancelled (m : Moment)
  | again (m : Moment)

namespace Turn

def asked (t : Turn) : List Asked :=
  ⟨t.status.made.now, .status⟩ ::
    (t.trigger.map fun (depth, e) => ⟨e.made.now, .trigger depth⟩).toList

def verdict (t : Turn) : Verdict :=
  match t.status.ending with
  | none => .pending
  | some (m, answer) =>
    if isFinal answer then .cancelled m
    else if progressOf answer = .successful then .ready m
    else
      match t.trigger with
      | none => .again m
      | some (_, e) =>
        match e.ending with
        | none => .pending
        | some (m, answer) => if isFinal answer then .cancelled m else .again m

/-- A trigger call is made exactly if the status call has answered `New`: in the very moment of
the answer, and with the depth that the record calls for then. -/
def Ruled (h : Handshake) (t : Turn) : Prop :=
  t.trigger.map (fun (depth, e) => (depth, e.made)) =
    match t.status.ending with
    | some (m, .ok .new) => some (h.record.depth m.files, m)
    | _ => none

/-- Another turn comes only after one that has left the state open, once the wait has passed. -/
def Follows (h : Handshake) (t next : Turn) : Prop :=
  ∃ m, t.verdict = .again m ∧ m.wait h.pollInterval false = (next.status.made, .elapsed)

end Turn

/-- Turns of a handshake with a service, the first in `m`.  Their status calls are numbered from
`n` and their trigger calls from `k`. -/
structure Turns (h : Handshake) (s : Service) (n k : Nat) (m : Moment) (turns : List Turn) :
    Prop where
  numbered : turns.map (·.status.number) = List.range' n turns.length
  counted : (turns.filterMap (·.trigger)).map (·.2.number) =
    List.range' k (turns.filterMap (·.trigger)).length
  statusCalls : ∀ t ∈ turns, t.status = .of s.status t.status.number t.status.made
  triggerCalls : ∀ t ∈ turns, ∀ depth e, t.trigger = some (depth, e) →
    e = .of (s.trigger · · depth) e.number e.made
  ruled : ∀ t ∈ turns, t.Ruled h
  begins : ∀ t ∈ turns.head?, t.status.made = m
  heeds : ∀ t ∈ turns, t.status.made.isCancelled = false
  follows : turns.IsChain (Turn.Follows h)

/-- How asking for at most a number of rounds ends. -/
def PollEnds (rounds : Nat) (turns : List Turn) : Ending Unit → Prop
  | none => turns.length = rounds ∨ ∃ t, turns.getLast? = some t ∧ t.verdict = .pending
  | some (m, .ok _) => ∃ t, turns.getLast? = some t ∧ t.status.ending = some (m, .ok .successful)
  | some (m, .error failure) => failure = .cancelled ∧
      (m.isCancelled = true ∨ ∃ t, turns.getLast? = some t ∧ t.verdict = .cancelled m)

/-- Between two turns, or before the first. -/
def Waiting (m : Moment) (turns : List Turn) (idle : Moment) : Prop :=
  turns.getLast? = none ∧ idle = m ∨ ∃ t, turns.getLast? = some t ∧ t.verdict = .again idle

/-- How asking for at most a number of rounds, from `m` on, ends.  Where it does not end, either a
call has not, or the cancellation is still ahead once the wait after the last round has passed. -/
def PollStops (h : Handshake) (rounds : Nat) (m : Moment) (turns : List Turn) : Ending Unit → Prop
  | none => (∃ t, turns.getLast? = some t ∧ t.verdict = .pending) ∨
      (turns.length = rounds ∧ ∀ t, turns.getLast? = some t → ∃ idle, t.verdict = .again idle ∧
        (idle.after h.pollInterval).isCancelled = false ∧
        m.now + rounds * h.pollInterval ≤ idle.now + h.pollInterval)
  | some (last, .ok _) =>
      ∃ t, turns.getLast? = some t ∧ t.status.ending = some (last, .ok .successful)
  | some (last, .error failure) => failure = .cancelled ∧
      ((∃ t, turns.getLast? = some t ∧ t.verdict = .cancelled last) ∨
        ∃ idle, Waiting m turns idle ∧ idle.Meets last)

theorem PollStops.ends {h : Handshake} {rounds : Nat} {m : Moment} {turns : List Turn}
    {ending : Ending Unit} (stops : h.PollStops rounds m turns ending) :
    PollEnds rounds turns ending := by
  match ending, stops with
  | none, .inl pending => exact Or.inr pending
  | none, .inr ⟨used, _⟩ => exact Or.inl used
  | some (last, .ok _), ready => exact ready
  | some (last, .error _), ⟨same, .inl answered⟩ => exact ⟨same, Or.inr answered⟩
  | some (last, .error _), ⟨same, .inr ⟨idle, _, meets⟩⟩ =>
      exact ⟨same, Or.inl meets.isCancelled⟩

/-! ## One round of asking -/

/-- The turn that a round of asking comes to. -/
def turn (h : Handshake) (s : Service) (n k : Nat) (m : Moment) : Turn :=
  ⟨.of s.status n m,
    match (s.status n m.now).run m with
    | some (m, .ok .new) =>
      some (h.record.depth m.files, .of (s.trigger · · (h.record.depth m.files)) k m)
    | _ => none⟩

theorem isFinal_iff {α : Type} (answer : Except Failure α) :
    isFinal answer = true ↔ answer = .error .cancelled := by
  cases answer with
  | ok value => simp [isFinal]
  | error failure => simp [isFinal, Failure.isCancelled_iff]

theorem progressOf_eq_successful {answer : Except Failure Progress}
    (h : progressOf answer = .successful) : answer = .ok .successful := by
  cases answer with
  | ok progress => exact congrArg Except.ok h
  | error failure => cases h

theorem Turn.status_of_verdict_ready {t : Turn} {m : Moment} (h : t.verdict = .ready m) :
    t.status.ending = some (m, .ok .successful) := by
  unfold verdict at h
  cases ended : t.status.ending with
  | none => simp [ended] at h
  | some result =>
      obtain ⟨later, answer⟩ := result
      simp only [ended] at h
      by_cases final : isFinal answer = true
      · simp [final] at h
      by_cases done : progressOf answer = .successful
      · rw [if_neg final, if_pos done] at h
        rw [Verdict.ready.inj h, progressOf_eq_successful done]
      rw [if_neg final, if_neg done] at h
      cases called : t.trigger with
      | none => simp [called] at h
      | some call =>
          simp only [called] at h
          cases answered : call.2.ending with
          | none => simp [answered] at h
          | some result =>
              simp only [answered] at h
              by_cases final : isFinal result.2 = true
              · simp [final] at h
              · simp [final] at h

/-- One round of asking is one turn, and its verdict says how the asking goes on. -/
theorem poll_succ (h : Handshake) (s : Service) (rounds n k : Nat) (m : Moment) :
    h.poll s (rounds + 1) n k m =
      if m.isCancelled then .silent (some (m, .error .cancelled))
      else
        let t := h.turn s n k m
        match t.verdict with
        | .pending => ⟨t.asked, none⟩
        | .ready m => ⟨t.asked, some (m, .ok ())⟩
        | .cancelled m => ⟨t.asked, some (m, .error .cancelled)⟩
        | .again m =>
          match m.wait h.pollInterval false with
          | (m, .cancelled) => ⟨t.asked, some (m, .error .cancelled)⟩
          | (m, .elapsed) =>
            let rest := h.poll s rounds (n + 1) (k + t.trigger.toList.length) m
            ⟨t.asked ++ rest.asked, rest.ending⟩ := by
  by_cases cancelled : m.isCancelled = true
  · simp [poll, cancelled]
  simp only [poll, if_neg cancelled, Course.ask, Course.followedBy, Course.silent, turn,
    Turn.verdict, Exchange.of, Turn.asked]
  cases ended : (s.status n m.now).run m with
  | none => rfl
  | some result =>
      obtain ⟨later, answer⟩ := result
      by_cases final : isFinal answer = true
      · obtain rfl := (isFinal_iff answer).1 final
        simp [isFinal, Failure.isCancelled]
      simp only [if_neg final]
      cases answer with
      | error failure =>
          simp only [progressOf]
          cases waited : later.wait h.pollInterval false with
          | mk next wake => cases wake <;> simp [waited]
      | ok progress =>
          cases progress with
          | successful => simp [progressOf]
          | new =>
              simp only [progressOf]
              cases called : (s.trigger k later.now (h.record.depth later.files)).run later with
              | none => simp
              | some result =>
                  obtain ⟨after, answer⟩ := result
                  by_cases final : isFinal answer = true
                  · simp [final]
                  cases waited : after.wait h.pollInterval false with
                  | mk next wake => cases wake <;> simp [final, waited]
          | unknown | inProgress =>
              simp only [progressOf]
              cases waited : later.wait h.pollInterval false with
              | mk next wake => cases wake <;> simp [waited]

/-! ## All rounds -/

theorem turn_ruled (h : Handshake) (s : Service) (n k : Nat) (m : Moment) :
    (h.turn s n k m).Ruled h := by
  unfold Turn.Ruled turn Exchange.of
  cases (s.status n m.now).run m with
  | none => rfl
  | some result =>
      obtain ⟨later, answer⟩ := result
      cases answer with
      | error failure => rfl
      | ok progress => cases progress <;> rfl

theorem turn_trigger {h : Handshake} {s : Service} {n k : Nat} {m : Moment} {depth : Depth}
    {e : Exchange Unit} (called : (h.turn s n k m).trigger = some (depth, e)) :
    e.number = k ∧ e = .of (s.trigger · · depth) e.number e.made := by
  unfold turn at called
  split at called
  · obtain ⟨rfl, rfl⟩ := Prod.mk.inj (Option.some.inj called)
    exact ⟨rfl, rfl⟩
  · cases called

theorem Turns.nil {h : Handshake} {s : Service} {n k : Nat} {m : Moment} :
    h.Turns s n k m [] :=
  ⟨rfl, rfl, by simp, by simp, by simp, by simp, by simp, .nil⟩

theorem Turns.cons {h : Handshake} {s : Service} {n k : Nat} {m later : Moment}
    {turns : List Turn} (free : m.isCancelled = false)
    (rest : h.Turns s (n + 1) (k + (h.turn s n k m).trigger.toList.length) later turns)
    (link : ∀ t ∈ turns.head?, Turn.Follows h (h.turn s n k m) t) :
    h.Turns s n k m (h.turn s n k m :: turns) := by
  have counted := rest.counted
  refine ⟨?_, ?_, ?_, ?_, ?_, ?_, ?_, ?_⟩
  · simp only [List.map_cons, List.length_cons, List.range'_succ, rest.numbered]
    rfl
  · cases called : (h.turn s n k m).trigger with
    | none => simpa [called] using counted
    | some call =>
        have number := (turn_trigger called).1
        simp only [called, Option.toList_some, List.length_singleton] at counted
        simp [called, counted, List.range'_succ, number]
  · intro t mem
    rcases List.mem_cons.1 mem with rfl | mem
    · rfl
    · exact rest.statusCalls t mem
  · intro t mem depth e called
    rcases List.mem_cons.1 mem with rfl | mem
    · exact (turn_trigger called).2
    · exact rest.triggerCalls t mem depth e called
  · intro t mem
    rcases List.mem_cons.1 mem with rfl | mem
    · exact turn_ruled h s n k m
    · exact rest.ruled t mem
  · intro t first
    obtain rfl := Option.some.inj first
    rfl
  · intro t mem
    rcases List.mem_cons.1 mem with rfl | mem
    · exact free
    · exact rest.heeds t mem
  · exact List.isChain_cons.2 ⟨link, rest.follows⟩

theorem Turns.single {h : Handshake} {s : Service} {n k : Nat} {m : Moment}
    (free : m.isCancelled = false) : h.Turns s n k m [h.turn s n k m] := by
  have none' : h.Turns s (n + 1) (k + (h.turn s n k m).trigger.toList.length) m [] := .nil
  exact none'.cons free (by simp)

theorem le_of_verdict_again {h : Handshake} {s : Service} {n k : Nat} {m idle : Moment}
    (again : (h.turn s n k m).verdict = .again idle) : m.now ≤ idle.now := by
  unfold Turn.verdict turn Exchange.of at again
  cases answered : (s.status n m.now).run m with
  | none => simp [answered] at again
  | some result =>
      obtain ⟨later, answer⟩ := result
      have first := (Call.run_later answered).1
      simp only [answered] at again
      by_cases final : isFinal answer = true
      · simp [final] at again
      by_cases done : progressOf answer = .successful
      · simp [final, done] at again
      rw [if_neg final, if_neg done] at again
      cases answer with
      | error failure => exact Verdict.again.inj again ▸ first
      | ok progress =>
          cases progress with
          | unknown | inProgress | successful => exact Verdict.again.inj again ▸ first
          | new =>
              simp only at again
              cases called : (s.trigger k later.now (h.record.depth later.files)).run later with
              | none => simp [called] at again
              | some result =>
                  have second := (Call.run_later called).1
                  simp only [called] at again
                  split at again
                  · cases again
                  · exact Verdict.again.inj again ▸ first.trans second

theorem PollStops.cons {h : Handshake} {s : Service} {rounds n k : Nat} {m later next : Moment}
    {turns : List Turn} {ending : Ending Unit} (stops : h.PollStops rounds next turns ending)
    (again : (h.turn s n k m).verdict = .again later)
    (waited : later.wait h.pollInterval false = (next, .elapsed)) :
    h.PollStops (rounds + 1) m (h.turn s n k m :: turns) ending := by
  have last : ∀ u, turns.getLast? = some u → (h.turn s n k m :: turns).getLast? = some u := by
    intro u h
    simp [List.getLast?_cons, h]
  have unfired := Moment.isCancelled_of_wait_elapsed waited
  have elapsed := Moment.after_of_wait_elapsed waited
  have since : m.now + h.pollInterval ≤ next.now := by
    rw [elapsed]
    exact Nat.add_le_add_right (le_of_verdict_again again) _
  match ending, stops with
  | none, .inl ⟨u, found, pending⟩ => exact Or.inl ⟨u, last u found, pending⟩
  | none, .inr ⟨used, ahead⟩ =>
      refine Or.inr ⟨by simp [used], ?_⟩
      intro u found
      have time : (rounds + 1) * h.pollInterval = rounds * h.pollInterval + h.pollInterval :=
        Nat.succ_mul _ _
      cases inner : turns.getLast? with
      | none =>
          obtain rfl : turns = [] := List.getLast?_eq_none_iff.1 inner
          obtain rfl := Option.some.inj found
          obtain rfl : 0 = rounds := used
          have before := le_of_verdict_again again
          exact ⟨later, again, elapsed ▸ unfired, by omega⟩
      | some v =>
          obtain rfl := Option.some.inj ((last v inner).symm.trans found)
          obtain ⟨idle, again', free, reached⟩ := ahead v inner
          exact ⟨idle, again', free, by omega⟩
  | some (found, .ok _), ⟨u, h, ready⟩ => exact ⟨u, last u h, ready⟩
  | some (found, .error _), ⟨same, .inl ⟨u, h, answered⟩⟩ =>
      exact ⟨same, Or.inl ⟨u, last u h, answered⟩⟩
  | some (found, .error _), ⟨same, .inr ⟨idle, at_, meets⟩⟩ =>
      refine ⟨same, Or.inr ?_⟩
      rcases at_ with ⟨none', rfl⟩ | ⟨u, h, again'⟩
      · obtain rfl : turns = [] := List.getLast?_eq_none_iff.1 none'
        exact ⟨later, Or.inr ⟨_, rfl, again⟩, meets.of_wait_elapsed waited⟩
      · exact ⟨idle, Or.inr ⟨u, last u h, again'⟩, meets⟩

/-- Asking for the state goes in turns, and ends as the last of them says, where the cancellation
finds it between two of them, or with the rounds. -/
theorem poll_stops (h : Handshake) (s : Service) (rounds : Nat) :
    ∀ (n k : Nat) (m : Moment), ∃ turns : List Turn,
      (h.poll s rounds n k m).asked = turns.flatMap Turn.asked ∧ h.Turns s n k m turns ∧
      h.PollStops rounds m turns (h.poll s rounds n k m).ending := by
  induction rounds with
  | zero => intro n k m; exact ⟨[], rfl, .nil, Or.inr ⟨rfl, fun t found => by cases found⟩⟩
  | succ rounds ih =>
      intro n k m
      rw [poll_succ]
      by_cases cancelled : m.isCancelled = true
      · rw [if_pos cancelled]
        exact ⟨[], rfl, .nil, rfl, Or.inr ⟨m, Or.inl ⟨rfl, rfl⟩, .self cancelled⟩⟩
      rw [if_neg cancelled]
      have free : m.isCancelled = false := by simpa using cancelled
      have alone : (h.turn s n k m).asked = [h.turn s n k m].flatMap Turn.asked := by simp
      cases verdict : (h.turn s n k m).verdict with
      | pending =>
          simp only [verdict]
          exact ⟨_, alone, .single free, Or.inl ⟨_, rfl, verdict⟩⟩
      | ready later =>
          simp only [verdict]
          exact ⟨_, alone, .single free, _, rfl, Turn.status_of_verdict_ready verdict⟩
      | cancelled later =>
          simp only [verdict]
          exact ⟨_, alone, .single free, rfl, Or.inl ⟨_, rfl, verdict⟩⟩
      | again later =>
          simp only [verdict]
          cases waited : later.wait h.pollInterval false with
          | mk next wake =>
              cases wake with
              | cancelled =>
                  have meets := Moment.moveTo_of_wait_cancelled waited
                  exact ⟨_, alone, .single free, rfl,
                    Or.inr ⟨later, Or.inr ⟨_, rfl, verdict⟩, meets⟩⟩
              | elapsed =>
                  obtain ⟨turns, asked, rest, stops⟩ := ih (n + 1)
                    (k + (h.turn s n k m).trigger.toList.length) next
                  refine ⟨h.turn s n k m :: turns, ?_, rest.cons free ?_, stops.cons verdict waited⟩
                  · simp [asked]
                  · intro t first
                    have same := rest.begins t first
                    exact ⟨later, verdict, same ▸ waited⟩

theorem poll_turns (h : Handshake) (s : Service) (rounds n k : Nat) (m : Moment) :
    ∃ turns : List Turn, (h.poll s rounds n k m).asked = turns.flatMap Turn.asked ∧
      h.Turns s n k m turns ∧ PollEnds rounds turns (h.poll s rounds n k m).ending := by
  obtain ⟨turns, asked, asks, stops⟩ := poll_stops h s rounds n k m
  exact ⟨turns, asked, asks, stops.ends⟩

/-- One more round continues asking that has come to no end, and changes nothing else. -/
theorem poll_grows (h : Handshake) (s : Service) (rounds : Nat) :
    ∀ (n k : Nat) (m : Moment),
      ((h.poll s rounds n k m).ending = none ∧
        (h.poll s rounds n k m).asked <+: (h.poll s (rounds + 1) n k m).asked) ∨
      h.poll s (rounds + 1) n k m = h.poll s rounds n k m := by
  induction rounds with
  | zero => intro n k m; exact Or.inl ⟨rfl, List.nil_prefix⟩
  | succ rounds ih =>
      intro n k m
      rw [poll_succ h s (rounds + 1), poll_succ h s rounds]
      by_cases cancelled : m.isCancelled = true
      · exact Or.inr (by simp [cancelled])
      simp only [if_neg cancelled]
      cases (h.turn s n k m).verdict with
      | pending | ready _ | cancelled _ => exact Or.inr rfl
      | again later =>
          cases waited : later.wait h.pollInterval false with
          | mk next wake =>
              cases wake with
              | cancelled => exact Or.inr (by simp [waited])
              | elapsed =>
                  simp only [waited]
                  rcases ih (n + 1) (k + (h.turn s n k m).trigger.toList.length) next with
                    ⟨open_, grown⟩ | same
                  · exact Or.inl ⟨open_, (List.prefix_append_right_inj _).2 grown⟩
                  · exact Or.inr (by rw [same])

/-! ## The whole handshake -/

/-- All calls of a handshake. -/
structure Log where
  turns : List Turn
  fetches : List (Exchange Path)

namespace Log

def asked (log : Log) : List Asked :=
  log.turns.flatMap Turn.asked ++ log.fetches.map (⟨·.made.now, .document⟩)

/-- The calls that a handshake begun in `m` may make.  The document is fetched only when the last
status call has answered `Successful`, from that moment on, a bounded number of times, and again
only after a failure. -/
structure Lawful (h : Handshake) (s : Service) (tie : Nat → Bool) (m : Moment) (log : Log) :
    Prop where
  asks : h.Turns s 0 0 m log.turns
  fetches : log.fetches = [] ∨ ∃ t ready, log.turns.getLast? = some t ∧
    t.status.ending = some (ready, .ok .successful) ∧
    h.fetching.Attempts s.document tie 0 ready log.fetches
  bounded : log.fetches.length ≤ h.fetchAttempts

theorem Lawful.eq_of_mem_fetches {h : Handshake} {s : Service} {tie : Nat → Bool} {m : Moment}
    {log : Log} (lawful : log.Lawful h s tie m) {e : Exchange Path} (mem : e ∈ log.fetches) :
    e = .of s.document e.number e.made := by
  rcases lawful.fetches with none' | ⟨t, ready, -, -, attempts⟩
  · rw [none'] at mem
    cases mem
  · exact attempts.calls e mem

/-- What a handshake with these calls comes to, if it comes to an end: what is read from the path
that the last fetch answered with, the failure of the last fetch when all have failed, or the
cancellation, fired or answered by the last call of the last turn. -/
def Ends (h : Handshake) (rounds : Nat) (log : Log) : Ending Engine.Settings → Prop
  | none => log.fetches = [] ∧ log.turns.length = rounds ∨
      (∃ t, log.turns.getLast? = some t ∧ t.verdict = .pending) ∨
      ∃ e, log.fetches.getLast? = some e ∧ e.ending = none
  | some (m, result) =>
    (∃ e path, log.fetches.getLast? = some e ∧ e.ending = some (m, .ok path) ∧
      result = Engine.Settings.load m.files path) ∨
    (∃ e failure, log.fetches.getLast? = some e ∧ e.ending = some (m, .error failure) ∧
      log.fetches.length = h.fetchAttempts ∧ result = .error failure) ∨
    (result = .error .cancelled ∧ (m.isCancelled = true ∨
      ∃ t, log.turns.getLast? = some t ∧ t.verdict = .cancelled m))

end Log

theorem fetch_stops (h : Handshake) (s : Service) (tie : Nat → Bool) (m : Moment) :
    ∃ made : List (Exchange Path),
      (h.fetch s tie m).asked = made.map (⟨·.made.now, .document⟩) ∧
      h.fetching.Attempts s.document tie 0 m made ∧ made.length ≤ h.fetchAttempts ∧
      h.fetching.Stops h.fetchAttempts m made (h.fetch s tie m).ending := by
  obtain ⟨made, starts, attempts, bound, stops⟩ :=
    h.fetching.loop_stops s.document tie h.fetchAttempts 0 [] m
  refine ⟨made, ?_, attempts, bound, stops⟩
  have begun : (h.fetching.run s.document tie m).starts = made.map (·.made.now) := starts
  simp [fetch, begun]

theorem fetch_attempts (h : Handshake) (s : Service) (tie : Nat → Bool) (m : Moment) :
    ∃ made : List (Exchange Path),
      (h.fetch s tie m).asked = made.map (⟨·.made.now, .document⟩) ∧
      h.fetching.Attempts s.document tie 0 m made ∧ made.length ≤ h.fetchAttempts ∧
      h.fetching.Ends h.fetchAttempts made (h.fetch s tie m).ending := by
  obtain ⟨made, asked, attempts, bound, stops⟩ := h.fetch_stops s tie m
  exact ⟨made, asked, attempts, bound, stops.ends⟩

/-- Every handshake makes the calls of a lawful log and ends as its log says. -/
theorem run_log (h : Handshake) (s : Service) (tie : Nat → Bool) (rounds : Nat) (m : Moment)
    (some_attempt : 1 ≤ h.fetchAttempts) :
    ∃ log : Log, (h.run s tie rounds m).asked = log.asked ∧ log.Lawful h s tie m ∧
      log.Ends h rounds (h.run s tie rounds m).ending := by
  obtain ⟨turns, asked, asks, ends⟩ := poll_turns h s rounds 0 0 m
  unfold run
  cases polled : (h.poll s rounds 0 0 m).ending with
  | none =>
      rw [polled] at ends
      rw [Course.followedBy_of_none polled]
      refine ⟨⟨turns, []⟩, ?_, ⟨asks, Or.inl rfl, Nat.zero_le _⟩, ?_⟩
      · simp [Log.asked, asked]
      · rcases ends with used | pending
        · exact Or.inl ⟨rfl, used⟩
        · exact Or.inr (Or.inl pending)
  | some result =>
      obtain ⟨ready, answer⟩ := result
      rw [polled] at ends
      rw [Course.followedBy_of_some polled]
      cases answer with
      | error failure =>
          obtain ⟨rfl, why⟩ := ends
          refine ⟨⟨turns, []⟩, ?_, ⟨asks, Or.inl rfl, Nat.zero_le _⟩, ?_⟩
          · simp [Log.asked, asked, Course.silent]
          · exact Or.inr (Or.inr ⟨rfl, why⟩)
      | ok done =>
          obtain ⟨t, last, successful⟩ := ends
          obtain ⟨made, fetches, attempts, bound, fetched⟩ := h.fetch_attempts s tie ready
          have lawful : Log.Lawful h s tie m ⟨turns, made⟩ :=
            ⟨asks, Or.inr ⟨t, ready, last, successful, attempts⟩, bound⟩
          refine ⟨⟨turns, made⟩, ?_, lawful, ?_⟩
          · cases answered : (h.fetch s tie ready).ending with
            | none => simp [Course.followedBy_of_none answered, Log.asked, asked, fetches]
            | some result =>
                obtain ⟨later, answer⟩ := result
                cases answer <;> simp [Course.followedBy_of_some answered, Log.asked, asked,
                  fetches, Course.silent]
          · cases answered : (h.fetch s tie ready).ending with
            | none =>
                rw [answered] at fetched
                simp only [Course.followedBy_of_none answered]
                exact Or.inr (Or.inr fetched)
            | some result =>
                obtain ⟨later, answer⟩ := result
                rw [answered] at fetched
                simp only [Course.followedBy_of_some answered]
                rcases fetched with ⟨e, latest, ended, used⟩ | ⟨rfl, fired⟩ | ⟨zero, -⟩
                · cases answer with
                  | ok path => exact Or.inl ⟨e, path, latest, ended, rfl⟩
                  | error failure =>
                      rcases used failure rfl with refused | all
                      · cases refused
                      · exact Or.inr (Or.inl ⟨e, failure, latest, ended, all, rfl⟩)
                · exact Or.inr (Or.inr ⟨rfl, Or.inl fired⟩)
                · omega

/-- A bound on the rounds hides nothing: with more rounds a handshake goes on where it stopped, and
one that has ended is the same. -/
theorem run_grows (h : Handshake) (s : Service) (tie : Nat → Bool) (rounds : Nat) (m : Moment) :
    (h.run s tie rounds m).asked <+: (h.run s tie (rounds + 1) m).asked ∧
      ((h.run s tie rounds m).ending ≠ none →
        h.run s tie (rounds + 1) m = h.run s tie rounds m) := by
  rcases h.poll_grows s rounds 0 0 m with ⟨open_, grown⟩ | same
  · have stopped : h.run s tie rounds m = ⟨(h.poll s rounds 0 0 m).asked, none⟩ :=
      Course.followedBy_of_none open_
    rw [stopped]
    refine ⟨?_, fun ended => absurd rfl ended⟩
    unfold run
    cases polled : (h.poll s (rounds + 1) 0 0 m).ending with
    | none => rwa [Course.followedBy_of_none polled]
    | some result =>
        rw [Course.followedBy_of_some polled]
        exact grown.trans (List.prefix_append _ _)
  · have equal : h.run s tie (rounds + 1) m = h.run s tie rounds m := by
      unfold run
      rw [same]
    rw [equal]
    exact ⟨List.prefix_rfl, fun _ => rfl⟩

/-- A handshake with short waits, whose record is beside the process. -/
def brisk : Handshake := ⟨⟨Path.ofString "exit_code"⟩, 10, 2, 10⟩

/-- A sidecar that nobody has triggered yet, fails to be triggered and then succeeds by itself. -/
def selfMade : Service where
  status n _ := ⟨some 1, true, false, fun fs => (fs, .ok (if n = 0 then .new else .successful))⟩
  trigger _ _ _ := .immediate (.error (.misuse (.described "busy")))
  document _ _ := .immediate (.ok (Path.ofString "etcd.yaml"))

/-- The log of a handshake that triggers in vain. -/
theorem run_log_of_selfMade :
    ∃ log : Log,
      log.asked = [⟨0, .status⟩, ⟨1, .trigger .full⟩, ⟨11, .status⟩, ⟨12, .document⟩] ∧
      log.Lawful brisk selfMade (fun _ => true) ⟨0, .never, .empty⟩ := by
  obtain ⟨log, asked, lawful, -⟩ :=
    run_log brisk selfMade (fun _ => true) 3 ⟨0, .never, .empty⟩ (by decide)
  have calls : (brisk.run selfMade (fun _ => true) 3 ⟨0, .never, .empty⟩).asked =
      [⟨0, .status⟩, ⟨1, .trigger .full⟩, ⟨11, .status⟩, ⟨12, .document⟩] := by decide +kernel
  exact ⟨log, asked.symm.trans calls, lawful⟩

end Handshake

end StoreWarden
