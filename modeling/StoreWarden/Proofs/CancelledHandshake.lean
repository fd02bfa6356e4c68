import StoreWarden.Proofs.HandshakeLog

/-!
# A handshake that is cancelled

`Goes` lists the ways in which a handshake can go, and `run_goes` finds the one it goes.  What
the cancellation does to it is read off there.  Once it has fired, nothing new is asked for, except
that a status call in flight which then answers `New` is followed by its trigger call.  The
handshake ends where the cancellation finds it after the last answer, and as cancelled, unless a
fetch was in flight that settles the result by itself.
-/

set_option autoImplicit false

namespace StoreWarden

open Sidecar (Depth Progress Service)

/-- A call that was made before the cancellation and is answered after it. -/
def Exchange.InFlight {α : Type} (e : Exchange α) (answered : Moment) : Prop :=
  e.made.isCancelled = false ∧ answered.isCancelled = true ∧
    ∃ answer, e.ending = some (answered, answer)

namespace Handshake

def Turn.answered (t : Turn) : Option Moment :=
  match t.trigger with
  | some (_, e) => e.ending.map (·.1)
  | none => t.status.ending.map (·.1)

theorem Turn.answered_eq {h : Handshake} {t : Turn} (ruled : t.Ruled h) :
    t.answered = match t.verdict with
      | .pending => none
      | .ready m => some m
      | .cancelled m => some m
      | .again m => some m := by
  unfold Ruled at ruled
  unfold answered verdict
  cases answered : t.status.ending with
  | none =>
      simp only [answered, Option.map_eq_none_iff] at ruled
      simp [ruled]
  | some result =>
      obtain ⟨m, answer⟩ := result
      simp only [answered] at ruled
      cases called : t.trigger with
      | none =>
          by_cases final : isFinal answer = true
          · simp [final]
          by_cases done : progressOf answer = .successful
          · simp [final, done]
          · simp [final, done]
      | some call =>
          have new : answer = .ok .new := by
            rw [called] at ruled
            split at ruled
            · rename_i same
              exact congrArg Prod.snd (Option.some.inj same)
            · cases ruled
          subst new
          have open_ : isFinal (.ok Progress.new : Except Failure Progress) = false := rfl
          have undone : progressOf (.ok .new) ≠ .successful := by simp [progressOf]
          cases ended : call.2.ending with
          | none => simp [open_, undone, ended]
          | some result =>
              by_cases final : isFinal result.2 = true
              · simp [open_, undone, ended, final]
              · simp [open_, undone, ended, final]

/-! ## The ways of a handshake -/

/-- All ways in which a handshake that begins in `m` can go. -/
inductive Goes (h : Handshake) (rounds : Nat) (m : Moment) :
    Log → Ending Engine.Settings → Prop
  | asking {turns : List Turn} (stops : h.PollStops rounds m turns none) :
      Goes h rounds m ⟨turns, []⟩ none
  | stopped {turns : List Turn} {last : Moment}
      (stops : h.PollStops rounds m turns (some (last, .error .cancelled))) :
      Goes h rounds m ⟨turns, []⟩ (some (last, .error .cancelled))
  | fetching {turns : List Turn} {made : List (Exchange Path)} {t : Turn} {ready : Moment}
      (asked : turns.getLast? = some t)
      (successful : t.status.ending = some (ready, .ok .successful))
      (stops : h.fetching.Stops h.fetchAttempts ready made none) :
      Goes h rounds m ⟨turns, made⟩ none
  | fetched {turns : List Turn} {made : List (Exchange Path)} {t : Turn} {ready last : Moment}
      {path : Path} (asked : turns.getLast? = some t)
      (successful : t.status.ending = some (ready, .ok .successful))
      (stops : h.fetching.Stops h.fetchAttempts ready made (some (last, .ok path))) :
      Goes h rounds m ⟨turns, made⟩ (some (last, Engine.Settings.load last.files path))
  | unfetched {turns : List Turn} {made : List (Exchange Path)} {t : Turn} {ready last : Moment}
      {failure : Failure} (asked : turns.getLast? = some t)
      (successful : t.status.ending = some (ready, .ok .successful))
      (stops : h.fetching.Stops h.fetchAttempts ready made (some (last, .error failure))) :
      Goes h rounds m ⟨turns, made⟩ (some (last, .error failure))

theorem run_goes (h : Handshake) (s : Service) (tie : Nat → Bool) (rounds : Nat) (m : Moment) :
    ∃ log : Log, (h.run s tie rounds m).asked = log.asked ∧ log.Lawful h s tie m ∧
      h.Goes rounds m log (h.run s tie rounds m).ending := by
  obtain ⟨turns, asked, asks, stops⟩ := poll_stops h s rounds 0 0 m
  have lawful : Log.Lawful h s tie m ⟨turns, []⟩ := ⟨asks, Or.inl rfl, Nat.zero_le _⟩
  unfold run
  cases polled : (h.poll s rounds 0 0 m).ending with
  | none =>
      rw [polled] at stops
      rw [Course.followedBy_of_none polled]
      exact ⟨⟨turns, []⟩, by simp [Log.asked, asked], lawful, .asking stops⟩
  | some result =>
      obtain ⟨ready, answer⟩ := result
      rw [polled] at stops
      rw [Course.followedBy_of_some polled]
      cases answer with
      | error failure =>
          obtain ⟨rfl, -⟩ := id stops
          refine ⟨⟨turns, []⟩, ?_, lawful, .stopped stops⟩
          simp [Log.asked, asked, Course.silent]
      | ok done =>
          obtain ⟨t, last, successful⟩ := stops
          obtain ⟨made, fetches, attempts, bound, stops⟩ := h.fetch_stops s tie ready
          have lawful : Log.Lawful h s tie m ⟨turns, made⟩ :=
            ⟨asks, Or.inr ⟨t, ready, last, successful, attempts⟩, bound⟩
          refine ⟨⟨turns, made⟩, ?_, lawful, ?_⟩
          · cases answered : (h.fetch s tie ready).ending with
            | none =>
                simp [Course.followedBy_of_none answered, Log.asked, asked, fetches]
            | some result =>
                obtain ⟨later, answer⟩ := result
                cases answer <;> simp [Course.followedBy_of_some answered, Log.asked,
                  asked, fetches, Course.silent]
          · cases answered : (h.fetch s tie ready).ending with
            | none =>
                rw [answered] at stops
                rw [Course.followedBy_of_none answered]
                exact .fetching last successful stops
            | some result =>
                obtain ⟨later, answer⟩ := result
                rw [answered] at stops
                rw [Course.followedBy_of_some answered]
                cases answer with
                | ok path => exact .fetched last successful stops
                | error failure => exact .unfetched last successful stops

/-! ## Once it is cancelled -/

theorem getLast?_or_follows {α : Type} {R : α → α → Prop} {xs : List α} (chain : xs.IsChain R)
    {x : α} (mem : x ∈ xs) : xs.getLast? = some x ∨ ∃ y, R x y := by
  obtain ⟨before, after, rfl⟩ := List.append_of_mem mem
  cases after with
  | nil => exact Or.inl (by simp)
  | cons y rest =>
      have pair := chain.right_of_append
      exact Or.inr ⟨y, (List.isChain_cons_cons.1 pair).1⟩

theorem Turn.Ruled.status {h : Handshake} {t : Turn} (ruled : t.Ruled h) {depth : Depth}
    {e : Exchange Unit} (called : t.trigger = some (depth, e)) :
    t.status.ending = some (e.made, .ok .new) := by
  unfold Ruled at ruled
  rw [called] at ruled
  split at ruled
  · rename_i m answered
    obtain ⟨-, rfl⟩ := Prod.mk.inj (Option.some.inj ruled)
    exact answered
  · cases ruled

/-- A trigger call of a cancelled handshake is its last call. -/
theorem Turns.last_of_cancelled {h : Handshake} {s : Service} {n k : Nat} {m : Moment}
    {turns : List Turn} (asks : h.Turns s n k m turns) {t : Turn} (mem : t ∈ turns)
    {depth : Depth} {e : Exchange Unit} (called : t.trigger = some (depth, e))
    (cancelled : e.made.isCancelled = true) : turns.getLast? = some t := by
  rcases getLast?_or_follows asks.follows mem with last | ⟨next, idle, again, waited⟩
  · exact last
  · -- the wait after the trigger call would have been cut short
    have answered := Turn.answered_eq (asks.ruled t mem)
    simp only [Turn.answered, called, again, Option.map_eq_some_iff] at answered
    obtain ⟨⟨_, answer⟩, ended, rfl⟩ := answered
    have own := asks.triggerCalls t mem depth e called
    rw [own] at ended
    have still := Call.isCancelled_run cancelled ended
    have free := Moment.isCancelled_of_wait_elapsed waited
    have later := Moment.after_of_wait_elapsed waited
    rw [later] at free
    have fired := Cancellation.isFired_mono (Nat.le_add_right _ h.pollInterval) still
    exact absurd fired (by simpa [Moment.isCancelled, Moment.after, Moment.moveTo] using free)

/-- When the last call of a handshake that began in `m` was answered, if it was. -/
def Log.answered (log : Log) (m : Moment) : Option Moment :=
  match log.fetches.getLast?, log.turns.getLast? with
  | some e, _ => e.ending.map (·.1)
  | none, some t => t.answered
  | none, none => some m

/-- The result of a handshake that is cancelled when it ends in `last`: as cancelled, unless a fetch
was in flight that succeeded, or failed with no attempt left. -/
def Log.Yields (h : Handshake) (log : Log) (last : Moment)
    (result : Except Failure Engine.Settings) : Prop :=
  (∃ e path, log.fetches.getLast? = some e ∧ e.InFlight last ∧
    e.ending = some (last, .ok path) ∧ result = Engine.Settings.load last.files path) ∨
  (∃ e failure, log.fetches.getLast? = some e ∧ e.InFlight last ∧
    e.ending = some (last, .error failure) ∧ log.fetches.length = h.fetchAttempts ∧
    result = .error failure) ∨
  (result = .error .cancelled ∧ ∀ e, log.fetches.getLast? = some e →
    ∃ idle failure, e.ending = some (idle, .error failure) ∧ log.fetches.length < h.fetchAttempts)

/-- How a handshake that begins in `m` heeds the cancellation. -/
structure Log.Heeds (h : Handshake) (rounds : Nat) (m : Moment) (log : Log)
    (ending : Ending Engine.Settings) : Prop where
  status : ∀ t ∈ log.turns, t.status.made.isCancelled = false
  fetch : ∀ e ∈ log.fetches, e.made.isCancelled = false
  trigger : ∀ t ∈ log.turns, ∀ depth e, t.trigger = some (depth, e) → e.made.isCancelled = true →
    t.status.InFlight e.made ∧ t.status.ending = some (e.made, .ok .new) ∧
      log.turns.getLast? = some t ∧ log.fetches = []
  prompt : ∀ last result, ending = some (last, result) → last.isCancelled = true →
    ∃ idle, log.answered m = some idle ∧ idle.Meets last
  result : ∀ last result, ending = some (last, result) → last.isCancelled = true →
    log.Yields h last result
  /-- With all calls answered, only a cancellation that is still ahead keeps it from ending. -/
  returns : ending = none → log.answered m = none ∨
    (log.turns.length = rounds ∧ ∀ t, log.turns.getLast? = some t → ∃ idle,
      log.answered m = some idle ∧ (idle.after h.pollInterval).isCancelled = false ∧
        m.now + rounds * h.pollInterval ≤ idle.now + h.pollInterval)

theorem Log.Lawful.trigger {h : Handshake} {s : Service} {tie : Nat → Bool} {m : Moment}
    {log : Log} (lawful : log.Lawful h s tie m) {t : Turn} (mem : t ∈ log.turns) {depth : Depth}
    {e : Exchange Unit} (called : t.trigger = some (depth, e))
    (cancelled : e.made.isCancelled = true) :
    t.status.InFlight e.made ∧ t.status.ending = some (e.made, .ok .new) ∧
      log.turns.getLast? = some t ∧ log.fetches = [] := by
  have answered := (lawful.asks.ruled t mem).status called
  have last := lawful.asks.last_of_cancelled mem called cancelled
  refine ⟨⟨lawful.asks.heeds t mem, cancelled, _, answered⟩, answered, last, ?_⟩
  rcases lawful.fetches with none' | ⟨u, ready, last', successful, -⟩
  · exact none'
  · obtain rfl := Option.some.inj (last.symm.trans last')
    rw [answered] at successful
    cases successful

theorem Log.Lawful.fetch {h : Handshake} {s : Service} {tie : Nat → Bool} {m : Moment}
    {log : Log} (lawful : log.Lawful h s tie m) {e : Exchange Path} (mem : e ∈ log.fetches) :
    e.made.isCancelled = false := by
  rcases lawful.fetches with none' | ⟨u, ready, last, successful, attempts⟩
  · rw [none'] at mem
    cases mem
  · exact attempts.heeds e mem

theorem Log.answered_of_fetch {log : Log} {e : Exchange Path} {ending : Ending Path}
    (last : log.fetches.getLast? = some e) (ended : e.ending = ending) (m : Moment) :
    log.answered m = ending.map (·.1) := by
  simp only [answered, last, ended]

theorem Log.answered_of_turn {turns : List Turn} {t : Turn} (last : turns.getLast? = some t)
    (m : Moment) : Log.answered ⟨turns, []⟩ m = t.answered := by
  simp only [answered, List.getLast?_nil, last]

theorem Turn.answered_of_successful {h : Handshake} {t : Turn} {ready : Moment}
    (ruled : t.Ruled h) (successful : t.status.ending = some (ready, .ok .successful)) :
    t.answered = some ready := by
  rw [answered_eq ruled]
  simp [verdict, successful, isFinal, progressOf]

theorem Log.Lawful.answered {h : Handshake} {s : Service} {tie : Nat → Bool} {m : Moment}
    {turns : List Turn} (lawful : Log.Lawful h s tie m ⟨turns, []⟩) {t : Turn}
    (last : turns.getLast? = some t) :
    Log.answered ⟨turns, []⟩ m = match t.verdict with
      | .pending => none
      | .ready m => some m
      | .cancelled m => some m
      | .again m => some m := by
  rw [answered_of_turn last]
  exact Turn.answered_eq (lawful.asks.ruled t (List.mem_of_getLast? last))

section
variable {h : Handshake} {s : Service} {tie : Nat → Bool} {rounds : Nat} {m last : Moment}
  {log : Log} {ending : Ending Engine.Settings} {result : Except Failure Engine.Settings}

/-- A cancelled handshake ends where the cancellation finds it after the last answer. -/
theorem Goes.prompt (goes : h.Goes rounds m log ending) (lawful : log.Lawful h s tie m)
    (some_attempt : 1 ≤ h.fetchAttempts) (ended : ending = some (last, result))
    (cancelled : last.isCancelled = true) :
    ∃ idle, log.answered m = some idle ∧ idle.Meets last := by
  cases goes with
  | asking | fetching => cases ended
  | stopped stops =>
      obtain ⟨rfl, -⟩ := Prod.mk.inj (Option.some.inj ended)
      obtain ⟨-, ⟨t, found, verdict⟩ | ⟨idle, waiting, meets⟩⟩ := stops
      · have reached := lawful.answered found
        rw [verdict] at reached
        exact ⟨_, reached, .self cancelled⟩
      · rcases waiting with ⟨none', rfl⟩ | ⟨t, found, again⟩
        · obtain rfl := List.getLast?_eq_none_iff.1 none'
          exact ⟨_, rfl, meets⟩
        · have reached := lawful.answered found
          rw [again] at reached
          exact ⟨_, reached, meets⟩
  | fetched found successful stops =>
      obtain ⟨rfl, -⟩ := Prod.mk.inj (Option.some.inj ended)
      rcases stops with ⟨e, latest, ended, -⟩ | ⟨refused, -⟩ | ⟨-, refused⟩
      · exact ⟨_, Log.answered_of_fetch latest ended m, .self cancelled⟩
      · cases refused
      · cases refused
  | unfetched found successful stops =>
      obtain ⟨rfl, -⟩ := Prod.mk.inj (Option.some.inj ended)
      rcases stops with ⟨e, latest, ended, -⟩ | ⟨-, -, idle, at_, meets⟩ | ⟨zero, -⟩
      · exact ⟨_, Log.answered_of_fetch latest ended m, .self cancelled⟩
      · rcases at_ with ⟨none', rfl⟩ | ⟨e, failure, latest, ended⟩
        · obtain rfl := List.getLast?_eq_none_iff.1 none'
          have ruled := lawful.asks.ruled _ (List.mem_of_getLast? found)
          have reached := Turn.answered_of_successful ruled successful
          exact ⟨_, (Log.answered_of_turn found m).trans reached, meets⟩
        · exact ⟨_, Log.answered_of_fetch latest ended m, meets⟩
      · omega

theorem Goes.yields (goes : h.Goes rounds m log ending) (lawful : log.Lawful h s tie m)
    (some_attempt : 1 ≤ h.fetchAttempts) (ended : ending = some (last, result))
    (cancelled : last.isCancelled = true) : log.Yields h last result := by
  have inFlight {e : Exchange Path} {answer : Except Failure Path}
      (latest : log.fetches.getLast? = some e) (ended : e.ending = some (last, answer)) :
      e.InFlight last :=
    ⟨lawful.fetch (List.mem_of_getLast? latest), cancelled, answer, ended⟩
  cases goes with
  | asking | fetching => cases ended
  | stopped stops =>
      obtain ⟨rfl, rfl⟩ := Prod.mk.inj (Option.some.inj ended)
      exact Or.inr (Or.inr ⟨rfl, fun e latest => by cases latest⟩)
  | fetched found successful stops =>
      obtain ⟨rfl, rfl⟩ := Prod.mk.inj (Option.some.inj ended)
      rcases stops with ⟨e, latest, ended, -⟩ | ⟨refused, -⟩ | ⟨-, refused⟩
      · exact Or.inl ⟨e, _, latest, inFlight latest ended, ended, rfl⟩
      · cases refused
      · cases refused
  | unfetched found successful stops =>
      obtain ⟨rfl, rfl⟩ := Prod.mk.inj (Option.some.inj ended)
      rcases stops with ⟨e, latest, ended, used⟩ | ⟨same, fewer, idle, at_, -⟩ | ⟨zero, -⟩
      · rcases used _ rfl with refused | all
        · cases refused
        · exact Or.inr (Or.inl ⟨e, _, latest, inFlight latest ended, ended, all, rfl⟩)
      · refine Or.inr (Or.inr ⟨congrArg Except.error (Except.error.inj same), ?_⟩)
        intro e latest
        rcases at_ with ⟨none', -⟩ | ⟨f, failure, latest', ended⟩
        · exact absurd (none'.symm.trans latest) (by simp)
        · obtain rfl := Option.some.inj (latest'.symm.trans latest)
          exact ⟨idle, failure, ended, fewer⟩
      · omega

theorem Goes.returns (goes : h.Goes rounds m log ending) (lawful : log.Lawful h s tie m)
    (endless : ending = none) : log.answered m = none ∨
      (log.turns.length = rounds ∧ ∀ t, log.turns.getLast? = some t → ∃ idle,
        log.answered m = some idle ∧ (idle.after h.pollInterval).isCancelled = false ∧
          m.now + rounds * h.pollInterval ≤ idle.now + h.pollInterval) := by
  cases goes with
  | stopped | fetched | unfetched => cases endless
  | asking stops =>
      rcases stops with ⟨t, found, pending⟩ | ⟨used, ahead⟩
      · have reached := lawful.answered found
        rw [pending] at reached
        exact Or.inl reached
      · refine Or.inr ⟨used, ?_⟩
        intro t found
        obtain ⟨idle, again, free, time⟩ := ahead t found
        have reached := lawful.answered found
        rw [again] at reached
        exact ⟨idle, reached, free, time⟩
  | fetching found successful stops =>
      obtain ⟨e, latest, never⟩ := stops
      exact Or.inl (Log.answered_of_fetch latest never m)

end

/-- Every handshake heeds the cancellation. -/
theorem run_heeds (h : Handshake) (s : Service) (tie : Nat → Bool) (rounds : Nat) (m : Moment)
    (some_attempt : 1 ≤ h.fetchAttempts) :
    ∃ log : Log, (h.run s tie rounds m).asked = log.asked ∧ log.Lawful h s tie m ∧
      log.Heeds h rounds m (h.run s tie rounds m).ending := by
  obtain ⟨log, asked, lawful, goes⟩ := h.run_goes s tie rounds m
  refine ⟨log, asked, lawful, ?_⟩
  constructor
  case status => exact lawful.asks.heeds
  case fetch => exact fun e mem => lawful.fetch mem
  case trigger => exact fun t mem depth e => lawful.trigger mem
  case prompt => exact fun last result => goes.prompt lawful some_attempt
  case result => exact fun last result => goes.yields lawful some_attempt
  case returns => exact goes.returns lawful

/-- A sidecar that is slow to answer that nobody has triggered it. -/
def slowNew : Service where
  status _ _ := ⟨some 10, false, false, fun fs => (fs, .ok .new)⟩
  trigger _ _ _ := ⟨some 3, false, false, fun fs => (fs, .ok ())⟩
  document _ _ := .immediate (.ok (Path.ofString "etcd.yaml"))

/-- A status call is in flight at the cancellation.  Its trigger call is still made, and the
handshake ends with the answer to that. -/
theorem run_heeds_slowNew :
    ∃ log : Log, log.asked = [⟨0, .status⟩, ⟨10, .trigger .full⟩] ∧
      log.Heeds brisk 2 ⟨0, .firingAt 5, .empty⟩
        (some (⟨13, .firingAt 5, .empty⟩, .error .cancelled)) := by
  obtain ⟨log, asked, -, heeds⟩ :=
    run_heeds brisk slowNew (fun _ => true) 2 ⟨0, .firingAt 5, .empty⟩ (by decide)
  have calls : (brisk.run slowNew (fun _ => true) 2 ⟨0, .firingAt 5, .empty⟩).asked =
      [⟨0, .status⟩, ⟨10, .trigger .full⟩] := by decide +kernel
  have ending : (brisk.run slowNew (fun _ => true) 2 ⟨0, .firingAt 5, .empty⟩).ending =
      some (⟨13, .firingAt 5, .empty⟩, .error .cancelled) := by rfl
  exact ⟨log, asked.symm.trans calls, ending ▸ heeds⟩

end Handshake

end StoreWarden
