import StoreWarden.Proofs.RetryLaw
import StoreWarden.Sidecar.Client

/-!
# What a request to the sidecar comes to

`Http.Answers` says which response a request is answered with in the end, and when its head comes;
`Client.Delivers` says of a body that it has come as a whole, after a good head and within the limit
of the request.  Both are read off the peer, and a request gets a body exactly if it is delivered,
`exchange_eq_ok_iff`.  Everything else is a failure that leaves the files alone, `Client.Fails`.
-/

set_option autoImplicit false

namespace StoreWarden

/-! ## Requests that are answered in the end -/

namespace Http

variable {peer : Peer} {limit addresses now spent t d : Nat} {request : Request}
  {response : Response}

theorem Arrival.within_of_lt {α : Type} {what : Except Fault α} (early : d < limit) :
    Arrival.within ⟨some d, what⟩ limit = (d, what) := by
  simp only [Arrival.within, if_pos early]

theorem Arrival.within_of_late {α : Type} {a : Arrival α}
    (late : ∀ d, a.after = some d → limit ≤ d) : a.within limit = (limit, .error .timeout) := by
  unfold Arrival.within
  cases after : a.after with
  | none => rfl
  | some d =>
      have never : ¬ d < limit := Nat.not_lt.2 (late d after)
      simp only [if_neg never]

theorem Arrival.eq_of_within {α : Type} {a : Arrival α} {value : α}
    (had : a.within limit = (d, .ok value)) : a = ⟨some d, .ok value⟩ := by
  obtain ⟨after, what⟩ := a
  unfold Arrival.within at had
  cases after with
  | none => cases had
  | some u =>
      simp only at had
      split at had
      · obtain ⟨rfl, rfl⟩ := Prod.mk.inj had
        rfl
      · cases had

theorem Arrival.lt_of_within {α : Type} {a : Arrival α} {value : α}
    (had : a.within limit = (d, .ok value)) : d < limit := by
  rw [Arrival.eq_of_within had] at had
  unfold Arrival.within at had
  by_contra late
  simp only [if_neg late] at had
  cases had

/-- A request made at `t` is answered with this response, from one of at most `addresses`
addresses, and its head comes `d` later. -/
inductive Answers (peer : Peer) : (addresses t : Nat) → Request → (d : Nat) → Response → Prop
  | here {addresses t d : Nat} {request : Request} {response : Response}
      (came : peer t request = ⟨some d, .ok response⟩) (settled : response.next? request = none) :
      Answers peer (addresses + 1) t request d response
  | onward {addresses t d later : Nat} {request next : Request} {response final : Response}
      (came : peer t request = ⟨some d, .ok response⟩)
      (moved : response.next? request = some next)
      (rest : Answers peer addresses (t + d) next later final) :
      Answers peer (addresses + 1) t request (d + later) final

theorem answers_of_follow (addresses : Nat) : ∀ {now spent : Nat} {request : Request}
    {response : Response}, (follow peer limit addresses now spent request).answer = .ok response →
      ∃ d, Answers peer addresses now request d response ∧ spent + d < limit ∧
        (follow peer limit addresses now spent request).elapsed = spent + d := by
  -- what is spent grows with every address, and counts towards the one limit
  induction addresses with
  | zero => intro now spent request response answered; cases answered
  | succ addresses ih =>
      intro now spent request response answered
      unfold follow at answered ⊢
      cases came : (peer now request).within (limit - spent) with
      | mk d answer =>
          rw [came] at answered
          cases answer with
          | error fault => cases answered
          | ok head =>
              have arrived := Arrival.eq_of_within came
              have early := Arrival.lt_of_within came
              simp only at answered ⊢
              cases moved : head.next? request with
              | none =>
                  rw [moved] at answered
                  obtain rfl := Except.ok.inj answered
                  exact ⟨d, .here arrived moved, by omega, rfl⟩
              | some next =>
                  rw [moved] at answered
                  obtain ⟨later, answers, inTime, elapsed⟩ := ih answered
                  refine ⟨d + later, .onward arrived moved answers, by omega, ?_⟩
                  simp only [elapsed, Nat.add_assoc]

theorem follow_of_answers (answers : Answers peer addresses now request d response) :
    ∀ spent : Nat, spent + d < limit →
      (follow peer limit addresses now spent request).answer = .ok response ∧
        (follow peer limit addresses now spent request).elapsed = spent + d := by
  induction answers with
  | here came settled =>
      intro spent inTime
      unfold follow
      rw [came, Arrival.within_of_lt (by omega)]
      simp only [settled, and_self]
  | @onward addresses t d later request next response final came moved rest ih =>
      intro spent inTime
      obtain ⟨answer, elapsed⟩ := ih (spent + d) (by omega)
      unfold follow
      rw [came, Arrival.within_of_lt (by omega)]
      simp only [moved, answer, elapsed, Nat.add_assoc, and_self]

end Http

namespace Sidecar.Client

variable {α : Type} {c : Client} {peer : Http.Peer} {t d : Nat} {request : Request}
  {response : Http.Response} {body : Bytes} {m : Moment}
  {use : Bytes → Os.FileSystem → Os.FileSystem × Except Failure α}

/-! ## Replies -/

/-- The response to a request made at `t`, after redirects, whose head comes `d` later and in
time. -/
def Answered (c : Client) (peer : Http.Peer) (t : Nat) (request : Request) (d : Nat)
    (response : Http.Response) : Prop :=
  Http.Answers peer Http.maxAddresses t (.get (c.baseAddress ++ request.target)) d response ∧
    d < requestLimit

/-- A body that has come as a whole, in time and after a good code, `d` after the request. -/
inductive Delivers (c : Client) (peer : Http.Peer) (t : Nat) (request : Request) :
    (d : Nat) → Bytes → Prop
  | whole {head rest : Nat} {response : Http.Response} {body : Bytes}
      (answered : c.Answered peer t request head response)
      (good : response.status.code ∈ goodCodes)
      (came : response.body = ⟨some rest, .ok body⟩) (inTime : head + rest < requestLimit) :
      Delivers c peer t request (head + rest) body

theorem sent_iff :
    ((Http.send peer requestLimit t (.get (c.baseAddress ++ request.target))).elapsed = d ∧
      (Http.send peer requestLimit t (.get (c.baseAddress ++ request.target))).answer =
        .ok response) ↔ c.Answered peer t request d response := by
  constructor
  · rintro ⟨rfl, answer⟩
    obtain ⟨d, answers, inTime, elapsed⟩ := Http.answers_of_follow _ answer
    rw [Nat.zero_add] at inTime elapsed
    unfold Http.send
    rw [elapsed]
    exact ⟨answers, inTime⟩
  · rintro ⟨answers, inTime⟩
    obtain ⟨answer, elapsed⟩ := Http.follow_of_answers answers 0 (by omega : 0 + d < requestLimit)
    exact ⟨elapsed.trans (Nat.zero_add d), answer⟩

theorem exchange_of_bad (answered : c.Answered peer t request d response)
    (bad : response.status.code ∉ goodCodes) :
    (c.exchange peer t request).elapsed = d ∧ (c.exchange peer t request).answer =
      .error (.sidecar request.purpose response.status) := by
  obtain ⟨elapsed, answer⟩ := sent_iff.2 answered
  have refused : (!goodCodes.contains response.status.code) = true := by simpa using bad
  simp only [exchange, answer, if_pos refused, elapsed, and_self]

theorem exchange_of_good (answered : c.Answered peer t request d response)
    (good : response.status.code ∈ goodCodes) (wants : request.wantsBody = true) :
    (c.exchange peer t request).elapsed = d + (response.body.within (requestLimit - d)).1 ∧
      (c.exchange peer t request).answer =
        (response.body.within (requestLimit - d)).2.mapError .http := by
  obtain ⟨elapsed, answer⟩ := sent_iff.2 answered
  have fine : ¬ (!goodCodes.contains response.status.code) = true := by simpa using good
  simp only [exchange, answer, if_neg fine, if_pos wants, elapsed, and_self]

theorem exchange_of_unanswered (unanswered : ∀ d response, ¬ c.Answered peer t request d response) :
    ∃ fault, (c.exchange peer t request).answer = .error (.http fault) := by
  cases answer : (Http.send peer requestLimit t
      (.get (c.baseAddress ++ request.target))).answer with
  | ok response => exact absurd (sent_iff.1 ⟨rfl, answer⟩) (unanswered _ response)
  | error fault =>
      refine ⟨fault, ?_⟩
      unfold exchange
      simp only [answer]

theorem exchange_of_delivers (wants : request.wantsBody = true)
    (delivers : c.Delivers peer t request d body) :
    (c.exchange peer t request).elapsed = d ∧ (c.exchange peer t request).answer = .ok body := by
  cases delivers with
  | whole answered good came inTime =>
      obtain ⟨elapsed, answer⟩ := exchange_of_good answered good wants
      rw [came, Http.Arrival.within_of_lt (by omega)] at elapsed answer
      exact ⟨elapsed, answer⟩

theorem exchange_eq_ok_iff (wants : request.wantsBody = true) :
    (c.exchange peer t request).answer = .ok body ↔
      c.Delivers peer t request (c.exchange peer t request).elapsed body := by
  refine ⟨fun got => ?_, fun delivers => (exchange_of_delivers wants delivers).2⟩
  by_cases known : ∃ d response, c.Answered peer t request d response
  · obtain ⟨d, response, answered⟩ := known
    by_cases good : response.status.code ∈ goodCodes
    · obtain ⟨elapsed, answer⟩ := exchange_of_good answered good wants
      rw [got] at answer
      cases came : response.body.within (requestLimit - d) with
      | mk rest what =>
          rw [came] at elapsed answer
          cases what with
          | error fault => cases answer
          | ok bytes =>
              obtain rfl : body = bytes := Except.ok.inj answer
              have inTime := Http.Arrival.lt_of_within came
              rw [elapsed]
              exact .whole answered good (Http.Arrival.eq_of_within came) (by simp only; omega)
    · have refused := (exchange_of_bad answered good).2
      rw [got] at refused
      cases refused
  · obtain ⟨fault, failed⟩ := exchange_of_unanswered fun d response answered =>
      known ⟨d, response, answered⟩
    rw [got] at failed
    cases failed

theorem failure_of_exchange {failure : Failure}
    (failed : (c.exchange peer t request).answer = .error failure) :
    (∃ fault, failure = .http fault) ∨
      ∃ status : Http.Status, status.code ∉ goodCodes ∧
        failure = .sidecar request.purpose status := by
  unfold exchange at failed
  generalize Http.send peer requestLimit t (.get (c.baseAddress ++ request.target)) = sent
    at failed
  obtain ⟨asked, elapsed, answer⟩ := sent
  cases answer with
  | error fault => exact Or.inl ⟨fault, (Except.error.inj failed).symm⟩
  | ok response =>
      simp only at failed
      split at failed
      · next bad =>
          exact Or.inr ⟨response.status, by simpa using bad, (Except.error.inj failed).symm⟩
      · split at failed
        · cases what : (response.body.within (requestLimit - elapsed)).2 with
          | error fault =>
              rw [what] at failed
              exact Or.inl ⟨fault, (Except.error.inj failed).symm⟩
          | ok bytes =>
              rw [what] at failed
              cases failed
        · cases failed

/-! ## Requests as calls -/

theorem givesUpAt_call (c : Client) (peer : Http.Peer) (m : Moment) (request : Request)
    (use : Bytes → Os.FileSystem → Os.FileSystem × Except Failure α) :
    (c.call peer m.now request use).givesUpAt m.now m.token =
      if (m.after (c.exchange peer m.now request).elapsed).isCancelled then
        m.token.seenFrom m.now
      else none := by
  generalize took : (c.exchange peer m.now request).elapsed = d
  unfold Call.givesUpAt call
  simp only [took]
  cases fires : m.token.firesAt with
  | none =>
      simp [Cancellation.seenFrom, Moment.isCancelled, Moment.after, Moment.moveTo,
        Cancellation.isFired, fires]
  | some f =>
      have when_ : max m.now f ≤ m.now + d ↔ f ≤ m.now + d := by omega
      simp only [Cancellation.seenFrom, fires, Option.map_some, when_, Moment.isCancelled,
        Moment.after, Moment.moveTo, Cancellation.isFired]
      by_cases before : f ≤ m.now + d <;> simp [before]

theorem run_call_of_cancelled
    (use : Bytes → Os.FileSystem → Os.FileSystem × Except Failure α)
    (cancelled : (m.after (c.exchange peer m.now request).elapsed).isCancelled = true) :
    ∃ last, m.Meets last ∧
      (c.call peer m.now request use).run m = some (last, .error .cancelled) := by
  obtain ⟨f, fires, -⟩ := Moment.isCancelled_after.1 cancelled
  have seen : m.token.seenFrom m.now = some (max m.now f) := by
    simp [Cancellation.seenFrom, fires]
  refine ⟨m.moveTo (max m.now f), ⟨_, seen, rfl⟩, ?_⟩
  unfold Call.run
  rw [givesUpAt_call, if_pos cancelled, seen]

theorem run_call_of_free
    (use : Bytes → Os.FileSystem → Os.FileSystem × Except Failure α)
    (free : (m.after (c.exchange peer m.now request).elapsed).isCancelled = false) :
    (c.call peer m.now request use).run m =
      match (c.exchange peer m.now request).answer with
      | .ok body =>
        some ({ m.after (c.exchange peer m.now request).elapsed with
          files := (use body m.files).1 }, (use body m.files).2)
      | .error failure =>
        some (m.after (c.exchange peer m.now request).elapsed, .error failure) := by
  have goes : ¬ (m.after (c.exchange peer m.now request).elapsed).isCancelled = true := by
    simp [free]
  unfold Call.run
  rw [givesUpAt_call, if_neg goes]
  simp only [call]
  cases (c.exchange peer m.now request).answer <;> rfl

/-- A reply to a request made in `m` has come as a whole in `next`, with the cancellation still
ahead. -/
def Gets (c : Client) (peer : Http.Peer) (m : Moment) (request : Request) (body : Bytes)
    (next : Moment) : Prop :=
  next.isCancelled = false ∧ ∃ d, c.Delivers peer m.now request d body ∧ next = m.after d

theorem run_call_of_gets (use : Bytes → Os.FileSystem → Os.FileSystem × Except Failure α)
    {next : Moment} (gets : c.Gets peer m request body next) (wants : request.wantsBody = true) :
    (c.call peer m.now request use).run m =
      some ({ next with files := (use body m.files).1 }, (use body m.files).2) := by
  obtain ⟨free, d, delivers, rfl⟩ := gets
  obtain ⟨rfl, answer⟩ := exchange_of_delivers wants delivers
  rw [run_call_of_free use free, answer]

/-- A call that ends has got a reply, or has failed without touching the files. -/
theorem gets_or_failed (c : Client) (peer : Http.Peer) (m : Moment) (request : Request)
    (wants : request.wantsBody = true)
    (use : Bytes → Os.FileSystem → Os.FileSystem × Except Failure α) :
    (∃ body next, c.Gets peer m request body next) ∨
      ∃ next failure, (c.call peer m.now request use).run m = some (next, .error failure) ∧
        next.files = m.files ∧ (failure = .cancelled ∨ (∃ fault, failure = .http fault) ∨
          ∃ status : Http.Status, status.code ∉ goodCodes ∧
            failure = .sidecar request.purpose status) := by
  cases free : (m.after (c.exchange peer m.now request).elapsed).isCancelled with
  | true =>
      obtain ⟨last, ⟨f, -, rfl⟩, ended⟩ := run_call_of_cancelled use free
      exact Or.inr ⟨_, _, ended, rfl, Or.inl rfl⟩
  | false =>
      cases answer : (c.exchange peer m.now request).answer with
      | ok body =>
          exact Or.inl ⟨body, _, free, _, (exchange_eq_ok_iff wants).1 answer, rfl⟩
      | error failure =>
          have ended := run_call_of_free use free
          rw [answer] at ended
          exact Or.inr ⟨_, _, ended, rfl, Or.inr (failure_of_exchange answer)⟩

/-! ## Requests that fail -/

/-- An action begun in `m` fails, with its files as they were: as cancelled if the cancellation
fires within `d`, and else with this failure. -/
def Misses (m : Moment) (d : Nat) (failure : Failure) (ending : Ending α) : Prop :=
  ∃ next, ending = some (next, .error (if (m.after d).isCancelled then .cancelled else failure)) ∧
    next.files = m.files

/-- How a request made in `m` fails that wants a body. -/
structure Fails (c : Client) (peer : Http.Peer) (m : Moment) (request : Request)
    (ending : Ending α) : Prop where
  /-- Another code, whatever comes after it. -/
  refused : ∀ d response, c.Answered peer m.now request d response →
    response.status.code ∉ goodCodes →
      Misses m d (.sidecar request.purpose response.status) ending
  /-- A body that breaks off or falls short. -/
  broken : ∀ head rest response fault, c.Answered peer m.now request head response →
    response.status.code ∈ goodCodes → response.body = ⟨some rest, .error fault⟩ →
      head + rest < requestLimit → Misses m (head + rest) (.http fault) ending
  /-- A body that is not there in time. -/
  late : ∀ head response, c.Answered peer m.now request head response →
    response.status.code ∈ goodCodes →
      (∀ rest, response.body.after = some rest → requestLimit ≤ head + rest) →
        Misses m requestLimit (.http .timeout) ending
  unanswered : (∀ d response, ¬ c.Answered peer m.now request d response) →
    ∃ d fault, Misses m d (.http fault) ending
  cancelled : ∀ d body, c.Delivers peer m.now request d body →
    (m.after d).isCancelled = true → Misses m d .cancelled ending

theorem misses_of_exchange {failure : Failure} (took : (c.exchange peer m.now request).elapsed = d)
    (failed : (c.exchange peer m.now request).answer = .error failure) :
    Misses m d failure ((c.call peer m.now request use).run m) := by
  subst took
  unfold Misses
  cases free : (m.after (c.exchange peer m.now request).elapsed).isCancelled with
  | true =>
      obtain ⟨last, ⟨f, -, rfl⟩, ended⟩ := run_call_of_cancelled use free
      exact ⟨_, ended, rfl⟩
  | false =>
      have ended := run_call_of_free use free
      rw [failed] at ended
      exact ⟨_, ended, rfl⟩

theorem call_fails (wants : request.wantsBody = true) (c : Client) (peer : Http.Peer) (m : Moment)
    (use : Bytes → Os.FileSystem → Os.FileSystem × Except Failure α) :
    c.Fails peer m request ((c.call peer m.now request use).run m) := by
  constructor
  case refused =>
    intro d response answered bad
    obtain ⟨elapsed, answer⟩ := exchange_of_bad answered bad
    exact misses_of_exchange elapsed answer
  case broken =>
    intro head rest response fault answered good came inTime
    obtain ⟨elapsed, answer⟩ := exchange_of_good answered good wants
    rw [came, Http.Arrival.within_of_lt (by omega)] at elapsed answer
    exact misses_of_exchange elapsed answer
  case late =>
    intro head response answered good late
    obtain ⟨elapsed, answer⟩ := exchange_of_good answered good wants
    have inTime := answered.2
    have never : response.body.within (requestLimit - head) =
        (requestLimit - head, .error .timeout) := by
      apply Http.Arrival.within_of_late
      intro rest came
      have after := late rest came
      omega
    rw [never] at elapsed answer
    exact misses_of_exchange (elapsed.trans (by simp only; omega)) answer
  case unanswered =>
    intro unanswered
    obtain ⟨fault, failed⟩ := exchange_of_unanswered unanswered
    exact ⟨_, fault, misses_of_exchange rfl failed⟩
  case cancelled =>
    intro d body delivers cancelled
    obtain ⟨rfl, -⟩ := exchange_of_delivers wants delivers
    obtain ⟨last, ⟨f, -, rfl⟩, ended⟩ := run_call_of_cancelled use cancelled
    exact ⟨m.moveTo f, ended.trans (by rw [ite_self]), rfl⟩

end Sidecar.Client

end StoreWarden
