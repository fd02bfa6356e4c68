import Mathlib.Logic.Relation
import StoreWarden.Proofs.WholeReplies

/-!
# A cancelled client is silent

A request of the client goes here one step at a time.  While addresses are asked it watches a
cancellation of its own, which lies below the caller's: it counts as fired once either is, and it
is fired for good, by a guard, as soon as the head of the response is there or there will be none.
The body is read under the caller's cancellation alone.  Before anything else happens in a moment
the cancellation is looked at, and time passes only while nothing can be done.

The laws hold of courses in which the caller may cancel at any moment and the other side may be
another one at every step.  With one peer and without such a surprise the courses end where
`Client.call` ends, and what they have asked is `Client.sent`.
-/

set_option autoImplicit false

namespace StoreWarden

/-! ## Sending, seen from one address to the next -/

namespace Http

variable {peer : Peer} {limit addresses now spent d k : Nat} {request next : Request}
  {response : Response} {fault : Fault}

theorem Arrival.le_within {α : Type} {a : Arrival α} (silent : ∀ d, a.after = some d → k ≤ d)
    (open_ : k ≤ limit) : k ≤ (a.within limit).1 := by
  unfold within
  cases after : a.after with
  | none => exact open_
  | some d =>
      by_cases early : d < limit
      · simpa only [if_pos early] using silent d after
      · simpa only [if_neg early] using open_

/-- Who has waited since `since` for something that has not come has waited no longer than one
would with the limit, counted from `begun`. -/
theorem Arrival.awaited {α : Type} {a : Arrival α} {begun since : Nat}
    (silent : ∀ d, a.after = some d → now ≤ since + d) (open_ : now ≤ begun + limit)
    (after : begun ≤ since) : now - since ≤ (a.within (limit - (since - begun))).1 := by
  apply Arrival.le_within
  · intro d came
    have early := silent d came
    omega
  · omega

def Sent.behind {ε α : Type} (asked : List (Nat × Request)) (sent : Sent ε α) : Sent ε α :=
  { sent with asked := asked ++ sent.asked }

theorem Sent.behind_behind {ε α : Type} (first second : List (Nat × Request)) (sent : Sent ε α) :
    (sent.behind second).behind first = sent.behind (first ++ second) := by
  simp [behind]

theorem follow_of_fault (came : peer now request = ⟨some d, .error fault⟩)
    (early : spent + d < limit) : follow peer limit (addresses + 1) now spent request =
      ⟨[(now, request)], spent + d, .error fault⟩ := by
  unfold follow
  rw [came, Arrival.within_of_lt (by omega)]

theorem follow_of_settled (came : peer now request = ⟨some d, .ok response⟩)
    (settled : response.next? request = none) (early : spent + d < limit) :
    follow peer limit (addresses + 1) now spent request =
      ⟨[(now, request)], spent + d, .ok response⟩ := by
  unfold follow
  rw [came, Arrival.within_of_lt (by omega)]
  simp only [settled]

theorem follow_of_moved (came : peer now request = ⟨some d, .ok response⟩)
    (moved : response.next? request = some next) (early : spent + d < limit) :
    follow peer limit (addresses + 1) now spent request =
      (follow peer limit addresses (now + d) (spent + d) next).behind [(now, request)] := by
  rw [follow, came, Arrival.within_of_lt (by omega)]
  simp only [moved, Sent.behind, List.singleton_append]

theorem follow_of_late (late : ∀ d, (peer now request).after = some d → limit ≤ spent + d)
    (begun : spent ≤ limit) : follow peer limit (addresses + 1) now spent request =
      ⟨[(now, request)], limit, .error .timeout⟩ := by
  have never : (peer now request).within (limit - spent) = (limit - spent, .error .timeout) := by
    apply Arrival.within_of_late
    intro d after
    have := late d after
    omega
  unfold follow
  rw [never]
  simp only [Nat.add_sub_cancel' begun]

/-- Nothing is asked before now, and no time is won back. -/
theorem follow_forward (peer : Peer) (limit addresses : Nat) : ∀ (now spent : Nat)
    (request : Request), (∀ entry ∈ (follow peer limit addresses now spent request).asked,
      now ≤ entry.1) ∧ spent ≤ (follow peer limit addresses now spent request).elapsed := by
  induction addresses with
  | zero => simp [follow]
  | succ addresses ih =>
      intro now spent request
      unfold follow
      cases (peer now request).within (limit - spent) with
      | mk d answer =>
          cases answer with
          | error fault => simp
          | ok response =>
              cases moved : response.next? request with
              | none => simp [moved]
              | some next =>
                  obtain ⟨asked, elapsed⟩ := ih (now + d) (spent + d) next
                  simp only [moved, List.forall_mem_cons]
                  refine ⟨⟨Nat.le_refl now, fun entry later => ?_⟩, by omega⟩
                  exact (Nat.le_add_right now d).trans (asked entry later)

/-- What is asked after the first address comes no sooner than the answer from there. -/
theorem follow_after_first (peer : Peer) (limit addresses now spent : Nat) (request : Request) :
    ∃ later, (follow peer limit (addresses + 1) now spent request).asked =
        (now, request) :: later ∧
      (∀ entry ∈ later, now + ((peer now request).within (limit - spent)).1 ≤ entry.1) ∧
      spent + ((peer now request).within (limit - spent)).1 ≤
        (follow peer limit (addresses + 1) now spent request).elapsed := by
  unfold follow
  cases (peer now request).within (limit - spent) with
  | mk d answer =>
      cases answer with
      | error fault => exact ⟨[], rfl, by simp, Nat.le_refl _⟩
      | ok response =>
          cases moved : response.next? request with
          | none =>
              simp only [moved]
              exact ⟨[], rfl, by simp, Nat.le_refl _⟩
          | some next =>
              obtain ⟨asked, elapsed⟩ :=
                follow_forward peer limit addresses (now + d) (spent + d) next
              simp only [moved]
              exact ⟨_, rfl, asked, elapsed⟩

end Http

namespace Sidecar.Client

open Http (Peer Sent)

/-! ## Requests, step by step -/

inductive Phase where
  | calling (addresses : Nat) (next : Http.Request)
  /-- An address has been asked at some time. -/
  | sending (addresses since : Nat) (request : Http.Request)
  /-- The head of the response came at some time. -/
  | reading (since : Nat) (response : Http.Response)
  | ended (answer : Except Failure Bytes)

namespace Phase

/-- The response has not come yet, nor will it certainly not come. -/
def IsRequesting : Phase → Prop
  | calling .. | sending .. => True
  | reading .. | ended .. => False

def IsOpen : Phase → Prop
  | ended .. => False
  | _ => True

end Phase

structure Point where
  now : Nat
  token : Cancellation
  own : Cancellation
  asked : List (Nat × Http.Request)
  phase : Phase

namespace Point

/-- The request's own cancellation lies below the caller's. -/
def isOff (p : Point) : Bool := p.token.isFired p.now || p.own.isFired p.now

/-- The guard of the request's own cancellation goes. -/
def leave (p : Point) (phase : Phase) : Point :=
  { p with own := p.own.cancel p.now, phase }

def start (c : Client) (request : Request) (m : Moment) : Point :=
  ⟨m.now, m.token, .never, [],
    .calling Http.maxAddresses (.get (c.baseAddress ++ request.target))⟩

end Point

/-- What comes of the head of the last response. -/
def headed (request : Request) (now : Nat) (response : Http.Response) : Phase :=
  if !goodCodes.contains response.status.code then
    .ended (.error (.sidecar request.purpose response.status))
  else if request.wantsBody then .reading now response else .ended (.ok [])

inductive Does (peer : Peer) (begun : Nat) (request : Request) : Point → Point → Prop
  | givesUp {p : Point} (off : p.isOff = true) (requesting : p.phase.IsRequesting) :
      Does peer begun request p (p.leave (.ended (.error .cancelled)))
  | asks {p : Point} {addresses : Nat} {next : Http.Request} (on : p.isOff = false)
      (phase : p.phase = .calling (addresses + 1) next) :
      Does peer begun request p { p with
        asked := p.asked ++ [(p.now, next)], phase := .sending addresses p.now next }
  | wanders {p : Point} {next : Http.Request} (on : p.isOff = false)
      (phase : p.phase = .calling 0 next) :
      Does peer begun request p (p.leave (.ended (.error (.http .redirect))))
  | fails {p : Point} {addresses since d : Nat} {asked : Http.Request} {fault : Http.Fault}
      (on : p.isOff = false) (phase : p.phase = .sending addresses since asked)
      (came : peer since asked = ⟨some d, .error fault⟩) (past : since + d ≤ p.now)
      (early : p.now < begun + requestLimit) :
      Does peer begun request p (p.leave (.ended (.error (.http fault))))
  | moves {p : Point} {addresses since d : Nat} {asked next : Http.Request}
      {response : Http.Response} (on : p.isOff = false)
      (phase : p.phase = .sending addresses since asked)
      (came : peer since asked = ⟨some d, .ok response⟩) (past : since + d ≤ p.now)
      (early : p.now < begun + requestLimit) (moved : response.next? asked = some next) :
      Does peer begun request p { p with phase := .calling addresses next }
  | heads {p : Point} {addresses since d : Nat} {asked : Http.Request}
      {response : Http.Response} (on : p.isOff = false)
      (phase : p.phase = .sending addresses since asked)
      (came : peer since asked = ⟨some d, .ok response⟩) (past : since + d ≤ p.now)
      (early : p.now < begun + requestLimit) (settled : response.next? asked = none) :
      Does peer begun request p (p.leave (headed request p.now response))
  | expires {p : Point} {addresses since : Nat} {asked : Http.Request} (on : p.isOff = false)
      (phase : p.phase = .sending addresses since asked) (late : begun + requestLimit ≤ p.now) :
      Does peer begun request p (p.leave (.ended (.error (.http .timeout))))
  | waits {p : Point} {addresses since : Nat} {asked : Http.Request} (on : p.isOff = false)
      (phase : p.phase = .sending addresses since asked)
      (silent : ∀ d ∈ (peer since asked).after, p.now < since + d)
      (early : p.now < begun + requestLimit) :
      Does peer begun request p { p with now := p.now + 1 }
  | leavesOff {p : Point} {since : Nat} {response : Http.Response}
      (fired : p.token.isFired p.now = true) (phase : p.phase = .reading since response) :
      Does peer begun request p { p with phase := .ended (.error .cancelled) }
  | reads {p : Point} {since d : Nat} {response : Http.Response} {what : Except Http.Fault Bytes}
      (free : p.token.isFired p.now = false) (phase : p.phase = .reading since response)
      (came : response.body = ⟨some d, what⟩) (past : since + d ≤ p.now)
      (early : p.now < begun + requestLimit) :
      Does peer begun request p { p with phase := .ended (what.mapError .http) }
  | cutsOff {p : Point} {since : Nat} {response : Http.Response}
      (free : p.token.isFired p.now = false) (phase : p.phase = .reading since response)
      (late : begun + requestLimit ≤ p.now) :
      Does peer begun request p { p with phase := .ended (.error (.http .timeout)) }
  | lingers {p : Point} {since : Nat} {response : Http.Response}
      (free : p.token.isFired p.now = false) (phase : p.phase = .reading since response)
      (silent : ∀ d ∈ response.body.after, p.now < since + d)
      (early : p.now < begun + requestLimit) :
      Does peer begun request p { p with now := p.now + 1 }

inductive Step (begun : Nat) (request : Request) : Point → Point → Prop
  | own {peer : Peer} {p q : Point} (does : Does peer begun request p q) : Step begun request p q
  | cancelled {p : Point} : Step begun request p { p with token := p.token.cancel p.now }

/-- Where a request made in `m` may get to, with any peer at any step. -/
def Passes (c : Client) (request : Request) (m : Moment) : Point → Prop :=
  Relation.ReflTransGen (Step m.now request) (.start c request m)

/-- Where it gets to with one peer, if the caller does not cancel otherwise than foreseen. -/
def Reaches (c : Client) (peer : Peer) (request : Request) (m : Moment) : Point → Prop :=
  Relation.ReflTransGen (Does peer m.now request) (.start c request m)

variable {c : Client} {peer : Peer} {request : Request} {m : Moment} {begun : Nat} {p q : Point}

theorem token_of_does (does : Does peer begun request p q) : q.token = p.token := by
  cases does <;> rfl

theorem token_of_reaches (reached : c.Reaches peer request m p) : p.token = m.token := by
  induction reached with
  | refl => rfl
  | tail _ does ih => exact (token_of_does does).trans ih

/-- An open request can always do something. -/
theorem exists_does (peer : Peer) (begun : Nat) (request : Request) (on : p.phase.IsOpen) :
    ∃ q, Does peer begun request p q := by
  cases phase : p.phase with
  | ended answer => simp [phase, Phase.IsOpen] at on
  | calling addresses next =>
      cases off : p.isOff with
      | true => exact ⟨_, .givesUp off (by simp [phase, Phase.IsRequesting])⟩
      | false =>
          cases addresses with
          | zero => exact ⟨_, .wanders off phase⟩
          | succ addresses => exact ⟨_, .asks off phase⟩
  | sending addresses since asked =>
      cases off : p.isOff with
      | true => exact ⟨_, .givesUp off (by simp [phase, Phase.IsRequesting])⟩
      | false =>
          rcases Nat.lt_or_ge p.now (begun + requestLimit) with early | late
          · by_cases silent : ∀ d ∈ (peer since asked).after, p.now < since + d
            · exact ⟨_, .waits off phase silent early⟩
            · push Not at silent
              obtain ⟨d, after, past⟩ := silent
              cases came : peer since asked with
              | mk after' what =>
                  obtain rfl : after' = some d := by simpa [came] using after
                  cases what with
                  | error fault => exact ⟨_, .fails off phase came past early⟩
                  | ok response =>
                      cases moved : response.next? asked with
                      | none => exact ⟨_, .heads off phase came past early moved⟩
                      | some next => exact ⟨_, .moves off phase came past early moved⟩
          · exact ⟨_, .expires off phase late⟩
  | reading since response =>
      cases fired : p.token.isFired p.now with
      | true => exact ⟨_, .leavesOff fired phase⟩
      | false =>
          rcases Nat.lt_or_ge p.now (begun + requestLimit) with early | late
          · by_cases silent : ∀ d ∈ response.body.after, p.now < since + d
            · exact ⟨_, .lingers fired phase silent early⟩
            · push Not at silent
              obtain ⟨d, after, past⟩ := silent
              cases came : response.body with
              | mk after' what =>
                  obtain rfl : after' = some d := by simpa [came] using after
                  exact ⟨_, .reads fired phase came past early⟩
          · exact ⟨_, .cutsOff fired phase late⟩

/-! ## What holds on every course -/

/-- The request ends as cancelled: nothing is asked any more, and no time passes. -/
structure GivesUp (p q : Point) : Prop where
  now : q.now = p.now
  token : q.token = p.token
  asked : q.asked = p.asked
  phase : q.phase = .ended (.error .cancelled)

theorem givesUp_of_fired (fired : p.token.isFired p.now = true)
    (does : Does peer begun request p q) : GivesUp p q := by
  have off : p.isOff = true := by simp [Point.isOff, fired]
  cases does with
  | givesUp => exact ⟨rfl, rfl, rfl, rfl⟩
  | leavesOff => exact ⟨rfl, rfl, rfl, rfl⟩
  | asks on | wanders on | fails on | moves on | heads on | expires on | waits on =>
      exact absurd off (by simp [on])
  | reads free | cutsOff free | lingers free => exact absurd fired (by simp [free])

/-- What is known at every point of a course begun in `m`. -/
structure Kept (request : Request) (m : Moment) (p : Point) : Prop where
  spared : p.phase.IsRequesting → p.own = .never
  dropped : ¬ p.phase.IsRequesting → p.own.isFired p.now = true
  fired : p.phase = .ended (.error .cancelled) → p.token.isFired p.now = true
  wants : ∀ since response, p.phase = .reading since response → request.wantsBody = true
  quiet : m.isCancelled = true → p.token.isFired p.now = true ∧ p.asked = []

theorem kept_start : Kept request m (.start c request m) where
  spared _ := rfl
  dropped := by simp [Point.start, Phase.IsRequesting]
  fired := by simp [Point.start]
  wants := by simp [Point.start]
  quiet cancelled := ⟨cancelled, rfl⟩

theorem Kept.isOff_eq (kept : Kept request m p) (requesting : p.phase.IsRequesting) :
    p.isOff = p.token.isFired p.now := by
  simp [Point.isOff, kept.spared requesting]

theorem not_isRequesting_headed (request : Request) (now : Nat) (response : Http.Response) :
    ¬ (headed request now response).IsRequesting := by
  unfold headed
  split
  · simp [Phase.IsRequesting]
  · split <;> simp [Phase.IsRequesting]

theorem headed_ne_cancelled (request : Request) (now : Nat) (response : Http.Response) :
    headed request now response ≠ .ended (.error .cancelled) := by
  unfold headed
  split
  · simp
  · split <;> simp

theorem wantsBody_of_headed {now since : Nat} {head response : Http.Response}
    (phase : headed request now head = .reading since response) : request.wantsBody = true := by
  unfold headed at phase
  split at phase
  · cases phase
  · split at phase
    · assumption
    · cases phase

theorem mapError_ne_cancelled (what : Except Http.Fault Bytes) :
    what.mapError Failure.http ≠ .error Failure.cancelled := by
  cases what <;> simp [Except.mapError]

/-- The way out of asking addresses. -/
theorem Kept.leave {phase : Phase} (kept : Kept request m p) (left : ¬ phase.IsRequesting)
    (fired : phase = .ended (.error .cancelled) → p.token.isFired p.now = true)
    (wants : ∀ since response, phase = .reading since response → request.wantsBody = true) :
    Kept request m (p.leave phase) where
  spared requesting := absurd requesting left
  dropped _ := by simp [Point.leave, Cancellation.isFired_cancel]
  fired := fired
  wants := wants
  quiet := kept.quiet

theorem Kept.does (kept : Kept request m p) (does : Does peer begun request p q) :
    Kept request m q := by
  -- the steps that leave the requesting phases fire the request's own cancellation, all others
  -- leave it alone
  cases does with
  | givesUp off requesting =>
      refine kept.leave (by simp [Phase.IsRequesting]) (fun _ => ?_) (by simp)
      rw [← kept.isOff_eq requesting]
      exact off
  | wanders on phase => exact kept.leave (by simp [Phase.IsRequesting]) (by simp) (by simp)
  | fails on phase => exact kept.leave (by simp [Phase.IsRequesting]) (by simp) (by simp)
  | expires on phase => exact kept.leave (by simp [Phase.IsRequesting]) (by simp) (by simp)
  | heads on phase =>
      exact kept.leave (not_isRequesting_headed _ _ _)
        (fun cancelled => absurd cancelled (headed_ne_cancelled _ _ _))
        fun _ _ reading => wantsBody_of_headed reading
  | asks on phase =>
      have own := kept.spared (by simp [phase, Phase.IsRequesting])
      refine ⟨fun _ => own, by simp [Phase.IsRequesting], by simp, by simp, fun cancelled => ?_⟩
      have fired := (kept.quiet cancelled).1
      simp [Point.isOff, fired] at on
  | moves on phase =>
      have own := kept.spared (by simp [phase, Phase.IsRequesting])
      exact ⟨fun _ => own, by simp [Phase.IsRequesting], by simp, by simp, kept.quiet⟩
  | waits on phase =>
      have requesting : p.phase.IsRequesting := by simp [phase, Phase.IsRequesting]
      refine ⟨fun _ => kept.spared requesting, fun left => absurd requesting left, ?_, ?_, ?_⟩
      · simp [phase]
      · simp [phase]
      · intro cancelled
        obtain ⟨fired, asked⟩ := kept.quiet cancelled
        exact ⟨Cancellation.isFired_mono (Nat.le_succ _) fired, asked⟩
  | leavesOff fired phase =>
      have dropped := kept.dropped (by simp [phase, Phase.IsRequesting])
      exact ⟨by simp [Phase.IsRequesting], fun _ => dropped, fun _ => fired, by simp, kept.quiet⟩
  | reads free phase =>
      have dropped := kept.dropped (by simp [phase, Phase.IsRequesting])
      refine ⟨by simp [Phase.IsRequesting], fun _ => dropped, ?_, by simp, kept.quiet⟩
      intro cancelled
      exact absurd (Phase.ended.inj cancelled) (mapError_ne_cancelled _)
  | cutsOff free phase =>
      have dropped := kept.dropped (by simp [phase, Phase.IsRequesting])
      exact ⟨by simp [Phase.IsRequesting], fun _ => dropped, by simp, by simp, kept.quiet⟩
  | lingers free phase =>
      have left : ¬ p.phase.IsRequesting := by simp [phase, Phase.IsRequesting]
      refine ⟨fun requesting => absurd requesting left, fun _ => ?_, by simp [phase], kept.wants,
        fun cancelled => ?_⟩
      · exact Cancellation.isFired_mono (Nat.le_succ _) (kept.dropped left)
      · have fired := (kept.quiet cancelled).1
        simp [fired] at free

theorem Kept.step (kept : Kept request m p) (step : Step begun request p q) :
    Kept request m q := by
  cases step with
  | own does => exact kept.does does
  | cancelled =>
      have fired : (p.token.cancel p.now).isFired p.now = true := by
        simp [Cancellation.isFired_cancel]
      exact ⟨kept.spared, kept.dropped, fun _ => fired, kept.wants, fun cancelled =>
        ⟨fired, (kept.quiet cancelled).2⟩⟩

theorem kept_of_passes (passes : c.Passes request m p) : Kept request m p := by
  induction passes with
  | refl => exact kept_start
  | tail _ step ih => exact ih.step step

/-! ## With one peer, and the caller's cancellation foreseen -/

/-- What comes of sending. -/
def conclude (request : Request) (sent : Sent Http.Fault Http.Response) : Sent Failure Bytes :=
  match sent.answer with
  | .error fault => { sent with answer := .error (.http fault) }
  | .ok response =>
    if !goodCodes.contains response.status.code then
      { sent with answer := .error (.sidecar request.purpose response.status) }
    else if request.wantsBody then
      let (d, body) := response.body.within (requestLimit - sent.elapsed)
      ⟨sent.asked, sent.elapsed + d, body.mapError .http⟩
    else { sent with answer := .ok [] }

theorem exchange_eq (c : Client) (peer : Peer) (t : Nat) (request : Request) :
    c.exchange peer t request = conclude request
      (Http.send peer requestLimit t (.get (c.baseAddress ++ request.target))) :=
  rfl

section
variable {sent : Sent Http.Fault Http.Response} {asked : List (Nat × Http.Request)}
  {elapsed now : Nat} {response : Http.Response}

theorem conclude_asked (request : Request) (sent : Sent Http.Fault Http.Response) :
    (conclude request sent).asked = sent.asked := by
  unfold conclude
  split
  · rfl
  · split
    · rfl
    · split <;> rfl

theorem elapsed_le_conclude (request : Request) (sent : Sent Http.Fault Http.Response) :
    sent.elapsed ≤ (conclude request sent).elapsed := by
  unfold conclude
  split
  · exact Nat.le_refl _
  · split
    · exact Nat.le_refl _
    · split
      · exact Nat.le_add_right _ _
      · exact Nat.le_refl _

theorem conclude_behind (request : Request) (sent : Sent Http.Fault Http.Response) :
    conclude request (sent.behind asked) = (conclude request sent).behind asked := by
  obtain ⟨own, elapsed, answer⟩ := sent
  cases answer with
  | error fault => rfl
  | ok response =>
      simp only [conclude, Sent.behind]
      split
      · rfl
      · split <;> rfl

theorem conclude_of_response (request : Request) (asked : List (Nat × Http.Request))
    (elapsed now : Nat) (response : Http.Response) :
    (∃ answer, headed request now response = .ended answer ∧
      conclude request ⟨asked, elapsed, .ok response⟩ = ⟨asked, elapsed, answer⟩) ∨
    headed request now response = .reading now response ∧
      conclude request ⟨asked, elapsed, .ok response⟩ =
        ⟨asked, elapsed + (response.body.within (requestLimit - elapsed)).1,
          (response.body.within (requestLimit - elapsed)).2.mapError .http⟩ := by
  unfold headed conclude
  by_cases bad : (!goodCodes.contains response.status.code) = true
  · simp only [if_pos bad]
    exact Or.inl ⟨_, rfl, rfl⟩
  · by_cases wants : request.wantsBody = true
    · simp only [if_neg bad, if_pos wants, and_self, or_true]
    · simp only [if_neg bad, if_neg wants]
      exact Or.inl ⟨_, rfl, rfl⟩

end

/-- The requests of the list that go out before the caller's cancellation fires. -/
def heard (m : Moment) (asked : List (Nat × Http.Request)) : List (Nat × Http.Request) :=
  asked.filter fun (t, _) => !m.token.isFired t

theorem heard_append (m : Moment) (first second : List (Nat × Http.Request)) :
    heard m (first ++ second) = heard m first ++ heard m second :=
  List.filter_append first second

theorem heard_of_fired {asked : List (Nat × Http.Request)} {now : Nat}
    (fired : m.token.isFired now = true) (late : ∀ entry ∈ asked, now ≤ entry.1) :
    heard m asked = [] := by
  refine List.filter_eq_nil_iff.2 fun entry there => ?_
  simp [Cancellation.isFired_mono (late entry there) fired]

/-- What is known at every point of a course with one peer, begun in `m`: what is still to come of
sending, and that the caller's cancellation has not been passed over. -/
inductive Stands (c : Client) (peer : Peer) (request : Request) (m : Moment) : Point → Prop
  | calling {now addresses : Nat} {asked : List (Nat × Http.Request)}
      {next : Http.Request} (begun : m.now ≤ now) (early : now < m.now + requestLimit)
      (fresh : ∀ f ∈ m.token.firesAt, now ≤ max m.now f) (heard : heard m asked = asked)
      (rest : c.exchange peer m.now request = (conclude request
        (Http.follow peer requestLimit addresses now (now - m.now) next)).behind asked) :
      Stands c peer request m ⟨now, m.token, .never, asked, .calling addresses next⟩
  | sending {now since addresses : Nat} {asked : List (Nat × Http.Request)}
      {next : Http.Request} (begun : m.now ≤ since) (early : since < m.now + requestLimit)
      (past : since ≤ now) (open_ : now ≤ m.now + requestLimit)
      (silent : ∀ d, (peer since next).after = some d → now ≤ since + d)
      (fresh : ∀ f ∈ m.token.firesAt, now ≤ max m.now f) (heard : heard m asked = asked)
      (on : m.token.isFired since = false)
      (rest : c.exchange peer m.now request = (conclude request
        (Http.follow peer requestLimit (addresses + 1) since (since - m.now) next)).behind asked) :
      Stands c peer request m
        ⟨now, m.token, .never, asked ++ [(since, next)], .sending addresses since next⟩
  | reading {now since : Nat} {own : Cancellation} {asked : List (Nat × Http.Request)}
      {response : Http.Response} (begun : m.now ≤ since) (early : since < m.now + requestLimit)
      (past : since ≤ now) (open_ : now ≤ m.now + requestLimit)
      (silent : ∀ d, response.body.after = some d → now ≤ since + d)
      (fresh : ∀ f ∈ m.token.firesAt, now ≤ max m.now f) (heard : heard m asked = asked)
      (rest : c.exchange peer m.now request = ⟨asked,
        since - m.now + (response.body.within (requestLimit - (since - m.now))).1,
        (response.body.within (requestLimit - (since - m.now))).2.mapError .http⟩) :
      Stands c peer request m ⟨now, m.token, own, asked, .reading since response⟩
  | cancelled {now f : Nat} {own : Cancellation} {asked : List (Nat × Http.Request)}
      (fires : m.token.firesAt = some f) (at_ : now = max m.now f)
      (inTime : now ≤ m.now + (c.exchange peer m.now request).elapsed)
      (heard : heard m (c.exchange peer m.now request).asked = asked) :
      Stands c peer request m ⟨now, m.token, own, asked, .ended (.error .cancelled)⟩
  | ended {now : Nat} {own : Cancellation} {asked : List (Nat × Http.Request)}
      (on : m.token.isFired now = false) (heard : heard m asked = asked)
      {answer : Except Failure Bytes}
      (whole : c.exchange peer m.now request = ⟨asked, now - m.now, answer⟩)
      (begun : m.now ≤ now) :
      Stands c peer request m ⟨now, m.token, own, asked, .ended answer⟩

theorem stands_start (c : Client) (peer : Peer) (request : Request) (m : Moment) :
    Stands c peer request m (.start c request m) := by
  refine .calling (Nat.le_refl _) (Nat.lt_add_of_pos_right (by decide)) ?_ rfl ?_
  · exact fun f _ => Nat.le_max_left _ _
  · rw [exchange_eq, Nat.sub_self]
    rfl

theorem eq_max_of_fired {now : Nat} (begun : m.now ≤ now)
    (fresh : ∀ f ∈ m.token.firesAt, now ≤ max m.now f) (fired : m.token.isFired now = true) :
    ∃ f, m.token.firesAt = some f ∧ now = max m.now f := by
  unfold Cancellation.isFired at fired
  cases fires : m.token.firesAt with
  | none => simp [fires] at fired
  | some f =>
      have upper := fresh f fires
      simp only [fires, decide_eq_true_eq] at fired
      exact ⟨f, rfl, by omega⟩

theorem fresh_succ {now : Nat} (free : m.token.isFired now = false) :
    ∀ f ∈ m.token.firesAt, now + 1 ≤ max m.now f := by
  intro f fires
  have fires : m.token.firesAt = some f := fires
  simp only [Cancellation.isFired, fires, decide_eq_false_iff_not] at free
  omega

theorem heard_snoc {asked : List (Nat × Http.Request)} {now : Nat} {next : Http.Request}
    (all : heard m asked = asked) (on : m.token.isFired now = false) :
    heard m (asked ++ [(now, next)]) = asked ++ [(now, next)] := by
  rw [heard_append, all]
  simp [heard, on]

section
variable {now since addresses : Nat} {asked : List (Nat × Http.Request)} {next : Http.Request}

/-- A cancellation that fires before the next address is asked leaves nothing more to be heard. -/
theorem cancelled_of_calling (begun : m.now ≤ now) (all : heard m asked = asked)
    (rest : c.exchange peer m.now request = (conclude request
      (Http.follow peer requestLimit addresses now (now - m.now) next)).behind asked)
    (fired : m.token.isFired now = true) :
    heard m (c.exchange peer m.now request).asked = asked ∧
      now ≤ m.now + (c.exchange peer m.now request).elapsed := by
  obtain ⟨later, forward⟩ := Http.follow_forward peer requestLimit addresses now (now - m.now) next
  have concluded := elapsed_le_conclude request
    (Http.follow peer requestLimit addresses now (now - m.now) next)
  rw [rest]
  constructor
  · simp only [Sent.behind, heard_append, all, conclude_asked, heard_of_fired fired later,
      List.append_nil]
  · simp only [Sent.behind]
    omega

/-- The same before the answer of the address that was asked. -/
theorem cancelled_of_sending (begun : m.now ≤ since) (past : since ≤ now)
    (open_ : now ≤ m.now + requestLimit)
    (silent : ∀ d, (peer since next).after = some d → now ≤ since + d)
    (all : heard m asked = asked) (on : m.token.isFired since = false)
    (rest : c.exchange peer m.now request = (conclude request
      (Http.follow peer requestLimit (addresses + 1) since (since - m.now) next)).behind asked)
    (fired : m.token.isFired now = true) :
    heard m (c.exchange peer m.now request).asked = asked ++ [(since, next)] ∧
      now ≤ m.now + (c.exchange peer m.now request).elapsed := by
  have awaited := Http.Arrival.awaited silent open_ begun
  obtain ⟨later, first, follows, forward⟩ :=
    Http.follow_after_first peer requestLimit addresses since (since - m.now) next
  have concluded := elapsed_le_conclude request
    (Http.follow peer requestLimit (addresses + 1) since (since - m.now) next)
  have late : ∀ entry ∈ later, now ≤ entry.1 := by
    intro entry there
    have := follows entry there
    omega
  rw [rest]
  constructor
  · simp only [Sent.behind, conclude_asked, first]
    rw [List.append_cons, heard_append, heard_snoc all on, heard_of_fired fired late,
      List.append_nil]
  · simp only [Sent.behind]
    omega

end

theorem Stands.does (stands : Stands c peer request m p) (does : Does peer m.now request p q) :
    Stands c peer request m q := by
  -- time never goes past what is due, so that what is noticed comes exactly now
  cases stands with
  | @calling now addresses asked next begun early fresh all rest =>
      cases does with
      | givesUp off _ =>
          have fired : m.token.isFired now = true := by simpa [Point.isOff] using off
          obtain ⟨f, fires, at_⟩ := eq_max_of_fired begun fresh fired
          obtain ⟨heard, inTime⟩ := cancelled_of_calling begun all rest fired
          exact .cancelled fires at_ inTime heard
      | asks on phase =>
          cases phase
          have free : m.token.isFired now = false := by simpa [Point.isOff] using on
          refine .sending begun early (Nat.le_refl _) (by simp only; omega) ?_ fresh all free rest
          exact fun d _ => Nat.le_add_right _ _
      | wanders on phase =>
          cases phase
          have free : m.token.isFired now = false := by simpa [Point.isOff] using on
          refine .ended free all ?_ begun
          rw [rest]
          simp [Http.follow, conclude, Sent.behind]
      | fails _ phase | moves _ phase | heads _ phase | expires _ phase | waits _ phase
      | leavesOff _ phase | reads _ phase | cutsOff _ phase | lingers _ phase => cases phase
  | @sending now since addresses asked next begun early past open_ silent fresh all on rest =>
      cases does with
      | givesUp off _ =>
          have fired : m.token.isFired now = true := by simpa [Point.isOff] using off
          obtain ⟨f, fires, at_⟩ := eq_max_of_fired (begun.trans past) fresh fired
          obtain ⟨heard, inTime⟩ :=
            cancelled_of_sending begun past open_ silent all on rest fired
          exact .cancelled fires at_ inTime heard
      | asks _ phase | wanders _ phase | leavesOff _ phase | reads _ phase | cutsOff _ phase
      | lingers _ phase => cases phase
      | @fails _ _ d _ _ on' phase came past' early' =>
          cases phase
          have free : m.token.isFired now = false := by simpa [Point.isOff] using on'
          obtain rfl : now = since + d := Nat.le_antisymm (silent d (by rw [came])) past'
          refine .ended free (heard_snoc all on) ?_ (begun.trans past)
          rw [rest, Http.follow_of_fault came (by omega)]
          simp only [conclude, Sent.behind, Sent.mk.injEq, true_and, and_true]
          omega
      | @moves _ _ d _ _ _ on' phase came past' early' moved =>
          cases phase
          obtain rfl : now = since + d := Nat.le_antisymm (silent d (by rw [came])) past'
          refine .calling (begun.trans past) early' fresh (heard_snoc all on) ?_
          rw [rest, Http.follow_of_moved came moved (by omega), conclude_behind,
            Sent.behind_behind, Nat.sub_add_comm begun]
      | @heads _ _ d _ response on' phase came past' early' settled =>
          cases phase
          have free : m.token.isFired now = false := by simpa [Point.isOff] using on'
          obtain rfl : now = since + d := Nat.le_antisymm (silent d (by rw [came])) past'
          rw [Http.follow_of_settled came settled (by omega),
            ← Nat.sub_add_comm begun] at rest
          obtain ⟨answer, head, concluded⟩ | ⟨head, concluded⟩ := conclude_of_response request
            [(since, next)] (since + d - m.now) (since + d) response
          · simp only [Point.leave, head]
            refine .ended free (heard_snoc all on) ?_ (begun.trans past)
            rw [rest, concluded]
            rfl
          · simp only [Point.leave, head]
            refine .reading (begun.trans past) early' (Nat.le_refl _) (Nat.le_of_lt early')
              (fun d _ => Nat.le_add_right _ _) fresh (heard_snoc all on) ?_
            rw [rest, concluded]
            rfl
      | expires on' phase late =>
          cases phase
          have free : m.token.isFired now = false := by simpa [Point.isOff] using on'
          obtain rfl : now = m.now + requestLimit := Nat.le_antisymm open_ late
          refine .ended free (heard_snoc all on) ?_ (begun.trans past)
          rw [rest, Http.follow_of_late _ (by omega)]
          · simp [conclude, Sent.behind]
          · intro d after
            have := silent d after
            omega
      | waits on' phase silent' early' =>
          cases phase
          have free : m.token.isFired now = false := by simpa [Point.isOff] using on'
          exact .sending begun early (Nat.le_succ_of_le past) early'
            (fun d after => silent' d after) (fresh_succ free) all on rest
  | @reading now since own asked response begun early past open_ silent fresh all rest =>
      cases does with
      | givesUp _ requesting => exact absurd requesting (by simp [Phase.IsRequesting])
      | asks _ phase | wanders _ phase | fails _ phase | moves _ phase | heads _ phase
      | expires _ phase | waits _ phase => cases phase
      | leavesOff fired phase =>
          obtain ⟨f, fires, at_⟩ := eq_max_of_fired (begun.trans past) fresh fired
          have awaited := Http.Arrival.awaited silent open_ begun
          refine .cancelled fires at_ ?_ (by rw [rest]; exact all)
          simp only [rest]
          omega
      | @reads _ d _ _ free phase came past' early' =>
          cases phase
          obtain rfl : now = since + d := Nat.le_antisymm (silent d (by rw [came])) past'
          refine .ended free all ?_ (begun.trans past)
          rw [rest, came, Http.Arrival.within_of_lt (by omega)]
          simp only [Sent.mk.injEq, true_and, and_true]
          omega
      | cutsOff free phase late =>
          cases phase
          obtain rfl : now = m.now + requestLimit := Nat.le_antisymm open_ late
          have never : response.body.within (requestLimit - (since - m.now)) =
              (requestLimit - (since - m.now), .error .timeout) := by
            apply Http.Arrival.within_of_late
            intro d after
            have := silent d after
            omega
          refine .ended free all ?_ (begun.trans past)
          rw [rest, never]
          simp only [Sent.mk.injEq, true_and, Except.mapError, and_true]
          omega
      | lingers free phase silent' early' =>
          cases phase
          exact .reading begun early (Nat.le_succ_of_le past) early'
            (fun d after => silent' d after) (fresh_succ free) all rest
  | cancelled | ended =>
      cases does with
      | givesUp _ requesting => exact absurd requesting (by simp [Phase.IsRequesting])
      | asks _ phase | wanders _ phase | fails _ phase | moves _ phase | heads _ phase
      | expires _ phase | waits _ phase | leavesOff _ phase | reads _ phase | cutsOff _ phase
      | lingers _ phase => cases phase

theorem stands_of_reaches (reached : c.Reaches peer request m p) : Stands c peer request m p := by
  induction reached with
  | refl => exact stands_start c peer request m
  | tail _ does ih => exact ih.does does

/-! ## Every request ends -/

/-- What is left to do, but for time. -/
def Phase.rank : Phase → Nat
  | calling addresses _ => 2 * addresses + 3
  | sending addresses _ _ => 2 * addresses + 4
  | reading .. => 1
  | ended _ => 0

def Point.rank (begun : Nat) (p : Point) : Nat := begun + requestLimit - p.now + p.phase.rank

theorem rank_headed (request : Request) (now : Nat) (response : Http.Response) :
    (headed request now response).rank ≤ 1 := by
  unfold headed
  split
  · exact Nat.zero_le 1
  · split
    · exact Nat.le_refl 1
    · exact Nat.zero_le 1

theorem rank_of_does (does : Does peer begun request p q) : q.rank begun < p.rank begun := by
  cases does with
  | @givesUp off requesting =>
      cases phase : p.phase with
      | calling addresses next => simp only [Point.rank, Point.leave, phase, Phase.rank]; omega
      | sending addresses since asked =>
          simp only [Point.rank, Point.leave, phase, Phase.rank]; omega
      | reading since response => simp [phase, Phase.IsRequesting] at requesting
      | ended answer => simp [phase, Phase.IsRequesting] at requesting
  | asks on phase | wanders on phase | fails on phase | moves on phase | expires on phase =>
      simp only [Point.rank, Point.leave, phase, Phase.rank]
      omega
  | @heads addresses since _ asked response on phase =>
      have head := rank_headed request p.now response
      have before : (Phase.sending addresses since asked).rank = 2 * addresses + 4 := rfl
      simp only [Point.rank, Point.leave, phase]
      omega
  | waits on phase silent early | lingers on phase silent early =>
      simp only [Point.rank]
      omega
  | leavesOff fired phase | reads free phase | cutsOff free phase =>
      simp only [Point.rank, phase, Phase.rank]
      omega

theorem exists_ended (reached : c.Reaches peer request m p) :
    ∃ q answer, c.Reaches peer request m q ∧ q.phase = .ended answer := by
  -- on what is left: an open request goes on, and each step leaves less
  induction left : p.rank m.now using Nat.strong_induction_on generalizing p with
  | _ left ih =>
      cases phase : p.phase with
      | ended answer => exact ⟨p, answer, reached, phase⟩
      | calling addresses next | sending addresses since asked | reading since response =>
          have on : p.phase.IsOpen := by simp [phase, Phase.IsOpen]
          obtain ⟨q, does⟩ := exists_does peer m.now request on
          exact ih _ (by rw [← left]; exact rank_of_does does) (reached.tail does) rfl

/-! ## The requests as actions -/

section
variable {α : Type} {use : Bytes → Os.FileSystem → Os.FileSystem × Except Failure α}
  {answer : Except Failure Bytes}

/-- How an action ends that makes something of a request's answer. -/
def ending (use : Bytes → Os.FileSystem → Os.FileSystem × Except Failure α) (m : Moment)
    (now : Nat) : Except Failure Bytes → Moment × Except Failure α
  | .ok body => ({ m.moveTo now with files := (use body m.files).1 }, (use body m.files).2)
  | .error failure => (m.moveTo now, .error failure)

theorem run_call_of_fires (c : Client) (peer : Peer) (request : Request)
    (use : Bytes → Os.FileSystem → Os.FileSystem × Except Failure α) {f : Nat}
    (fires : m.token.firesAt = some f)
    (inTime : f ≤ m.now + (c.exchange peer m.now request).elapsed) :
    (c.call peer m.now request use).run m = some (m.moveTo (max m.now f), .error .cancelled) := by
  have cancelled := Moment.isCancelled_after.2 ⟨f, fires, inTime⟩
  unfold Call.run
  rw [givesUpAt_call, if_pos cancelled, Cancellation.seenFrom, fires]
  rfl

/-- The call ends where the course of the request does, and has asked the same. -/
theorem run_call_of_ended (use : Bytes → Os.FileSystem → Os.FileSystem × Except Failure α)
    (reached : c.Reaches peer request m p) (ended : p.phase = .ended answer) :
    p.asked = c.sent peer m request ∧
      (c.call peer m.now request use).run m = some (ending use m p.now answer) := by
  cases stands_of_reaches reached with
  | calling => cases ended
  | sending => cases ended
  | reading => cases ended
  | cancelled fires at_ inTime all =>
      cases ended
      refine ⟨all.symm, ?_⟩
      rw [run_call_of_fires c peer request use fires (by omega), ← at_]
      rfl
  | @ended now own asked on all answer whole begun =>
      cases ended
      have done : m.after (c.exchange peer m.now request).elapsed = m.moveTo now := by
        rw [whole, Moment.after, Nat.add_sub_cancel' begun]
      refine ⟨?_, ?_⟩
      · rw [← all, sent, whole]
        rfl
      · have free : (m.after (c.exchange peer m.now request).elapsed).isCancelled = false := by
          rw [done]
          exact on
        rw [run_call_of_free use free, done, whole]
        cases answer <;> rfl

/-- What holds of a request of the client as the action that makes something of its body. -/
structure Silent (c : Client) (request : Request)
    (use : Bytes → Os.FileSystem → Os.FileSystem × Except Failure α) (act : Peer → Action α) :
    Prop where
  /-- With the cancellation fired from the start nothing is asked. -/
  unbegun : ∀ peer m, m.isCancelled = true → c.sent peer m request = [] ∧
    act peer m = some (m, .error .cancelled) ∧ ∀ p, c.Passes request m p → p.asked = []
  /-- With the cancellation fired in any phase there is one thing left to do, for every peer. -/
  atOnce : ∀ m p, c.Passes request m p → p.phase.IsOpen → p.token.isFired p.now = true →
    ∀ peer, (∃ q, Does peer m.now request p q) ∧
      ∀ q, Does peer m.now request p q → GivesUp p q
  only : ∀ m p, c.Passes request m p → p.phase = .ended (.error .cancelled) →
    p.token.isFired p.now = true
  /-- What the request does never cancels for the caller, its guard included. -/
  spares : ∀ peer begun p q, Does peer begun request p q → q.token = p.token
  guarded : ∀ m p, c.Passes request m p →
    (p.own.isFired p.now = true ↔ ¬ p.phase.IsRequesting)
  bodies : ∀ m p since response, c.Passes request m p → p.phase = .reading since response →
    request.wantsBody = true
  ends : ∀ peer m, ∃ p answer, c.Reaches peer request m p ∧ p.phase = .ended answer
  agrees : ∀ peer m p answer, c.Reaches peer request m p → p.phase = .ended answer →
    p.asked = c.sent peer m request ∧ act peer m = some (ending use m p.now answer)
  cutShort : ∀ peer m p, c.Reaches peer request m p → p.phase.IsOpen →
    m.token.isFired p.now = true →
      c.sent peer m request = p.asked ∧ act peer m = some (m.moveTo p.now, .error .cancelled)
  /-- The action ends as cancelled if and only if the cancellation fires before it would end. -/
  cancelled : ∀ peer m last, act peer m = some (last, .error .cancelled) ↔
    ∃ f, m.token.firesAt = some f ∧ f ≤ m.now + (c.exchange peer m.now request).elapsed ∧
      last = m.moveTo (max m.now f)
  keeps : ∀ peer m last result, act peer m = some (last, result) → last.token = m.token

theorem sent_of_cancelled (cancelled : m.isCancelled = true) : c.sent peer m request = [] := by
  obtain ⟨p, answer, reached, ended⟩ :=
    exists_ended (.refl : c.Reaches peer request m _)
  have passes : c.Passes request m p :=
    Relation.ReflTransGen.mono (fun _ _ does => Step.own does) _ _ reached
  rw [← (run_call_of_ended (fun _ fs => (fs, .ok ())) reached ended).1]
  exact ((kept_of_passes passes).quiet cancelled).2

theorem ne_cancelled_of_exchange :
    (c.exchange peer m.now request).answer ≠ .error .cancelled := by
  intro cancelled
  obtain ⟨fault, http⟩ | ⟨status, -, refused⟩ := failure_of_exchange cancelled
  · cases http
  · cases refused

/-- A call is cancelled only by the cancellation that it was given. -/
theorem run_call_eq_cancelled_iff (honest : ∀ body fs, (use body fs).2 ≠ .error .cancelled)
    {last : Moment} : (c.call peer m.now request use).run m = some (last, .error .cancelled) ↔
      ∃ f, m.token.firesAt = some f ∧ f ≤ m.now + (c.exchange peer m.now request).elapsed ∧
        last = m.moveTo (max m.now f) := by
  constructor
  · intro ran
    cases free : (m.after (c.exchange peer m.now request).elapsed).isCancelled with
    | true =>
        obtain ⟨f, fires, inTime⟩ := Moment.isCancelled_after.1 free
        rw [run_call_of_fires c peer request use fires inTime] at ran
        exact ⟨f, fires, inTime, (Prod.mk.inj (Option.some.inj ran)).1.symm⟩
    | false =>
        rw [run_call_of_free use free] at ran
        cases answer : (c.exchange peer m.now request).answer with
        | ok body =>
            rw [answer] at ran
            exact absurd (Prod.mk.inj (Option.some.inj ran)).2 (honest body m.files)
        | error failure =>
            rw [answer] at ran
            obtain rfl := Except.error.inj (Prod.mk.inj (Option.some.inj ran)).2
            exact absurd answer ne_cancelled_of_exchange
  · rintro ⟨f, fires, inTime, rfl⟩
    exact run_call_of_fires c peer request use fires inTime

theorem silent_call (c : Client) (request : Request)
    (use : Bytes → Os.FileSystem → Os.FileSystem × Except Failure α)
    (honest : ∀ body fs, (use body fs).2 ≠ .error .cancelled) :
    c.Silent request use fun peer m => (c.call peer m.now request use).run m where
  unbegun peer m cancelled := by
    refine ⟨sent_of_cancelled cancelled, ?_, fun p passes =>
      ((kept_of_passes passes).quiet cancelled).2⟩
    obtain ⟨f, fires, past⟩ := Cancellation.isFired_iff.1 cancelled
    have ran := run_call_of_fires c peer request use fires (by omega)
    rw [Nat.max_eq_left past] at ran
    exact ran
  atOnce m p _ on fired peer :=
    ⟨exists_does peer m.now request on, fun q does => givesUp_of_fired fired does⟩
  only m p passes := (kept_of_passes passes).fired
  spares peer begun p q := token_of_does
  guarded m p passes := by
    have kept := kept_of_passes passes
    refine ⟨fun fired requesting => ?_, kept.dropped⟩
    simp [kept.spared requesting] at fired
  bodies m p since response passes := (kept_of_passes passes).wants since response
  ends peer m := exists_ended .refl
  agrees peer m p answer reached ended := run_call_of_ended use reached ended
  cutShort peer m p reached on fired := by
    obtain ⟨q, does⟩ := exists_does peer m.now request on
    rw [← token_of_reaches reached] at fired
    have gives := givesUp_of_fired fired does
    obtain ⟨asked, ran⟩ := run_call_of_ended use (reached.tail does) gives.phase
    exact ⟨asked.symm.trans gives.asked, by rw [ran, gives.now]; rfl⟩
  cancelled peer m last := run_call_eq_cancelled_iff honest
  keeps peer m last result ran := by
    obtain ⟨p, answer, reached, ended⟩ :=
      exists_ended (.refl : c.Reaches peer request m _)
    rw [(run_call_of_ended use reached ended).2] at ran
    obtain ⟨rfl, -⟩ := Prod.mk.inj (Option.some.inj ran)
    cases answer <;> rfl

end

theorem store_ne_cancelled (c : Client) (body : Bytes) (fs : Os.FileSystem) :
    (c.store body fs).2 ≠ .error .cancelled := by
  unfold store
  cases fs.create c.document documentMode <;> simp

/-- The three requests of a client, whatever peer there is. -/
theorem service_silent (c : Client) (n : Nat) :
    c.Silent .status (fun body fs => (fs, .ok (.ofBody body)))
        (fun peer m => ((c.service peer).status n m.now).run m) ∧
      (∀ depth, c.Silent (.trigger depth) (fun _ fs => (fs, .ok ()))
        fun peer m => ((c.service peer).trigger n m.now depth).run m) ∧
      c.Silent .document c.store
        (fun peer m => ((c.service peer).document n m.now).run m) := by
  refine ⟨?_, fun depth => ?_, ?_⟩
  · exact c.silent_call .status _ (by simp)
  · exact c.silent_call (.trigger depth) _ (by simp)
  · exact c.silent_call .document c.store c.store_ne_cancelled

end Sidecar.Client

end StoreWarden
