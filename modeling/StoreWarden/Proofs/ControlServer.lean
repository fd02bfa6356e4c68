import Mathlib.Data.List.Induction
import StoreWarden.Readiness.Endpoint

/-!
# The control endpoint in use

Requests come in any number and order, while the flag is written, time passes, files change and
others may cancel the run.  `respond` answers each by itself; here it is told what a whole session
of them comes to.  A reader sees the flag that was last written before it was handled, and the only
thing that a request ever does is to cancel the run.

What the endpoint does to a run is told by comparison: `undisturbed` is the same session without
its requests.
-/

set_option autoImplicit false

namespace StoreWarden.Readiness

inductive Event where
  | request (request : Request)
  | update (ready : Bool)
  /-- Somebody else cancels the run. -/
  | stop
  | meanwhile (d : Nat) (files : Os.FileSystem)

structure Session where
  flag : Flag
  moment : Moment
  answered : List (Request × Reply)

namespace Session

def step (s : Session) : Event → Session
  | .request request =>
    let (moment, reply) := respond s.flag s.moment request
    { s with moment, answered := s.answered ++ [(request, reply)] }
  | .update ready => { s with flag := (s.flag.set ready).1 }
  | .stop => { s with moment := s.moment.cancel }
  | .meanwhile d files => { s with moment := { s.moment.after d with files } }

def run (s : Session) (events : List Event) : Session := events.foldl step s

theorem run_concat (s : Session) (events : List Event) (event : Event) :
    s.run (events ++ [event]) = (s.run events).step event := by
  simp only [run, List.foldl_append, List.foldl_cons, List.foldl_nil]

end Session

/-! ## What a session is measured by -/

def Event.written? : Event → Option Bool
  | .update ready => some ready
  | _ => none

def Event.isRequest : Event → Bool
  | .request _ => true
  | _ => false

/-- The value that was last written, if any was. -/
def lastWritten (initial : Bool) (events : List Event) : Bool :=
  (events.reverse.findSome? Event.written?).getD initial

def undisturbed (events : List Event) : List Event := events.filter fun event => !event.isRequest

def Request.Reads (q : Request) : Prop :=
  q.path = "/readyz" ∧ (q.method = "GET" ∨ q.method = "HEAD")

def Request.Stops (q : Request) : Prop := q.path = "/stop" ∧ q.method = "POST"

/-- How a request is to be answered, by the flag when it is handled. -/
structure Answers (ready : Bool) (q : Request) (reply : Reply) : Prop where
  reads : q.Reads → reply.status.code = if ready then 200 else 503
  shows : q.Reads → q.method = "GET" →
    reply.body = (if ready then "true" else "false") ∧ reply.contentType = some "application/json"
  stops : q.Stops → reply.status.code = 200
  other : ¬ q.Reads → ¬ q.Stops →
    reply.status.code = if q.path = "/readyz" ∨ q.path = "/stop" then 405 else 404

/-! ## One request -/

theorem path_of_at? {path : String} {r : Resource} (found : Resource.at? path = some r) :
    path = r.path := by
  unfold Resource.at? at found
  by_cases readiness : path = Resource.readiness.path
  · rw [if_pos readiness] at found
    obtain rfl := Option.some.inj found
    exact readiness
  by_cases stop : path = Resource.stop.path
  · rw [if_neg readiness, if_pos stop] at found
    obtain rfl := Option.some.inj found
    exact stop
  · rw [if_neg readiness, if_neg stop] at found
    cases found

theorem at?_path (r : Resource) : Resource.at? r.path = some r := by cases r <;> decide

/-- All ways in which a request can be handled. -/
inductive Handled (flag : Flag) (m : Moment) (q : Request) : Moment × Reply → Prop
  | shown (path : q.path = "/readyz") (get : q.method = "GET") :
      Handled flag m q (m, .ofFlag flag)
  | outlined (path : q.path = "/readyz") (head : q.method = "HEAD") :
      Handled flag m q (m, (Reply.ofFlag flag).withoutBody)
  | stopped (path : q.path = "/stop") (post : q.method = "POST") :
      Handled flag m q (m.cancel, .bare .ok)
  | refused (r : Resource) (path : q.path = r.path) (other : q.method ∉ r.methods) :
      Handled flag m q (m, .refusal r)
  | unknown (path : ∀ r : Resource, q.path ≠ r.path) : Handled flag m q (m, .bare .notFound)

theorem handled (flag : Flag) (m : Moment) (q : Request) :
    Handled flag m q (respond flag m q) := by
  unfold respond
  cases found : Resource.at? q.path with
  | none =>
      apply Handled.unknown
      intro r path
      rw [path, at?_path] at found
      cases found
  | some r =>
      have path := path_of_at? found
      cases r with
      | readiness =>
          by_cases get : q.method = "GET"
          · simp only [if_pos get]
            exact .shown path get
          by_cases head : q.method = "HEAD"
          · simp only [if_neg get, if_pos head]
            exact .outlined path head
          · simp only [if_neg get, if_neg head]
            exact .refused .readiness path (by simp [Resource.methods, get, head])
      | stop =>
          by_cases post : q.method = "POST"
          · simp only [if_pos post]
            exact .stopped path post
          · simp only [if_neg post]
            exact .refused .stop path (by simp [Resource.methods, post])

section
variable {flag : Flag} {m : Moment} {q : Request} {result : Moment × Reply}

theorem Reply.code_ofFlag (flag : Flag) :
    (Reply.ofFlag flag).status.code = if flag.isReady then 200 else 503 := by
  cases ready : flag.isReady <;> simp [ofFlag, ready, Http.Status.ok,
    Http.Status.serviceUnavailable]

theorem not_reads_of_stops (stops : q.Stops) : ¬ q.Reads := by
  rintro ⟨path, -⟩
  rw [stops.1] at path
  exact absurd path (by decide)

theorem unasked_of_refused {r : Resource} (path : q.path = r.path) (other : q.method ∉ r.methods) :
    ¬ q.Reads ∧ ¬ q.Stops := by
  cases r with
  | readiness =>
      refine ⟨?_, ?_⟩
      · rintro ⟨-, method⟩
        exact other (by simpa [Resource.methods] using method)
      · rintro ⟨stops, -⟩
        exact absurd (path.symm.trans stops) (by decide)
  | stop =>
      refine ⟨?_, ?_⟩
      · rintro ⟨reads, -⟩
        exact absurd (path.symm.trans reads) (by decide)
      · rintro ⟨-, method⟩
        exact other (by simpa [Resource.methods] using method)

theorem Handled.answers (way : Handled flag m q result) : Answers flag.isReady q result.2 := by
  cases way with
  | shown path get =>
      have reads : q.Reads := ⟨path, Or.inl get⟩
      constructor
      case reads => exact fun _ => Reply.code_ofFlag flag
      case shows => exact fun _ _ => ⟨rfl, rfl⟩
      case stops => exact fun stops => absurd reads (not_reads_of_stops stops)
      case other => exact fun unread => absurd reads unread
  | outlined path head =>
      have reads : q.Reads := ⟨path, Or.inr head⟩
      constructor
      case reads => exact fun _ => Reply.code_ofFlag flag
      case shows => exact fun _ get => absurd (head.symm.trans get) (by decide)
      case stops => exact fun stops => absurd reads (not_reads_of_stops stops)
      case other => exact fun unread => absurd reads unread
  | stopped path post =>
      have stops : q.Stops := ⟨path, post⟩
      constructor
      case reads => exact fun reads => absurd reads (not_reads_of_stops stops)
      case shows => exact fun reads => absurd reads (not_reads_of_stops stops)
      case stops => exact fun _ => rfl
      case other => exact fun _ unstopped => absurd stops unstopped
  | refused r path other =>
      obtain ⟨unread, unstopped⟩ := unasked_of_refused path other
      have known : q.path = "/readyz" ∨ q.path = "/stop" := by
        cases r with
        | readiness => exact Or.inl path
        | stop => exact Or.inr path
      constructor
      case reads => exact fun reads => absurd reads unread
      case shows => exact fun reads => absurd reads unread
      case stops => exact fun stops => absurd stops unstopped
      case other => exact fun _ _ => (if_pos known).symm
  | unknown path =>
      have unread : q.path ≠ "/readyz" := path .readiness
      have unstopped : q.path ≠ "/stop" := path .stop
      constructor
      case reads => exact fun reads => absurd reads.1 unread
      case shows => exact fun reads => absurd reads.1 unread
      case stops => exact fun stops => absurd stops.1 unstopped
      case other => exact fun _ _ => (if_neg (not_or.2 ⟨unread, unstopped⟩)).symm

theorem Handled.moment (way : Handled flag m q result) :
    q.Stops ∧ result.1 = m.cancel ∨ ¬ q.Stops ∧ result.1 = m := by
  cases way with
  | stopped path post => exact Or.inl ⟨⟨path, post⟩, rfl⟩
  | shown path | outlined path =>
      refine Or.inr ⟨?_, rfl⟩
      rintro ⟨stops, -⟩
      exact absurd (path.symm.trans stops) (by decide)
  | refused r path other => exact Or.inr ⟨(unasked_of_refused path other).2, rfl⟩
  | unknown path =>
      refine Or.inr ⟨?_, rfl⟩
      rintro ⟨stops, -⟩
      exact path .stop stops

end

/-! ## Sessions -/

/-- A session beside the same one without its requests, of which `stopped` says whether one has
stopped the run. -/
structure Beside (stopped : Prop) (s alone : Session) : Prop where
  flag : s.flag = alone.flag
  now : s.moment.now = alone.moment.now
  files : s.moment.files = alone.moment.files
  /-- From now on, for the run may have been stopped later than it would have been otherwise. -/
  token : ∀ t, s.moment.now ≤ t →
    (s.moment.token.isFired t = true ↔ alone.moment.token.isFired t = true ∨ stopped)

variable {s alone : Session} {stopped : Prop}

theorem Beside.refl (s : Session) : Beside False s s :=
  ⟨rfl, rfl, rfl, fun _ _ => (iff_of_eq (or_false _)).symm⟩

theorem Beside.request (beside : Beside stopped s alone) (q : Request) :
    Beside (stopped ∨ q.Stops) (s.step (.request q)) alone := by
  have same : (s.step (.request q)).moment = (respond s.flag s.moment q).1 := rfl
  have flag : (s.step (.request q)).flag = s.flag := rfl
  rcases (handled s.flag s.moment q).moment with ⟨stops, moved⟩ | ⟨unstopped, moved⟩
  · rw [← same] at moved
    refine ⟨flag.trans beside.flag, ?_, ?_, ?_⟩
    · rw [moved]
      exact beside.now
    · rw [moved]
      exact beside.files
    · intro t later
      rw [moved] at later ⊢
      have fired : (s.moment.cancel).token.isFired t = true := by
        simp only [Moment.cancel, Cancellation.isFired_cancel, Bool.or_eq_true, decide_eq_true_eq]
        exact Or.inr later
      exact iff_of_true fired (Or.inr (Or.inr stops))
  · rw [← same] at moved
    refine ⟨flag.trans beside.flag, ?_, ?_, ?_⟩
    · rw [moved]
      exact beside.now
    · rw [moved]
      exact beside.files
    · intro t later
      rw [moved] at later ⊢
      rw [beside.token t later]
      simp only [unstopped, or_false]

theorem Beside.elsewhere (beside : Beside stopped s alone) {event : Event}
    (quiet : event.isRequest = false) : Beside stopped (s.step event) (alone.step event) := by
  obtain ⟨flag, now, files, token⟩ := beside
  cases event with
  | request q => cases quiet
  | update ready => exact ⟨rfl, now, files, token⟩
  | stop =>
      refine ⟨flag, now, files, ?_⟩
      intro t later
      simp only [Session.step, Moment.cancel, Cancellation.isFired_cancel, Bool.or_eq_true,
        decide_eq_true_eq, token t later, now]
      exact or_right_comm
  | meanwhile d files =>
      refine ⟨flag, ?_, rfl, ?_⟩
      · exact congrArg (· + d) now
      · intro t later
        exact token t (Nat.le_trans (Nat.le_add_right _ d) later)

theorem undisturbed_concat_request (events : List Event) (q : Request) :
    undisturbed (events ++ [.request q]) = undisturbed events := by
  simp [undisturbed, Event.isRequest]

theorem undisturbed_concat (events : List Event) {event : Event}
    (quiet : event.isRequest = false) :
    undisturbed (events ++ [event]) = undisturbed events ++ [event] := by
  simp [undisturbed, quiet]

theorem beside_run (s : Session) (events : List Event) :
    Beside (∃ q, .request q ∈ events ∧ q.Stops) (s.run events) (s.run (undisturbed events)) := by
  induction events using List.reverseRecOn with
  | nil => simpa [undisturbed] using Beside.refl (s.run [])
  | append_singleton events event ih =>
      rw [Session.run_concat]
      cases event with
      | request q =>
          rw [undisturbed_concat_request]
          have beside := ih.request q
          simpa only [List.mem_append, List.mem_singleton, Event.request.injEq, or_and_right,
            exists_or, exists_eq_left] using beside
      | update | stop | meanwhile =>
          rw [undisturbed_concat _ rfl, Session.run_concat]
          simpa using ih.elsewhere rfl

theorem lastWritten_concat (initial : Bool) (events : List Event) (event : Event) :
    lastWritten initial (events ++ [event]) =
      event.written?.getD (lastWritten initial events) := by
  unfold lastWritten
  rw [List.reverse_concat, List.findSome?_cons]
  cases event.written? <;> rfl

theorem flag_run (s : Session) (events : List Event) :
    (s.run events).flag.isReady = lastWritten s.flag.isReady events := by
  induction events using List.reverseRecOn with
  | nil => rfl
  | append_singleton events event ih =>
      rw [Session.run_concat, lastWritten_concat, ← ih]
      cases event <;> rfl

structure Serves (s : Session) (events : List Event) : Prop where
  answers : ∀ q, ∃ reply,
    (s.run (events ++ [.request q])).answered = (s.run events).answered ++ [(q, reply)] ∧
      Answers (lastWritten s.flag.isReady events) q reply
  leaves : ∀ q, q.Stops → (s.run (events ++ [.request q])).moment.isCancelled = true
  flag : (s.run events).flag.isReady = lastWritten s.flag.isReady events ∧
    (s.run events).flag = (s.run (undisturbed events)).flag
  cancelled : (s.run events).moment.isCancelled = true ↔
    (s.run (undisturbed events)).moment.isCancelled = true ∨ ∃ q, .request q ∈ events ∧ q.Stops
  frame : (s.run events).moment.now = (s.run (undisturbed events)).moment.now ∧
    (s.run events).moment.files = (s.run (undisturbed events)).moment.files

theorem cancelled_run (s : Session) (events : List Event) :
    (s.run events).moment.isCancelled = true ↔
      (s.run (undisturbed events)).moment.isCancelled = true ∨
        ∃ q, .request q ∈ events ∧ q.Stops := by
  have beside := beside_run s events
  unfold Moment.isCancelled
  rw [beside.token _ (Nat.le_refl _), beside.now]

/-- The endpoint shows the flag, stops the run when it is asked to, and does nothing else. -/
theorem run_serves (s : Session) (events : List Event) : Serves s events := by
  have beside := beside_run s events
  constructor
  case answers =>
    intro q
    refine ⟨(respond (s.run events).flag (s.run events).moment q).2, ?_, ?_⟩
    · rw [Session.run_concat]
      rfl
    · rw [← flag_run]
      exact (handled _ _ q).answers
  case leaves =>
    intro q stops
    exact (cancelled_run s _).2 (Or.inr ⟨q, by simp, stops⟩)
  case flag => exact ⟨flag_run s events, beside.flag⟩
  case cancelled => exact cancelled_run s events
  case frame => exact ⟨beside.now, beside.files⟩

def quiet : Session := ⟨⟨true⟩, ⟨0, .never, .empty⟩, []⟩

def nearMisses : List Event :=
  [.request ⟨"GET", "/stop"⟩, .update false, .request ⟨"POST", "/readyz"⟩,
    .request ⟨"POST", "/stop/"⟩, .request ⟨"post", "/stop"⟩]

theorem run_serves_nearMisses : (quiet.run nearMisses).moment.isCancelled = false ∧
    (quiet.run (nearMisses ++ [.request ⟨"POST", "/stop"⟩])).moment.isCancelled = true := by
  have laws := run_serves quiet nearMisses
  constructor
  · apply Bool.eq_false_iff.2
    intro cancelled
    rcases laws.cancelled.1 cancelled with alone | ⟨q, mem, path, method⟩
    · exact absurd alone (by decide)
    · simp only [nearMisses, List.mem_cons, Event.request.injEq, reduceCtorEq, List.not_mem_nil,
        or_false, false_or] at mem
      rcases mem with rfl | rfl | rfl | rfl
      · exact absurd method (by decide)
      · exact absurd path (by decide)
      · exact absurd path (by decide)
      · exact absurd method (by decide)
  · exact laws.leaves _ ⟨rfl, rfl⟩

end StoreWarden.Readiness
