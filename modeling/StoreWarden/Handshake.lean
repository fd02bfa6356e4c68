import StoreWarden.Engine.Settings
import StoreWarden.ExitRecord
import StoreWarden.Retry
import StoreWarden.Sidecar.Service

/-!
# The handshake with the sidecar

Before the member can start, the sidecar has to have brought the data directory into order.  The
handshake asks for the state of initialization until it is `Successful`, and begins initialization
whenever nobody has.  Then it fetches the document of the member, a bounded number of times, and
reads it.

A failed status call counts as an unknown state, and a failed trigger call is made good by the
next one; only the cancellation ends the handshake from there.
-/

namespace StoreWarden

open Sidecar (Asked Depth Progress Request Service)

structure Handshake where
  /-- The record of how the previous run ended. -/
  record : ExitRecord
  /-- The wait before the state is asked for again. -/
  pollInterval : Nat := 1000
  /-- The most attempts to fetch the document. -/
  fetchAttempts : Nat := 5
  /-- The wait between two such attempts. -/
  fetchBackoff : Nat := 1000

/-- What came of a part of the handshake: the requests made, and how it ended, if it did. -/
structure Course (α : Type) where
  asked : List Asked
  ending : Ending α

namespace Course

/-- A course that makes no request. -/
def silent {α : Type} (ending : Ending α) : Course α := ⟨[], ending⟩

def ask {α : Type} (request : Request) (call : Call α) (m : Moment) : Course α :=
  ⟨[⟨m.now, request⟩], call.run m⟩

/-- A course continued from where it ended, whether with a value or a failure. -/
def followedBy {α β : Type} (c : Course α) (next : Moment → Except Failure α → Course β) :
    Course β :=
  match c.ending with
  | none => ⟨c.asked, none⟩
  | some (m, answer) =>
    let rest := next m answer
    ⟨c.asked ++ rest.asked, rest.ending⟩

end Course

namespace Handshake

/-- The state that an answer to a status call stands for. -/
def progressOf : Except Failure Progress → Progress
  | .ok progress => progress
  | .error _ => .unknown

/-- Whether an answer ends the handshake: only a cancelled call does. -/
def isFinal {α : Type} : Except Failure α → Bool
  | .ok _ => false
  | .error failure => failure.isCancelled

/-- Asks for the state until it is `Successful`, for at most the given number of rounds.  The
round to come has number `n`, and `triggers` initializations have been begun. -/
def poll (h : Handshake) (s : Service) : (rounds n triggers : Nat) → Moment → Course Unit
  | 0, _, _, _ => .silent none
  | rounds + 1, n, triggers, m =>
    if m.isCancelled then .silent (some (m, .error .cancelled))
    else
      (Course.ask .status (s.status n m.now) m).followedBy fun m answer =>
        if isFinal answer then .silent (some (m, .error .cancelled))
        else
          match progressOf answer with
          | .successful => .silent (some (m, .ok ()))
          | .new =>
            let depth := h.record.depth m.files
            (Course.ask (.trigger depth) (s.trigger triggers m.now depth) m).followedBy
              fun m answer =>
                if isFinal answer then .silent (some (m, .error .cancelled))
                else
                  match m.wait h.pollInterval false with
                  | (m, .cancelled) => .silent (some (m, .error .cancelled))
                  | (m, .elapsed) => h.poll s rounds (n + 1) (triggers + 1) m
          | _ =>
            match m.wait h.pollInterval false with
            | (m, .cancelled) => .silent (some (m, .error .cancelled))
            | (m, .elapsed) => h.poll s rounds (n + 1) triggers m

/-- How the document is fetched: again after every failure, as long as attempts are left. -/
def fetching (h : Handshake) : Retry :=
  ⟨"GetEtcdConfig", h.fetchAttempts, h.fetchBackoff, Retry.always⟩

/-- Fetches the document.  `tie` decides between the end of a wait and a cancellation at the same
time. -/
def fetch (h : Handshake) (s : Service) (tie : Nat → Bool) (m : Moment) : Course Path :=
  let outcome := h.fetching.run s.document tie m
  ⟨outcome.starts.map (⟨·, .document⟩), outcome.ending⟩

/-- The whole handshake, with at most the given number of rounds of asking for the state. -/
def run (h : Handshake) (s : Service) (tie : Nat → Bool) (rounds : Nat) (m : Moment) :
    Course Engine.Settings :=
  (h.poll s rounds 0 0 m).followedBy fun m answer =>
    match answer with
    | .error failure => .silent (some (m, .error failure))
    | .ok _ =>
      (h.fetch s tie m).followedBy fun m answer =>
        match answer with
        | .error failure => .silent (some (m, .error failure))
        | .ok path => .silent (some (m, Engine.Settings.load m.files path))

end Handshake

end StoreWarden
