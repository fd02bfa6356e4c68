import StoreWarden.Proofs.CancelledHandshake
import StoreWarden.Proofs.StoredDocument

/-!
# A handshake that fails leaves the files alone, or has replaced the document

With a service of which only a fetch that succeeds changes files, a handshake changes them once at
most: all its turns and attempts are made with the files as it found them.  It ends with these
files, or with what its last fetch has stored.  The client of the sidecar is such a service.
-/

set_option autoImplicit false

namespace StoreWarden

open Sidecar (Client Depth Progress Service)

/-! ## Single calls and waits -/

theorem Moment.Meets.files {m next : Moment} (meets : m.Meets next) : next.files = m.files := by
  obtain ⟨t, -, rfl⟩ := meets
  rfl

theorem Moment.files_of_wait {m next : Moment} {d : Nat} {tie : Bool}
    (waited : m.wait d tie = (next, .elapsed)) : next.files = m.files := by
  rw [after_of_wait_elapsed waited]
  rfl

theorem Call.files_of_effect {α : Type} {c : Call α} {m last : Moment} {answer : Except Failure α}
    (keeps : ∀ fs, (c.effect fs).1 = fs) (ended : c.run m = some (last, answer)) :
    last.files = m.files := by
  obtain ⟨meets, -⟩ | ⟨d, -, rfl, -⟩ := run_cases ended
  · exact meets.files
  · exact (concluded_files c m d).trans (keeps m.files)

/-! ## Attempts -/

namespace Retry

variable {α : Type} {r : Retry} {op : Operation α} {tie : Nat → Bool} {n left : Nat}
  {m last : Moment} {made : List (Exchange α)} {failure : Failure}

/-- The operation changes files only where it succeeds. -/
def Operation.Sparing (op : Operation α) : Prop :=
  ∀ n m last failure, (op n m.now).run m = some (last, .error failure) → last.files = m.files

theorem Attempts.made_files (attempts : r.Attempts op tie n m made) (sparing : op.Sparing) :
    ∀ e ∈ made, e.made.files = m.files := by
  have same : made.IsChain fun e next => next.made.files = e.made.files := by
    refine attempts.follows.imp_of_mem_imp ?_
    rintro e next mem - ⟨idle, failure, failed, -, waited⟩
    rw [attempts.calls e mem] at failed
    exact (Moment.files_of_wait waited).trans (sparing _ _ _ _ failed)
  refine same.induction (fun e => e.made.files = m.files) made (fun e next => Eq.trans) ?_
  intro some_attempt
  rw [attempts.begins _ (List.head?_eq_some_head some_attempt)]

theorem Stops.files (stops : r.Stops left m made (some (last, .error failure)))
    (attempts : r.Attempts op tie n m made) (sparing : op.Sparing) (more : left ≠ 0) :
    last.files = m.files := by
  have failed : ∀ e m' failure', made.getLast? = some e →
      e.ending = some (m', .error failure') → m'.files = m.files := by
    intro e m' failure' latest ended
    have mem := List.mem_of_getLast? latest
    rw [attempts.calls e mem] at ended
    exact (sparing _ _ _ _ ended).trans (attempts.made_files sparing e mem)
  obtain ⟨e, latest, ended, -⟩ | ⟨-, -, idle, at_, meets⟩ | ⟨zero, -⟩ := stops
  · exact failed e last failure latest ended
  · rw [meets.files]
    obtain ⟨-, rfl⟩ | ⟨e, failure', latest, ended⟩ := at_
    · rfl
    · exact failed e idle failure' latest ended
  · exact absurd zero more

end Retry

/-! ## Turns -/

/-- A service of which only a fetch that succeeds changes files. -/
structure Sidecar.Service.Sparing (s : Service) : Prop where
  status : ∀ n t fs, ((s.status n t).effect fs).1 = fs
  trigger : ∀ n t depth fs, ((s.trigger n t depth).effect fs).1 = fs
  document : Retry.Operation.Sparing s.document

namespace Handshake

variable {h : Handshake} {s : Service} {tie : Nat → Bool} {rounds n k : Nat} {m last : Moment}
  {turns : List Turn} {t : Turn} {log : Log}

section Asking

variable (asks : h.Turns s n k m turns) (sparing : s.Sparing)
include asks sparing

theorem Turns.files_of_status (mem : t ∈ turns) {answer : Except Failure Progress}
    (ended : t.status.ending = some (last, answer)) : last.files = t.status.made.files := by
  rw [asks.statusCalls t mem] at ended
  exact Call.files_of_effect (sparing.status _ _) ended

theorem Turns.files_of_answered (mem : t ∈ turns) (answered : t.answered = some last) :
    last.files = t.status.made.files := by
  unfold Turn.answered at answered
  cases called : t.trigger with
  | none =>
      rw [called] at answered
      obtain ⟨⟨_, answer⟩, ended, rfl⟩ := Option.map_eq_some_iff.1 answered
      exact asks.files_of_status sparing mem ended
  | some call =>
      obtain ⟨depth, e⟩ := call
      rw [called] at answered
      obtain ⟨⟨_, answer⟩, ended, rfl⟩ := Option.map_eq_some_iff.1 answered
      rw [asks.triggerCalls t mem depth e called] at ended
      exact (Call.files_of_effect (sparing.trigger _ _ _) ended).trans
        (asks.files_of_status sparing mem ((asks.ruled t mem).status called))

theorem Turns.made_files : ∀ t ∈ turns, t.status.made.files = m.files := by
  have same : turns.IsChain fun t next => next.status.made.files = t.status.made.files := by
    refine asks.follows.imp_of_mem_imp ?_
    rintro t next mem - ⟨idle, again, waited⟩
    refine (Moment.files_of_wait waited).trans (asks.files_of_answered sparing mem ?_)
    rw [Turn.answered_eq (asks.ruled t mem), again]
  refine same.induction (fun t => t.status.made.files = m.files) turns (fun t next => Eq.trans) ?_
  intro some_turn
  rw [asks.begins _ (List.head?_eq_some_head some_turn)]

theorem PollStops.files {failure : Failure}
    (stops : h.PollStops rounds m turns (some (last, .error failure))) :
    last.files = m.files := by
  have left : ∀ t m', turns.getLast? = some t → t.answered = some m' → m'.files = m.files := by
    intro t m' latest answered
    have mem := List.mem_of_getLast? latest
    exact (asks.files_of_answered sparing mem answered).trans (asks.made_files sparing t mem)
  have ruled : ∀ t, turns.getLast? = some t → t.Ruled h :=
    fun t latest => asks.ruled t (List.mem_of_getLast? latest)
  obtain ⟨-, ⟨t, latest, cancelled⟩ | ⟨idle, at_, meets⟩⟩ := stops
  · exact left t last latest (by rw [Turn.answered_eq (ruled t latest), cancelled])
  · rw [meets.files]
    obtain ⟨-, rfl⟩ | ⟨t, latest, again⟩ := at_
    · rfl
    · exact left t idle latest (by rw [Turn.answered_eq (ruled t latest), again])

end Asking

/-! ## The whole handshake -/

/-- What a handshake begun in `m` has come to: it has read what its last fetch has stored, or it
has failed with the files as it found them. -/
inductive Log.Leaves (log : Log) (s : Service) (m last : Moment) :
    Except Failure Engine.Settings → Prop
  | read {e : Exchange Path} {path : Path} (latest : log.fetches.getLast? = some e)
      (call : e = .of s.document e.number e.made) (found : e.made.files = m.files)
      (stored : e.ending = some (last, .ok path)) :
      Leaves log s m last (Engine.Settings.load last.files path)
  | failed {failure : Failure} (kept : last.files = m.files)
      (why : failure = .cancelled ∨
        ∃ e, log.fetches.getLast? = some e ∧ e = .of s.document e.number e.made ∧
          e.ending = some (last, .error failure)) :
      Leaves log s m last (.error failure)

theorem Log.Lawful.attempts (lawful : log.Lawful h s tie m) {ready : Moment}
    (asked : log.turns.getLast? = some t)
    (successful : t.status.ending = some (ready, .ok .successful)) :
    h.fetching.Attempts s.document tie 0 ready log.fetches := by
  obtain none' | ⟨t', ready', asked', successful', attempts⟩ := lawful.fetches
  · rw [none']
    exact .nil
  · obtain rfl := Option.some.inj (asked'.symm.trans asked)
    obtain ⟨rfl, -⟩ := Prod.mk.inj (Option.some.inj (successful'.symm.trans successful))
    exact attempts

theorem Goes.leaves {answer : Except Failure Engine.Settings}
    (goes : h.Goes rounds m log (some (last, answer))) (lawful : log.Lawful h s tie m)
    (sparing : s.Sparing) (some_attempt : 1 ≤ h.fetchAttempts) :
    log.Leaves s m last answer := by
  have more : h.fetchAttempts ≠ 0 := Nat.one_le_iff_ne_zero.1 some_attempt
  have ready : ∀ t ready, log.turns.getLast? = some t →
      t.status.ending = some (ready, .ok .successful) → ready.files = m.files := by
    intro t ready latest ended
    have mem := List.mem_of_getLast? latest
    exact (lawful.asks.files_of_status sparing mem ended).trans
      (lawful.asks.made_files sparing t mem)
  generalize same : some (last, answer) = ending at goes
  cases goes with
  | asking | fetching => cases same
  | stopped stops =>
      obtain ⟨rfl, rfl⟩ := by simpa using same
      exact .failed (PollStops.files lawful.asks sparing stops) (Or.inl rfl)
  | fetched asked successful stops =>
      obtain ⟨rfl, rfl⟩ := by simpa using same
      have attempts := lawful.attempts asked successful
      obtain ⟨e, latest, ended, -⟩ | ⟨refused, -⟩ | ⟨-, refused⟩ := stops
      · have mem := List.mem_of_getLast? latest
        have found :=
          (attempts.made_files sparing.document e mem).trans (ready _ _ asked successful)
        exact .read latest (attempts.calls e mem) found ended
      · cases refused
      · cases refused
  | unfetched asked successful stops =>
      obtain ⟨rfl, rfl⟩ := by simpa using same
      have attempts := lawful.attempts asked successful
      have kept := stops.files attempts sparing.document more
      refine .failed (kept.trans (ready _ _ asked successful)) ?_
      obtain ⟨e, latest, ended, -⟩ | ⟨cancelled, -⟩ | ⟨zero, -⟩ := stops
      · exact Or.inr ⟨e, latest, attempts.calls e (List.mem_of_getLast? latest), ended⟩
      · exact Or.inl (Except.error.inj cancelled)
      · exact absurd zero more

end Handshake

/-! ## The client of the sidecar -/

namespace Sidecar.Client

theorem effect_call_of_keeps {α : Type} {c : Client} {peer : Http.Peer} {t : Nat}
    {request : Request} {use : Bytes → Os.FileSystem → Os.FileSystem × Except Failure α}
    (keeps : ∀ body fs, (use body fs).1 = fs) (fs : Os.FileSystem) :
    ((c.call peer t request use).effect fs).1 = fs := by
  simp only [call]
  cases (c.exchange peer t request).answer with
  | error failure => rfl
  | ok body => exact keeps body fs

theorem store_of_error {c : Client} {body : Bytes} {fs : Os.FileSystem} {failure : Failure}
    (failed : (c.store body fs).2 = .error failure) : (c.store body fs).1 = fs := by
  cases created : fs.create c.document documentMode with
  | error fault => simp only [store, created]
  | ok found =>
      rw [store_of_create created] at failed
      cases failed

theorem sparing_service (c : Client) (peer : Http.Peer) : (c.service peer).Sparing where
  status _ _ := effect_call_of_keeps fun _ _ => rfl
  trigger _ _ _ := effect_call_of_keeps fun _ _ => rfl
  document n m last failure ended := by
    obtain ⟨meets, -⟩ | ⟨d, -, rfl, answer⟩ := Call.run_cases ended
    · exact meets.files
    · rw [Call.concluded_files]
      simp only [service, call] at answer ⊢
      cases came : (c.exchange peer m.now .document).answer with
      | error failure => rfl
      | ok body =>
          rw [came] at answer
          exact store_of_error answer.symm

end Sidecar.Client

end StoreWarden
