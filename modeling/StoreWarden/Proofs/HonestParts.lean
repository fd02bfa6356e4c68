import StoreWarden.Proofs.ChildEnd
import StoreWarden.Proofs.HonestAnswers
import StoreWarden.Proofs.WholeReplies

/-!
# The parts of a run are honest

An honest action answers that it was cancelled only in a moment in which the run is.  A handshake
with an honest sidecar is honest, and so is the launch of a child process.  A member that is such a
process reports in order of time, never that it was cancelled, and that it has stopped when the
process has ended, whatever its exit status.  `assemble_honest` puts this together for the parts of
a whole command.
-/

set_option autoImplicit false

namespace StoreWarden

open Engine (Child Event Member Reports Supervisor Timeline)
open Sidecar (Request Service)

/-- An action that answers that it was cancelled only where the run is. -/
def Action.Honest {α : Type} (a : Action α) : Prop :=
  ∀ m last, a m = some (last, .error .cancelled) → last.isCancelled = true

theorem Call.honest_run {α : Type} {c : Call α} (own : ∀ fs, Uncancelled (c.effect fs).2) :
    Action.Honest c.run := by
  intro m last ended
  obtain ⟨meets, -⟩ | ⟨d, -, -, answer⟩ := run_cases ended
  · exact meets.isCancelled
  · exact absurd answer.symm (own m.files)

theorem Call.ordinary_run {α : Type} {c : Call α} (own : ∀ fs, Ordinary (c.effect fs).2)
    {m last : Moment} {failure : Failure} (ended : c.run m = some (last, .error failure)) :
    failure = .cancelled ∨ failure.isOrdinary = true := by
  obtain ⟨-, gaveUp⟩ | ⟨d, -, -, answer⟩ := run_cases ended
  · exact Or.inl (Except.error.inj gaveUp)
  · exact Or.inr (own m.files failure answer.symm)

/-! ## The handshake -/

/-- A sidecar whose calls are honest. -/
structure Sidecar.Service.Honest (s : Service) : Prop where
  status : ∀ n t, Action.Honest (s.status n t).run
  trigger : ∀ n t depth, Action.Honest (s.trigger n t depth).run
  document : ∀ n t, Action.Honest (s.document n t).run

namespace Handshake

theorem Turns.isCancelled {h : Handshake} {s : Service} {n k : Nat} {m last : Moment}
    {turns : List Turn} (asks : h.Turns s n k m turns) (honest : s.Honest) {t : Turn}
    (mem : t ∈ turns) (verdict : t.verdict = .cancelled last) : last.isCancelled = true := by
  unfold Turn.verdict at verdict
  split at verdict
  · cases verdict
  · rename_i answer ended
    split at verdict
    · rename_i final
      obtain rfl := Verdict.cancelled.inj verdict
      obtain rfl := (isFinal_iff answer).1 final
      rw [asks.statusCalls t mem] at ended
      exact honest.status _ _ _ _ ended
    · split at verdict
      · cases verdict
      · split at verdict
        · cases verdict
        · rename_i depth e called
          split at verdict
          · cases verdict
          · rename_i answer ended
            split at verdict
            · rename_i final
              obtain rfl := Verdict.cancelled.inj verdict
              obtain rfl := (isFinal_iff answer).1 final
              rw [asks.triggerCalls t mem depth e called] at ended
              exact honest.trigger _ _ _ _ _ ended
            · cases verdict

theorem honest_run (h : Handshake) {s : Service} (honest : s.Honest) (tie : Nat → Bool)
    (rounds : Nat) : Action.Honest fun m => (h.run s tie rounds m).ending := by
  intro m last ended
  obtain ⟨log, -, lawful, goes⟩ := h.run_goes s tie rounds m
  dsimp only at ended
  rw [ended] at goes
  generalize same : some (last, Except.error Failure.cancelled) = ending at goes
  cases goes with
  | asking | fetching => cases same
  | stopped stops =>
      obtain ⟨rfl, -⟩ := by simpa using same
      obtain ⟨-, ⟨t, found, verdict⟩ | ⟨idle, waiting, meets⟩⟩ := stops
      · exact lawful.asks.isCancelled honest (List.mem_of_getLast? found) verdict
      · exact meets.isCancelled
  | fetched _ _ stops =>
      obtain ⟨rfl, load⟩ := by simpa using same
      exact absurd load.symm (Engine.Settings.uncancelled_load _ _)
  | unfetched _ _ stops =>
      obtain ⟨rfl, rfl⟩ := by simpa using same
      rcases stops with ⟨e, latest, ended, -⟩ | ⟨-, -, idle, -, meets⟩ | ⟨-, misused⟩
      · rw [lawful.eq_of_mem_fetches (List.mem_of_getLast? latest)] at ended
        exact honest.document _ _ _ _ ended
      · exact meets.isCancelled
      · cases misused

end Handshake

namespace Sidecar.Client

theorem build_eq_ok {fs : Os.FileSystem} {s : SidecarSettings} {document : Path} {c : Client}
    (built : build fs s document = .ok c) : c = ⟨s.baseAddress, document⟩ := by
  unfold build at built
  cases tls : s.tlsEnabled with
  | false =>
      rw [tls] at built
      exact (Except.ok.inj built).symm
  | true =>
      rw [tls] at built
      cases named : s.bundle with
      | none =>
          rw [named] at built
          cases built
      | some bundle =>
          rw [named] at built
          cases loaded : Tls.loadBundle fs bundle with
          | error failure =>
              simp only [loaded] at built
              cases built
          | ok roots =>
              simp only [loaded] at built
              cases made : Tls.buildClient roots none with
              | error failure =>
                  simp only [bind, Except.bind, made] at built
                  cases built
              | ok done =>
                  simp only [bind, Except.bind, made] at built
                  exact (Except.ok.inj built).symm

theorem ordinary_exchange (c : Client) (peer : Http.Peer) (t : Nat) (request : Request) :
    Ordinary (c.exchange peer t request).answer := by
  intro failure failed
  obtain ⟨fault, rfl⟩ | ⟨status, -, rfl⟩ := failure_of_exchange failed
  · rfl
  · rfl

theorem ordinary_store (c : Client) (body : Bytes) (fs : Os.FileSystem) :
    Ordinary (c.store body fs).2 := by
  unfold store
  split
  · exact Ordinary.error_iff.2 rfl
  · exact .ok _

/-- What the client does with a body decides what its call can fail with. -/
theorem ordinary_call {α : Type} (c : Client) (peer : Http.Peer) (t : Nat) (request : Request)
    {use : Bytes → Os.FileSystem → Os.FileSystem × Except Failure α}
    (own : ∀ body fs, Ordinary (use body fs).2) (fs : Os.FileSystem) :
    Ordinary ((c.call peer t request use).effect fs).2 := by
  simp only [call]
  split
  · exact own _ fs
  · rename_i failed
    have exchanged := c.ordinary_exchange peer t request
    rw [failed] at exchanged
    exact Ordinary.error_iff.2 (Ordinary.error_iff.1 exchanged)

theorem honest_call {α : Type} (c : Client) (peer : Http.Peer) (t : Nat) (request : Request)
    {use : Bytes → Os.FileSystem → Os.FileSystem × Except Failure α}
    (own : ∀ body fs, Ordinary (use body fs).2) :
    Action.Honest (c.call peer t request use).run :=
  Call.honest_run fun fs => (c.ordinary_call peer t request own fs).uncancelled

theorem honest_service (c : Client) (peer : Http.Peer) : (c.service peer).Honest where
  status _ t := c.honest_call peer t .status fun _ _ => .ok _
  trigger _ t depth := c.honest_call peer t (.trigger depth) fun _ _ => .ok ()
  document _ t := c.honest_call peer t .document c.ordinary_store

end Sidecar.Client

/-! ## The child process -/

namespace Engine

theorem Timeline.mem_insert {t : Nat} {event : Event} {timeline : Timeline}
    {e : Nat × Event} : e ∈ timeline.insert t event ↔ e = (t, event) ∨ e ∈ timeline := by
  induction timeline with
  | nil => simp [insert]
  | cons first rest ih =>
      simp only [insert]
      split
      · simp
      · simp only [List.mem_cons, ih]
        tauto

theorem Timeline.InOrder.insert {timeline : Timeline} (ordered : timeline.InOrder) (t : Nat)
    (event : Event) : (timeline.insert t event).InOrder := by
  induction timeline with
  | nil => simp [InOrder, Timeline.insert]
  | cons first rest ih =>
      obtain ⟨sooner, ordered'⟩ := List.pairwise_cons.1 ordered
      simp only [Timeline.insert]
      split
      · rename_i before
        refine List.pairwise_cons.2 ⟨?_, ordered⟩
        rw [List.forall_mem_cons]
        exact ⟨before, fun e mem => before.trans (sooner e mem)⟩
      · rename_i after
        refine List.pairwise_cons.2 ⟨?_, ih ordered'⟩
        intro e mem
        rcases mem_insert.1 mem with rfl | mem
        · exact Nat.le_of_not_le after
        · exact sooner e mem

namespace Supervisor

theorem mem_farewell {t : Nat} {status : ExitStatus} {e : Nat × Event} :
    e ∈ farewell t status ↔ e = (t, .reported .stopped) ∨
      status.isSuccess = false ∧ e = (t, .reported (.failure (.engine (.exited status)))) := by
  unfold farewell
  cases status.isSuccess with
  | true => simp
  | false => simp [or_comm]

variable (s : Supervisor) (child : Child) (checks : Nat → Readiness.Check) (rounds start : Nat)
  (tie : Bool) (token : Cancellation)

/-- Besides that it serves, what is reported of a child is how it has ended, if it has. -/
theorem mem_timeline_iff {e : Nat × Event} (other : e.2 ≠ .reported .ready) :
    e ∈ s.timeline child checks rounds start tie token ↔ ∃ t status,
      (child.fate start s.grace token tie).stopped = some (t, status) ∧ e ∈ farewell t status := by
  have ends : e ∈ ((child.fate start s.grace token tie).stopped.map
      fun ending => farewell ending.1 ending.2).getD [] ↔ ∃ t status,
      (child.fate start s.grace token tie).stopped = some (t, status) ∧ e ∈ farewell t status := by
    cases (child.fate start s.grace token tie).stopped with
    | none => simp
    | some ending =>
        obtain ⟨t, status⟩ := ending
        simp
  simp only [timeline]
  split
  · rw [Timeline.mem_insert]
    constructor
    · rintro (rfl | ended)
      · exact absurd rfl other
      · exact ends.1 ended
    · intro ended
      exact Or.inr (ends.2 ended)
  · exact ends

theorem timeline_inOrder : (s.timeline child checks rounds start tie token).InOrder := by
  have ends : Timeline.InOrder (((child.fate start s.grace token tie).stopped.map
      fun ending => farewell ending.1 ending.2).getD []) := by
    cases (child.fate start s.grace token tie).stopped with
    | none => exact .nil
    | some ending =>
        simp only [Option.map_some, Option.getD_some, farewell, Timeline.InOrder]
        split <;> simp
  simp only [timeline]
  split
  · exact ends.insert _ _
  · exact ends

end Supervisor

/-- Reports have told of a stop exactly if a stop is among what happened, and nobody left before. -/
theorem stopped_foldl (timeline : Timeline) : ∀ {r : Reports}, r.failures.unattended = false →
    (∀ e ∈ timeline, e.2 ≠ .gone) →
    ((timeline.foldl (fun r e => r.after e.2) r).stopped = true ↔
        r.stopped = true ∨ ∃ t, (t, .reported .stopped) ∈ timeline) ∧
      (timeline.foldl (fun r e => r.after e.2) r).failures.unattended = false := by
  induction timeline with
  | nil => intro r attended _; simp [attended]
  | cons entry rest ih =>
      intro r attended stays
      obtain ⟨t, event⟩ := entry
      rw [List.forall_mem_cons] at stays
      obtain ⟨here, later⟩ := stays
      have attended' : (r.after event).failures.unattended = false := by
        cases event with
        | gone => exact absurd rfl here
        | reported report =>
            cases report with
            | ready | stopped => exact attended
            | failure failure =>
                rw [Reports.after_failure_eq, (Mailbox.send_same _ _).1]
                exact attended
      have stops : (r.after event).stopped = true ↔
          r.stopped = true ∨ event = .reported .stopped := by
        cases event with
        | gone => exact absurd rfl here
        | reported report =>
            cases report with
            | ready | stopped => simp [Reports.after]
            | failure failure => simp [Reports.after_failure_eq]
      -- with somebody to report, an event is a stop or leaves the latch as it is
      obtain ⟨stopped, still⟩ := ih attended' later
      refine ⟨?_, still⟩
      rw [List.foldl_cons, stopped, stops]
      simp only [List.mem_cons, Prod.mk.injEq]
      constructor
      · rintro ((before | rfl) | ⟨u, mem⟩)
        · exact Or.inl before
        · exact Or.inr ⟨t, Or.inl ⟨rfl, rfl⟩⟩
        · exact Or.inr ⟨u, Or.inr mem⟩
      · rintro (before | ⟨u, ⟨-, rfl⟩ | mem⟩)
        · exact Or.inl (Or.inl before)
        · exact Or.inl (Or.inr rfl)
        · exact Or.inr ⟨u, mem⟩

namespace Member

variable {future : Cancellation → Timeline} {token : Cancellation}

theorem launched_neverReports {failure : Failure}
    (other : ∀ token, ∀ e ∈ future token, e.2 ≠ .reported (.failure failure)) (now : Nat) :
    (launched now future token).NeverReports failure := by
  constructor
  case reported =>
    apply failure_notMem_foldl
    · simp [Reports.none, Mailbox.empty]
    · intro e mem
      exact other token e (List.mem_of_mem_filter mem)
  case coming =>
    intro token t mem
    exact other token _ mem rfl

theorem launched_neverCancelled
    (other : ∀ token, ∀ e ∈ future token, e.2 ≠ .reported (.failure .cancelled)) (now : Nat) :
    (launched now future token).NeverCancelled :=
  neverCancelled_iff.2 (launched_neverReports other now)

theorem launched_stopped (stays : ∀ e ∈ future token, e.2 ≠ .gone) {now t : Nat}
    (after : now ≤ t) :
    ((launched now future token).advance token t).reports.stopped = true ↔
      ∃ u ≤ t, (u, .reported .stopped) ∈ future token := by
  have stays' {f : Nat × Event → Bool} : ∀ e ∈ (future token).filter f, e.2 ≠ .gone := by
    intro e mem
    exact stays e (List.mem_of_mem_filter mem)
  obtain ⟨early, attended⟩ :=
    stopped_foldl ((future token).filter (·.1 ≤ now)) (r := .none) rfl stays'
  have late := (stopped_foldl (((future token).filter (now < ·.1)).filter (·.1 ≤ t)) attended
    (by rw [List.filter_filter]; exact stays')).1
  refine Iff.trans late ?_
  rw [early]
  simp only [Reports.none, List.mem_filter, decide_eq_true_eq]
  constructor
  · rintro ((never | ⟨u, mem, before⟩) | ⟨u, ⟨mem, -⟩, before⟩)
    · cases never
    · exact ⟨u, before.trans after, mem⟩
    · exact ⟨u, before, mem⟩
  · rintro ⟨u, before, mem⟩
    rcases Nat.lt_or_ge now u with new | old
    · exact Or.inr ⟨u, ⟨mem, new⟩, before⟩
    · exact Or.inl (Or.inr ⟨u, mem, old⟩)

end Member

namespace Supervisor

variable {s : Supervisor} {spawn : String → List Bytes → Except Os.Fault Child}
  {checks : Nat → Readiness.Check} {rounds : Nat} {tie : Bool} {document : Path}
  {m next : Moment} {b : Member}

theorem started (launched : s.start spawn checks rounds tie document m = some (next, .ok b)) :
    ∃ child, spawn s.program (arguments document) = .ok child ∧ next = m ∧
      b = Member.launched m.now (s.timeline child checks rounds m.now tie) m.token := by
  unfold start at launched
  split at launched
  · cases launched
  · rename_i child spawned
    obtain ⟨rfl, rfl⟩ := by simpa using launched.symm
    exact ⟨child, spawned, rfl, rfl⟩

theorem honest_start : Action.Honest (s.start spawn checks rounds tie document) := by
  intro m last failed
  unfold start at failed
  split at failed <;> cases failed

/-- The only failure that is reported of a child is its exit status. -/
theorem eq_exited_of_mem_timeline {child : Child} {start : Nat} {token : Cancellation}
    {e : Nat × Event} {failure : Failure} (told : e.2 = .reported (.failure failure))
    (mem : e ∈ s.timeline child checks rounds start tie token) :
    ∃ status, failure = .engine (.exited status) := by
  obtain ⟨t, status, -, ended⟩ :=
    (s.mem_timeline_iff child checks rounds start tie token (by simp [told])).1 mem
  rcases mem_farewell.1 ended with rfl | ⟨-, rfl⟩
  · cases told
  · cases told
    exact ⟨status, rfl⟩

theorem timeline_ne {child : Child} {start : Nat} {token : Cancellation} {e : Nat × Event}
    (mem : e ∈ s.timeline child checks rounds start tie token) :
    e.2 ≠ .gone ∧ e.2 ≠ .reported (.failure .cancelled) := by
  by_cases ready : e.2 = .reported .ready
  · simp [ready]
  · obtain ⟨t, status, -, ended⟩ := (s.mem_timeline_iff _ _ _ _ _ _ ready).1 mem
    rcases mem_farewell.1 ended with rfl | ⟨-, rfl⟩ <;> simp

theorem honest_member
    (launched : s.start spawn checks rounds tie document m = some (next, .ok b)) :
    b.InOrder ∧ b.NeverCancelled := by
  obtain ⟨child, -, -, rfl⟩ := started launched
  constructor
  · intro token
    exact s.timeline_inOrder child checks rounds m.now tie token
  · apply Member.launched_neverCancelled
    intro token e mem
    exact (timeline_ne mem).2

/-- A member that is a child process has stopped when the child has ended. -/
theorem stoppedFrom_eq_fate
    (launched : s.start spawn checks rounds tie document m = some (next, .ok b)) {child : Child}
    (spawned : spawn s.program (arguments document) = .ok child) :
    b.stoppedFrom next.token next.now =
      (child.fate next.now s.grace next.token tie).stopped.map (·.1) := by
  obtain ⟨child', spawned', rfl, rfl⟩ := started launched
  obtain rfl : child' = child := by simpa using spawned'.symm.trans spawned
  have stays : ∀ e ∈ s.timeline child' checks rounds next.now tie next.token, e.2 ≠ .gone := by
    intro e mem
    exact (timeline_ne mem).1
  have stop (u : Nat) :
      (u, Event.reported .stopped) ∈ s.timeline child' checks rounds next.now tie next.token ↔
        (child'.fate next.now s.grace next.token tie).stopped.map (·.1) = some u := by
    rw [s.mem_timeline_iff _ _ _ _ _ _ (by simp)]
    constructor
    · rintro ⟨t, status, same, mem⟩
      obtain rfl : u = t := by simpa using mem_farewell.1 mem
      rw [same]
      rfl
    · intro time
      obtain ⟨⟨t, status⟩, same, rfl⟩ := Option.map_eq_some_iff.1 time
      exact ⟨t, status, same, mem_farewell.2 (Or.inl rfl)⟩
  have late {u : Nat}
      (time : (child'.fate next.now s.grace next.token tie).stopped.map (·.1) = some u) :
      next.now ≤ u := by
    obtain ⟨⟨t, status⟩, same, rfl⟩ := Option.map_eq_some_iff.1 time
    exact Child.le_of_fate same
  ext t
  unfold Member.stoppedFrom
  rw [Member.timeOf_eq_some_iff (honest_member launched).1 lasting_stopped]
  constructor
  · rintro ⟨after, has, before⟩
    obtain ⟨v, le, mem⟩ := (Member.launched_stopped stays after).1 has
    have time := (stop v).1 mem
    rcases Nat.lt_or_eq_of_le le with early | rfl
    · have lacks := before v (late time) early
      rw [(Member.launched_stopped stays (late time)).2 ⟨v, Nat.le_refl _, mem⟩] at lacks
      cases lacks
    · exact time
  · intro time
    have after := late time
    refine ⟨after, ?_, ?_⟩
    · exact (Member.launched_stopped stays after).2 ⟨t, Nat.le_refl _, (stop t).2 time⟩
    · intro u from_ early
      rw [← Bool.not_eq_true, Member.launched_stopped stays from_]
      rintro ⟨v, le, mem⟩
      obtain rfl := Option.some.inj (time.symm.trans ((stop v).1 mem))
      omega

end Supervisor

end Engine

/-! ## All parts -/

/-- Parts that answer that they were cancelled only where the run is, with a launcher whose members
report in order of time and never that they were cancelled. -/
structure Parts.Honest (p : Parts) : Prop where
  obtains : Action.Honest p.obtain
  launches : ∀ path, Action.Honest (p.launcher path)
  members : ∀ path m next b, p.launcher path m = some (next, .ok b) → b.InOrder ∧ b.NeverCancelled

namespace Parts

variable {w : World} {fs : Os.FileSystem} {s : Settings} {p : Parts}

/-- The client of the sidecar stores the document where the launcher is told that it is. -/
theorem assembled (built : assemble w fs s = .ok p) : p.settings = s ∧
    p.launcher = Supervisor.start { program := s.program } w.spawn w.checks w.rounds (w.tie 0) ∧
    p.obtain = fun m => (Handshake.run { record := ⟨s.recordPath⟩ }
      (Sidecar.Client.service ⟨s.sidecar.baseAddress, s.documentPath⟩ w.sidecar) w.tie w.rounds
      m).ending := by
  unfold assemble at built
  cases client : Sidecar.Client.build fs s.sidecar s.documentPath with
  | error failure => rw [client] at built; cases built
  | ok client' =>
      obtain rfl := Sidecar.Client.build_eq_ok client
      rw [client] at built
      obtain rfl := Except.ok.inj built
      exact ⟨rfl, rfl, rfl⟩

theorem honest_assemble (built : assemble w fs s = .ok p) : p.Honest := by
  obtain ⟨-, launcher, obtains⟩ := assembled built
  constructor
  case obtains =>
    rw [obtains]
    exact Handshake.honest_run _ (Sidecar.Client.honest_service _ w.sidecar) w.tie w.rounds
  case launches =>
    intro path
    rw [launcher]
    exact Supervisor.honest_start
  case members =>
    intro path m next b launched
    rw [launcher] at launched
    exact Supervisor.honest_member launched

end Parts

end StoreWarden
