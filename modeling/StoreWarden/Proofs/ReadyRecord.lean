import StoreWarden.Proofs.RecordChange
import StoreWarden.Proofs.RunCourse

/-!
# The record is removed by a member that serves

Once a launcher has handed over a member, a launch ends with the first thing that happens: the run
is cancelled, the member serves, it stops, or its time is over.  Of those that come together the one
named first here counts.  `due` tells when each of them comes, which is the first time at which what
the member has reported by then, or the clock, says so; and `startup_eq_some_iff` says that the wait
ends with the first.

`Settles` lists all ways in which a launch ends.  Only the one in which the member serves touches
the files, and there a record that cannot be removed stays without harm.
-/

set_option autoImplicit false

namespace StoreWarden

/-! ## Removing the record -/

namespace ExitRecord

inductive Cleared (r : ExitRecord) (fs : Os.FileSystem) : Os.FileSystem → Prop
  | removed {next : Os.FileSystem} (gone : r.Absent next)
      (others : ∀ q : Path, fs.place? q ≠ fs.place? r.path → next.named? q = fs.named? q) :
      Cleared r fs next
  | left {fault : Os.Fault} (failed : fs.remove r.path = .error fault)
      (there : fault.isNotFound = false) : Cleared r fs fs

theorem cleared_discard (r : ExitRecord) (fs : Os.FileSystem) :
    r.Cleared fs (r.discard fs).1 := by
  cases removed : fs.remove r.path with
  | ok next =>
      have same : (r.discard fs).1 = next := by simp [discard, removed]
      obtain ⟨loc, content, mode, fits, there, rfl⟩ := Os.FileSystem.remove_eq_ok removed
      have free : fs.node? loc ≠ some .directory := by simp [there]
      rw [same]
      refine .removed (Os.FileSystem.named?_erase_self fits free) ?_
      intro q elsewhere
      rw [fits.place?_eq] at elsewhere
      exact Os.FileSystem.named?_erase_of_ne fits.ne_nil free elsewhere
  | error fault =>
      rw [discard_fst_of_error removed]
      cases notFound : fault.isNotFound with
      | false => exact .left removed notFound
      | true =>
          refine .removed ?_ fun q _ => rfl
          exact Os.FileSystem.named?_of_remove_notFound removed notFound

end ExitRecord

namespace Life

open Engine (Member lasting_ready lasting_stopped)

variable {p : Parts} {s : Life} {m : Moment} {b : Member} {t : Nat}

/-! ## What ends the wait -/

/-- Of events that come together the one of lower rank counts. -/
def Startup.rank : Startup → Nat
  | .cancelled => 0
  | .ready => 1
  | .stopped => 2
  | .tooLate _ => 3

/-- When an event comes to somebody who waits from `m` on. -/
def due (p : Parts) (m : Moment) (b : Member) : Startup → Option Nat
  | .cancelled => m.token.seenFrom m.now
  | .ready => b.readyFrom m.token m.now
  | .stopped => b.stoppedFrom m.token m.now
  | .tooLate seconds =>
    if seconds = p.settings.waitReadySeconds.toNat ∧ seconds ≠ 0 then some (m.now + 1000 * seconds)
    else none

def HasCome (p : Parts) (m : Moment) (b : Member) (t : Nat) : Startup → Prop
  | .cancelled => m.token.isFired t = true
  | .ready => (b.advance m.token t).reports.ready = true
  | .stopped => (b.advance m.token t).reports.stopped = true
  | .tooLate seconds => seconds = p.settings.waitReadySeconds.toNat ∧ seconds ≠ 0 ∧
      m.now + 1000 * seconds ≤ t

/-- An event comes at `t`, nothing before it, and nothing of lower rank with it. -/
structure First (p : Parts) (m : Moment) (b : Member) (t : Nat) (event : Startup) : Prop where
  comes : due p m b event = some t
  before : ∀ other u, due p m b other = some u → t < u ∨ t = u ∧ event.rank ≤ other.rank

theorem seenFrom_eq_some_iff {token : Cancellation} {now : Nat} :
    token.seenFrom now = some t ↔
      now ≤ t ∧ token.isFired t = true ∧ ∀ u, now ≤ u → u < t → ¬ token.isFired u = true := by
  unfold Cancellation.seenFrom Cancellation.isFired
  cases token.firesAt with
  | none => simp
  | some f =>
      simp only [Option.map_some, Option.some.injEq, decide_eq_true_eq]
      constructor
      · rintro rfl
        exact ⟨Nat.le_max_left _ _, Nat.le_max_right _ _, fun u from_ before => by omega⟩
      · rintro ⟨from_, fired, before⟩
        apply Nat.le_antisymm
        · exact Nat.max_le.2 ⟨from_, fired⟩
        · by_contra late
          exact before (max now f) (Nat.le_max_left _ _) (by omega) (Nat.le_max_right _ _)

theorem due_eq_some_iff (ordered : b.InOrder) (event : Startup) :
    due p m b event = some t ↔
      m.now ≤ t ∧ HasCome p m b t event ∧ ∀ u, m.now ≤ u → u < t → ¬ HasCome p m b u event := by
  cases event with
  | cancelled => exact seenFrom_eq_some_iff
  | ready =>
      simp only [HasCome, Bool.not_eq_true]
      exact Member.timeOf_eq_some_iff ordered lasting_ready
  | stopped =>
      simp only [HasCome, Bool.not_eq_true]
      exact Member.timeOf_eq_some_iff ordered lasting_stopped
  | tooLate seconds =>
      simp only [due, HasCome]
      by_cases limited : seconds = p.settings.waitReadySeconds.toNat ∧ seconds ≠ 0
      · rw [if_pos limited, Option.some.injEq]
        constructor
        · rintro rfl
          refine ⟨Nat.le_add_right _ _, ⟨limited.1, limited.2, Nat.le_refl _⟩, ?_⟩
          rintro u - early ⟨-, -, past⟩
          omega
        · rintro ⟨from_, ⟨-, -, past⟩, before⟩
          by_contra other
          exact before (m.now + 1000 * seconds) (Nat.le_add_right _ _) (by omega)
            ⟨limited.1, limited.2, Nat.le_refl _⟩
      · rw [if_neg limited]
        constructor
        · intro never
          cases never
        · rintro ⟨-, ⟨same, some', -⟩, -⟩
          exact absurd ⟨same, some'⟩ limited

theorem due_tooLate_of_zero (unlimited : p.settings.waitReadySeconds = 0) (seconds : Nat) :
    due p m b (.tooLate seconds) = none := by
  have zero : p.settings.waitReadySeconds.toNat = 0 := by rw [unlimited]; rfl
  rw [due, zero, if_neg]
  rintro ⟨same, other⟩
  exact other same

/-- What may end a wait, in the order in which it is looked for. -/
def occasions (p : Parts) (m : Moment) (b : Member) : List (Option Nat × Startup) :=
  let limit := p.settings.waitLimit?
  [(m.token.seenFrom m.now, .cancelled), (b.readyFrom m.token m.now, .ready),
    (b.stoppedFrom m.token m.now, .stopped),
    (limit.map (m.now + 1000 * ·), .tooLate (limit.getD 0))]

theorem mem_occasions_iff {event : Startup} :
    (some t, event) ∈ occasions p m b ↔ due p m b event = some t := by
  have zero_iff : p.settings.waitReadySeconds = 0 ↔ p.settings.waitReadySeconds.toNat = 0 := by
    rw [← UInt64.toNat_inj]
    rfl
  cases event with
  | cancelled | ready | stopped => simp [occasions, due, eq_comm]
  | tooLate seconds =>
      simp only [occasions, due, Settings.waitLimit?, zero_iff]
      by_cases unlimited : p.settings.waitReadySeconds.toNat = 0
      · simp [unlimited]
      · rw [if_neg unlimited]
        by_cases same : seconds = p.settings.waitReadySeconds.toNat
        · subst same
          simp [unlimited, eq_comm]
        · simp [same]

theorem occasions_ranked (p : Parts) (m : Moment) (b : Member) :
    (occasions p m b).Pairwise fun e f => e.2.rank ≤ f.2.rank := by
  simp [occasions, Startup.rank]

theorem First.unique {u : Nat} {event other : Startup} (first : First p m b t event)
    (first' : First p m b u other) : t = u ∧ event = other := by
  have same : t = u ∧ event.rank = other.rank := by
    rcases first.before other u first'.comes with early | ⟨same, lower⟩
    · rcases first'.before event t first.comes with early' | ⟨same, -⟩ <;> omega
    · rcases first'.before event t first.comes with early' | ⟨-, lower'⟩
      · omega
      · exact ⟨same, Nat.le_antisymm lower lower'⟩
  refine ⟨same.1, ?_⟩
  -- only the events that are too late share a rank, and of them one is due
  have comes := first.comes
  have comes' := first'.comes
  cases event <;> cases other <;> simp_all [Startup.rank, due]

theorem startup_eq_some_iff {event : Startup} :
    startup p m b = some (t, event) ↔ First p m b t event := by
  have sound {u : Nat} {found : Startup} (ends : startup p m b = some (u, found)) :
      First p m b u found := by
    refine ⟨mem_occasions_iff.1 (mem_of_firstOf ends), ?_⟩
    intro other v comes
    exact firstOf_before (occasions_ranked p m b) ends _ (mem_occasions_iff.2 comes) v rfl
  constructor
  · exact sound
  · intro first
    cases ends : startup p m b with
    | none =>
        have never := firstOf_eq_none_iff.1 ends _ (mem_occasions_iff.2 first.comes)
        cases never
    | some found =>
        obtain ⟨rfl, rfl⟩ := first.unique (sound ends)
        rfl

theorem startup_eq_none_iff : startup p m b = none ↔ ∀ event, due p m b event = none := by
  constructor
  · intro endless event
    cases comes : due p m b event with
    | none => rfl
    | some t =>
        have never := firstOf_eq_none_iff.1 endless _ (mem_occasions_iff.2 comes)
        cases never
  · intro never
    cases ends : startup p m b with
    | none => rfl
    | some found => cases (never found.2).symm.trans (startup_eq_some_iff.1 ends).comes

/-! ## The ways in which a launch ends -/

/-- Nothing keeps a run from calling the launcher. -/
def Equipped (p : Parts) (s : Life) : Prop :=
  ∃ document, s.document = some document ∧ prepare p s.moment.files document = .ok ()

structure Hands (p : Parts) (s : Life) (next : Moment) (answer : Except Failure Member) :
    Prop where
  equipped : Equipped p s
  handed : p.launcher p.settings.documentPath s.moment = some (next, answer)

/-- A run whose launcher has come back in the moment `next`. -/
def onceLaunched (p : Parts) (s : Life) (next : Moment) : Life :=
  ⟨next, s.document, s.document.map p.server,
    s.launches ++ [⟨s.moment.now, p.settings.documentPath⟩]⟩

inductive Settles (p : Parts) (s : Life) : Outcome Member → Prop
  | undocumented (missing : s.document = none) :
      Settles p s ⟨s, some (.error (.misuse .setupMissing))⟩
  | unprepared {document : Engine.Settings} {failure : Failure}
      (given : s.document = some document)
      (failed : prepare p s.moment.files document = .error failure) :
      Settles p s ⟨s, some (.error failure)⟩
  | launching (equipped : Equipped p s)
      (never : p.launcher p.settings.documentPath s.moment = none) :
      Settles p s ⟨s.onceLaunched p s.moment, none⟩
  | unlaunched {next : Moment} {failure : Failure} (hands : Hands p s next (.error failure)) :
      Settles p s ⟨s.onceLaunched p next, some (.error failure)⟩
  | waiting {next : Moment} {b : Member} (hands : Hands p s next (.ok b))
      (endless : ∀ event, due p next b event = none) :
      Settles p s ⟨s.onceLaunched p next, none⟩
  | cancelled {next : Moment} {b : Member} {t : Nat} (hands : Hands p s next (.ok b))
      (first : First p next b t .cancelled) :
      Settles p s ⟨s.onceLaunched p (next.moveTo t), some (.error .cancelled)⟩
  | serving {next : Moment} {b : Member} {t : Nat} {files : Os.FileSystem}
      (hands : Hands p s next (.ok b)) (first : First p next b t .ready)
      (cleared : ExitRecord.Cleared ⟨p.settings.recordPath⟩ next.files files) :
      Settles p s ⟨s.onceLaunched p { next.moveTo t with files },
        some (.ok (b.advance next.token t))⟩
  /-- The failure reported first is told, or that the member stopped. -/
  | stopped {next : Moment} {b : Member} {t : Nat} (hands : Hands p s next (.ok b))
      (first : First p next b t .stopped) :
      Settles p s ⟨s.onceLaunched p (next.moveTo t), some (.error
        ((b.advance next.token t).reports.failures.items.head?.getD (.engine .stoppedEarly)))⟩
  | tooLate {next : Moment} {b : Member} {t seconds : Nat} (hands : Hands p s next (.ok b))
      (first : First p next b t (.tooLate seconds)) :
      Settles p s ⟨s.onceLaunched p (next.moveTo t),
        some (.error (.engine (.notReadyWithin seconds)))⟩

theorem settles_awaitReady {next : Moment} (hands : Hands p s next (.ok b)) :
    Settles p s (awaitReady p (s.onceLaunched p next) b) := by
  unfold awaitReady
  cases ends : startup p (s.onceLaunched p next).moment b with
  | none => exact .waiting hands (startup_eq_none_iff.1 ends)
  | some found =>
      obtain ⟨t, event⟩ := found
      have first : First p next b t event := startup_eq_some_iff.1 ends
      cases event with
      | cancelled => exact .cancelled hands first
      | ready => exact .serving hands first (ExitRecord.cleared_discard _ _)
      | stopped =>
          simp only [finish, Member.takeFailure_snd]
          exact .stopped hands first
      | tooLate seconds => exact .tooLate hands first

theorem launch_of_equipped (equipped : Equipped p s) :
    s.launch p = ((s.onceLaunched p s.moment).perform (p.launcher p.settings.documentPath)).andThen
      fun s b => awaitReady p s b := by
  obtain ⟨document, given, prepared⟩ := equipped
  simp only [launch, given, prepared, onceLaunched, Option.map_some]

theorem settles_launch (p : Parts) (s : Life) : Settles p s (s.launch p) := by
  cases given : s.document with
  | none =>
      simp only [launch, given]
      exact .undocumented given
  | some document =>
      cases prepared : prepare p s.moment.files document with
      | error failure =>
          simp only [launch, given, prepared]
          exact .unprepared given prepared
      | ok done =>
          have equipped : Equipped p s := ⟨document, given, prepared⟩
          rw [launch_of_equipped equipped]
          cases called : p.launcher p.settings.documentPath s.moment with
          | none =>
              have same : (s.onceLaunched p s.moment).perform (p.launcher p.settings.documentPath) =
                  ⟨s.onceLaunched p s.moment, none⟩ := by
                simp only [perform, onceLaunched, called]
              rw [same]
              exact .launching equipped called
          | some result =>
              obtain ⟨next, answer⟩ := result
              have hands : Hands p s next answer := ⟨equipped, called⟩
              have same : (s.onceLaunched p s.moment).perform (p.launcher p.settings.documentPath) =
                  ⟨s.onceLaunched p next, some answer⟩ := by
                simp only [perform, onceLaunched, called]
              rw [same]
              cases answer with
              | error failure => exact .unlaunched hands
              | ok b => exact settles_awaitReady hands

def SparesRecord (p : Parts) (s : Life) : Prop :=
  ∀ next answer, p.launcher p.settings.documentPath s.moment = some (next, answer) →
    next.files.named? p.settings.recordPath = s.moment.files.named? p.settings.recordPath

theorem Settles.kept {o : Outcome Member} (way : Settles p s o) (spares : SparesRecord p s)
    (failed : ∀ b, o.answer ≠ some (.ok b)) :
    o.life.moment.files.named? p.settings.recordPath =
      s.moment.files.named? p.settings.recordPath := by
  -- everywhere but in `serving` the files are those that the launcher has left
  cases way with
  | undocumented | unprepared | launching => rfl
  | @unlaunched next failure hands => exact spares next _ hands.handed
  | @waiting next b hands | @cancelled next b t hands | @stopped next b t hands
  | @tooLate next b t seconds hands => exact spares next _ hands.handed
  | serving => exact absurd rfl (failed _)

structure Concludes (p : Parts) (s : Life) (o : Outcome Member) : Prop where
  way : Settles p s o
  /-- An event is due at the first time by which it has come. -/
  due : ∀ next b, Hands p s next (.ok b) → b.InOrder → ∀ event t,
    due p next b event = some t ↔
      next.now ≤ t ∧ HasCome p next b t event ∧
        ∀ u, next.now ≤ u → u < t → ¬ HasCome p next b u event
  kept : SparesRecord p s → (∀ b, o.answer ≠ some (.ok b)) →
    o.life.moment.files.named? p.settings.recordPath =
      s.moment.files.named? p.settings.recordPath
  /-- A launch without a limit goes on until something else happens. -/
  unlimited : p.settings.waitReadySeconds = 0 → ∀ next b, Hands p s next (.ok b) →
    ∀ t seconds, ¬ First p next b t (.tooLate seconds)

theorem launch_concludes (p : Parts) (s : Life) : Concludes p s (s.launch p) := by
  have way := settles_launch p s
  refine ⟨way, fun next b _ ordered event t => due_eq_some_iff ordered event, way.kept, ?_⟩
  intro unlimited next b _ t seconds first
  cases (due_tooLate_of_zero unlimited seconds).symm.trans first.comes

/-- What a member reports that serves and stops at the same time. -/
def rivals (_ : Cancellation) : Engine.Timeline :=
  [(5, .reported .ready), (5, .reported .stopped)]

/-- Parts with such a member, for a limited wait. -/
def contested : Parts where
  settings := { Settings.default with waitReadySeconds := 1, recordPath := .ofString "exit_code" }
  obtain := Action.pure (.ok .empty)
  launcher _ m := some (m, .ok (Member.launched m.now rivals m.token))
  checkGiven := true
  portFault := none

def pressed : Life where
  moment := ⟨0, .firingAt 5, Os.FileSystem.empty.plant (.ofString "exit_code")
    (.file (Bytes.ofString "terminated") Os.defaultMode)⟩
  document := some .empty
  server := none
  launches := []

def unpressed : Life := { pressed with moment := { pressed.moment with token := .never } }

/-- The member serves at the time at which the run is cancelled.  The cancellation counts and the
record stays; without it the launch would have ended with the member and the record removed. -/
theorem launch_concludes_contested :
    (pressed.launch contested).answer = some (.error .cancelled) ∧
      (pressed.launch contested).life.moment.now = 5 ∧
      ExitRecord.Holds ⟨contested.settings.recordPath⟩ (pressed.launch contested).life.moment.files
        .terminate ∧
      (∃ b, Hands contested pressed pressed.moment (.ok b) ∧
        HasCome contested pressed.moment b 5 .ready) ∧
      (∃ b, (unpressed.launch contested).answer = some (.ok b)) ∧
      (unpressed.launch contested).life.moment.now = 5 ∧
      ExitRecord.Absent ⟨contested.settings.recordPath⟩
        (unpressed.launch contested).life.moment.files := by
  have laws := launch_concludes contested pressed
  have answer : (pressed.launch contested).answer = some (.error .cancelled) := by rfl
  have hands : Hands contested pressed pressed.moment
      (.ok (Member.launched 0 rivals (.firingAt 5))) := ⟨⟨.empty, rfl, by rfl⟩, rfl⟩
  have ordered : (Member.launched 0 rivals (.firingAt 5)).InOrder := by
    intro token
    simp [Member.launched, rivals, Engine.Timeline.InOrder]
  refine ⟨answer, by rfl, ?_, ⟨_, hands, ?_⟩, ⟨_, rfl⟩, by rfl, by rfl⟩
  · have before : ExitRecord.Holds ⟨contested.settings.recordPath⟩ pressed.moment.files
        .terminate := by rfl
    apply before.of_named?_eq
    apply laws.kept
    · intro next result handed
      obtain ⟨rfl, -⟩ := Prod.mk.inj (Option.some.inj handed)
      rfl
    · intro b
      rw [answer]
      simp
  · exact ((laws.due _ _ hands ordered .ready 5).1 (by rfl)).2.1

end Life

end StoreWarden
