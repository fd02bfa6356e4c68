import StoreWarden.Proofs.HandshakeLog
import StoreWarden.Proofs.SharedRecord

/-!
# Races between recording a signal and the main task

`Choosing` says what the main task does with the record along every schedule: it reads it for each
trigger call, and removes it only after the last of them.  Together with `Recording` this settles
what becomes of a signal and of the depth.

A recorded signal is kept exactly if the main task does not remove the record after it, and a
trigger call has the depth of the previous run exactly if that was a quick check anyway or no
signal had been recorded by the time the depth was chosen.  Schedules show that both can fail.
-/

set_option autoImplicit false

namespace StoreWarden.Interleaving

open ExitRecord (Change)
open Os (FileSystem)
open Sidecar (Depth)

/-! ## The main task and the record -/

/-- The depth that was chosen last, with nothing but changes of the record since, at which time the
log was `before`. -/
def ChosenLast (depth : Depth) (log before : List Happening) : Prop :=
  ∃ since, log = since ++ .chosen depth :: before ∧ ∀ x ∈ since, ∃ change, x = .changed change

/-- What holds of the main task and the record along a run. -/
structure Choosing (r : ExitRecord) (start : FileSystem) (sys : System) : Prop where
  early : sys.position.isEarly = true → .changed .removed ∉ sys.log
  chosen : ∀ later depth earlier, sys.log = later ++ .chosen depth :: earlier →
    .changed .removed ∉ earlier ∧ depth = r.depthAfter start (lastChange earlier)
  deciding : ∀ depth, sys.position = .triggering depth → ∃ before, ChosenLast depth sys.log before
  triggered : ∀ later time depth earlier,
    sys.log = later ++ .asked ⟨time, .trigger depth⟩ :: earlier →
    ∃ before, ChosenLast depth earlier before

theorem Choosing.start {r : ExitRecord} {m : Moment} : Choosing r m.files (.start m) := by
  refine ⟨?_, ?_, ?_, ?_⟩
  · intro _
    exact List.not_mem_nil
  · intro later depth earlier log
    cases later <;> cases log
  · intro depth position
    cases position
  · intro later time depth earlier log
    cases later <;> cases log

theorem ChosenLast.changed {depth : Depth} {log before : List Happening}
    (chosen : ChosenLast depth log before) (change : Change) :
    ChosenLast depth (.changed change :: log) before := by
  obtain ⟨since, rfl, quiet⟩ := chosen
  refine ⟨.changed change :: since, rfl, ?_⟩
  intro x mem
  rcases List.mem_cons.1 mem with rfl | mem
  · exact ⟨change, rfl⟩
  · exact quiet x mem

/-- A move that leaves the log alone. -/
theorem Choosing.frame {r : ExitRecord} {start : FileSystem} {sys next : System}
    (inv : Choosing r start sys) (log : next.log = sys.log)
    (early : next.position.isEarly = true → sys.position.isEarly = true)
    (deciding : ∀ depth, next.position = .triggering depth → sys.position = .triggering depth) :
    Choosing r start next := by
  refine ⟨?_, ?_, ?_, ?_⟩
  · intro stays
    rw [log]
    exact inv.early (early stays)
  · rw [log]
    exact inv.chosen
  · intro depth position
    rw [log]
    exact inv.deciding depth (deciding depth position)
  · rw [log]
    exact inv.triggered

/-- A move that adds to the log. -/
theorem Choosing.grow {r : ExitRecord} {start : FileSystem} {sys next : System} {x : Happening}
    (inv : Choosing r start sys) (log : next.log = x :: sys.log)
    (early : next.position.isEarly = true →
      sys.position.isEarly = true ∧ x ≠ .changed .removed)
    (chosen : ∀ depth, x = .chosen depth →
      .changed .removed ∉ sys.log ∧ depth = r.depthAfter start (lastChange sys.log))
    (deciding : ∀ depth, next.position = .triggering depth →
      ∃ before, ChosenLast depth next.log before)
    (triggered : ∀ time depth, x = .asked ⟨time, .trigger depth⟩ →
      ∃ before, ChosenLast depth sys.log before) : Choosing r start next := by
  refine ⟨?_, ?_, deciding, ?_⟩
  · intro stays mem
    obtain ⟨before, quiet⟩ := early stays
    rw [log] at mem
    rcases List.mem_cons.1 mem with here | deeper
    · exact quiet here.symm
    · exact inv.early before deeper
  · intro later depth earlier split
    rw [log] at split
    cases later with
    | nil =>
        obtain ⟨rfl, rfl⟩ := List.cons.inj split
        exact chosen depth rfl
    | cons y later => exact inv.chosen later depth earlier (List.cons.inj split).2
  · intro later time depth earlier split
    rw [log] at split
    cases later with
    | nil =>
        obtain ⟨rfl, rfl⟩ := List.cons.inj split
        exact triggered time depth rfl
    | cons y later => exact inv.triggered later time depth earlier (List.cons.inj split).2

theorem Choosing.keeps {h : Handshake} {start : FileSystem} {sys next : System}
    (does : Does h sys next) (rec : Recording h.record start sys)
    (inv : Choosing h.record start sys) : Choosing h.record start next := by
  cases does with
  | meanwhile d b => exact inv.frame rfl id fun _ => id
  | cancels => exact inv.frame rfl id fun _ => id
  | takes signal idle => exact inv.frame rfl id fun _ => id
  | writes pending early done => exact inv.frame rfl id fun _ => id
  | records pending done =>
      refine inv.grow rfl (fun stays => ⟨stays, by simp⟩) (by simp) ?_ (by simp)
      intro depth position
      obtain ⟨before, chosen⟩ := inv.deciding depth position
      exact ⟨before, chosen.changed _⟩
  | fails pending => exact inv.frame rfl id fun _ => id
  | breaks written pending => exact inv.frame rfl id fun _ => id
  | cancelled pending => exact inv.frame rfl id fun _ => id
  | exits pending =>
      refine inv.frame rfl ?_ ?_
      · intro stays
        cases stays
      · intro depth position
        cases position
  | goes position early plain =>
      refine inv.frame rfl early ?_
      rintro depth rfl
      cases plain
  | asks early =>
      refine inv.grow rfl (fun _ => ⟨early, by simp⟩) (by simp) ?_ (by simp)
      intro depth position
      cases position
  | chooses early =>
      refine inv.grow rfl (fun _ => ⟨early, by simp⟩) ?_ ?_ (by simp)
      · intro depth same
        obtain rfl := Happening.chosen.inj same
        exact ⟨inv.early early, rec.tracks.depth_eq⟩
      · intro depth position
        obtain rfl := Position.triggering.inj position
        exact ⟨sys.log, [], rfl, by simp⟩
  | triggers chosen =>
      refine inv.grow rfl ?_ (by simp) ?_ ?_
      · intro _
        exact ⟨by simp [chosen, Position.isEarly], by simp⟩
      · intro depth position
        cases position
      · intro time depth same
        cases same
        exact inv.deciding _ chosen
  | looks looking free =>
      refine inv.frame rfl ?_ ?_
      · intro _
        simp [looking, Position.isEarly]
      · intro depth position
        cases position
  | hears listening =>
      refine inv.frame rfl ?_ ?_
      · intro _
        simp [listening, Position.isEarly]
      · intro depth position
        cases position
  | removes clearing done =>
      refine inv.grow rfl ?_ (by simp) ?_ (by simp)
      · intro stays
        cases stays
      · intro depth position
        cases position

/-! ## What becomes of a signal, and of the depth -/

theorem sound_run {h : Handshake} {m : Moment} (readable : h.record.TemporaryReadable m.files)
    {moves : List (Move h.record)} {sys : System} (ran : run h moves (.start m) = some sys) :
    Recording h.record m.files sys ∧ Choosing h.record m.files sys := by
  have keeps : ∀ sys next, sys.position ≠ .ended → Does h sys next →
      Recording h.record m.files sys ∧ Choosing h.record m.files sys →
      Recording h.record m.files next ∧ Choosing h.record m.files next := by
    intro sys next _ does holds
    exact ⟨holds.1.keeps does, holds.2.keeps does holds.1⟩
  exact run_keeps keeps moves ⟨.start readable, .start⟩ ran

/-- At every moment of a run, a signal recorded in it is still in the record exactly if the record
has not been removed since. -/
theorem recorded_kept_iff (h : Handshake) (m : Moment)
    (readable : h.record.TemporaryReadable m.files) (moves : List (Move h.record)) (sys : System)
    (ran : run h moves (.start m) = some sys) (later earlier : List Happening) (signal : Signal)
    (log : sys.log = later ++ .changed (.recorded signal) :: earlier) :
    h.record.Holds sys.moment.files signal ↔ .changed .removed ∉ later := by
  obtain ⟨inv, -⟩ := sound_run readable ran
  have shows := inv.tracks.shows
  rw [log, lastChange_append] at shows
  cases last : lastChange later with
  | none =>
      rw [last] at shows
      have kept : .changed .removed ∉ later := notMem_of_lastChange last .removed
      exact ⟨fun _ => kept, fun _ => shows⟩
  | some change =>
      have mem := mem_of_lastChange last
      cases change with
      | recorded other => exact absurd mem (inv.once later signal earlier log other)
      | removed =>
          rw [last] at shows
          constructor
          · intro holds
            exact absurd shows holds.not_absent
          · intro kept
            exact absurd mem kept

/-- The run is cancelled, and the main task has not got past its look at the cancellation. -/
def Stopped (sys : System) : Prop :=
  sys.isCancelled = true ∧ sys.position ≠ .listening ∧ sys.position ≠ .clearing

theorem isCancelled_cancel (m : Moment) : m.cancel.isCancelled = true := by
  have reached : decide (m.now ≤ m.now) = true := by simp
  simp only [Moment.isCancelled, Moment.cancel, Cancellation.isFired_cancel, reached, Bool.or_true]

theorem Stopped.keeps {h : Handshake} {sys next : System} (does : Does h sys next)
    (stopped : Stopped sys) : Stopped next ∧
      (.changed .removed ∈ next.log → .changed .removed ∈ sys.log) := by
  obtain ⟨cancelled, unheard, unclear⟩ := stopped
  cases does with
  | meanwhile d b =>
      have later : sys.moment.now ≤ sys.moment.now + d := by omega
      exact ⟨⟨Cancellation.isFired_mono later cancelled, unheard, unclear⟩, id⟩
  | cancels => exact ⟨⟨isCancelled_cancel _, unheard, unclear⟩, id⟩
  | takes signal idle => exact ⟨⟨cancelled, unheard, unclear⟩, id⟩
  | writes pending early done => exact ⟨⟨cancelled, unheard, unclear⟩, id⟩
  | records pending done =>
      exact ⟨⟨cancelled, unheard, unclear⟩, by simp [System.tell, System.withFiles]⟩
  | fails pending => exact ⟨⟨cancelled, unheard, unclear⟩, id⟩
  | breaks written pending => exact ⟨⟨cancelled, unheard, unclear⟩, id⟩
  | cancelled pending => exact ⟨⟨isCancelled_cancel _, unheard, unclear⟩, id⟩
  | exits pending => exact ⟨⟨cancelled, by simp, by simp⟩, id⟩
  | goes position early plain =>
      refine ⟨⟨cancelled, ?_, ?_⟩, id⟩
      · rintro rfl
        cases plain
      · rintro rfl
        cases plain
  | asks early =>
      refine ⟨⟨cancelled, ?_, ?_⟩, ?_⟩
      · simp [System.go]
      · simp [System.go]
      · simp [System.go, System.tell]
  | chooses early =>
      refine ⟨⟨cancelled, ?_, ?_⟩, ?_⟩
      · simp [System.go]
      · simp [System.go]
      · simp [System.go, System.tell]
  | triggers chosen =>
      refine ⟨⟨cancelled, ?_, ?_⟩, ?_⟩
      · simp [System.go]
      · simp [System.go]
      · simp [System.go, System.tell]
  | looks looking free => exact absurd cancelled (by simp [free])
  | hears listening => exact absurd listening unheard
  | removes clearing done => exact absurd clearing unclear

/-- Once a run is cancelled and the main task has not got past its look at the cancellation, the
record is not removed any more. -/
theorem not_removed_once_stopped {h : Handshake} (moves : List (Move h.record)) {sys last : System}
    (stopped : Stopped sys) (ran : run h moves sys = some last)
    (removed : .changed .removed ∈ last.log) : .changed .removed ∈ sys.log := by
  have kept : Stopped last ∧ (.changed .removed ∈ last.log → .changed .removed ∈ sys.log) := by
    refine run_keeps (motive := fun next => Stopped next ∧
      (.changed .removed ∈ next.log → .changed .removed ∈ sys.log)) ?_ moves ⟨stopped, id⟩ ran
    intro now next _ does holds
    obtain ⟨after, less⟩ := holds.1.keeps does
    exact ⟨after, fun mem => holds.2 (less mem)⟩
  exact kept.2 removed

/-- A run in a directory without files. -/
def fresh : System := .start ⟨0, .never, .empty⟩

/-- A signal comes when the main task has found the member serving.  It is recorded, then the main
task removes the record, and only then is the run cancelled. -/
def recordedBeforeRemoval : List (Move Handshake.brisk.record) :=
  [.main .nothing, .main (.status (.ok .successful)), .main .nothing, .main .nothing,
    .main .ready, .signal .terminate, .handle, .handle, .handle, .handle, .main .nothing, .handle,
    .main .nothing]

/-- In that run the signal is recorded, and lost. -/
theorem recorded_signal_lost :
    ∃ sys, run Handshake.brisk recordedBeforeRemoval fresh = some sys ∧ sys.position = .ended ∧
      .changed (.recorded .terminate) ∈ sys.log ∧
      ¬ Handshake.brisk.record.Holds sys.moment.files .terminate := by
  have seen : (run Handshake.brisk recordedBeforeRemoval fresh).map
      (fun sys => (sys.position, sys.log)) = some (.ended, [.changed .removed,
        .changed (.recorded .terminate), .asked ⟨0, .status⟩]) := by decide +kernel
  cases ran : run Handshake.brisk recordedBeforeRemoval fresh with
  | none =>
      rw [ran] at seen
      cases seen
  | some sys =>
      rw [ran] at seen
      obtain ⟨position, log⟩ := Prod.mk.inj (Option.some.inj seen)
      refine ⟨sys, rfl, position, by simp [log], ?_⟩
      intro holds
      have kept := (recorded_kept_iff Handshake.brisk ⟨0, .never, .empty⟩
        ExitRecord.nearby_readable recordedBeforeRemoval sys ran [.changed .removed]
        [.asked ⟨0, .status⟩] .terminate log).1 holds
      exact kept List.mem_cons_self

/-- Every trigger call carries a depth that was read off the record before.  It is the depth that
the record called for when the run began exactly if that was a quick check, or no signal had been
recorded when it was read. -/
theorem trigger_depth_eq_start_iff (h : Handshake) (m : Moment)
    (readable : h.record.TemporaryReadable m.files) (moves : List (Move h.record)) (sys : System)
    (ran : run h moves (.start m) = some sys) (later earlier : List Happening) (time : Nat)
    (depth : Depth) (log : sys.log = later ++ .asked ⟨time, .trigger depth⟩ :: earlier) :
    ∃ before, ChosenLast depth earlier before ∧
      (depth = h.record.depth m.files ↔
        h.record.depth m.files = .sanity ∨
          ∀ signal, .changed (.recorded signal) ∉ before) := by
  obtain ⟨-, inv⟩ := sound_run readable ran
  obtain ⟨before, chosen⟩ := inv.triggered later time depth earlier log
  refine ⟨before, chosen, ?_⟩
  obtain ⟨since, rfl, -⟩ := chosen
  have split : sys.log =
      (later ++ .asked ⟨time, .trigger depth⟩ :: since) ++ .chosen depth :: before := by
    simp [log]
  obtain ⟨kept, read⟩ := inv.chosen _ depth before split
  cases last : lastChange before with
  | none =>
      rw [last] at read
      have quiet : ∀ signal, .changed (.recorded signal) ∉ before :=
        fun signal => notMem_of_lastChange last _
      exact ⟨fun _ => Or.inr quiet, fun _ => read⟩
  | some change =>
      have mem := mem_of_lastChange last
      cases change with
      | removed => exact absurd mem kept
      | recorded signal =>
          rw [last] at read
          constructor
          · intro same
            exact Or.inl (same.symm.trans read)
          · rintro (quick | quiet)
            · exact read.trans quick.symm
            · exact absurd mem (quiet signal)

/-- A signal comes while the state is asked for, and is recorded before the answer. -/
def recordedBeforeChoice : List (Move Handshake.brisk.record) :=
  [.main .nothing, .signal .terminate, .handle, .handle, .handle, .handle,
    .main (.status (.ok .new)), .main .nothing, .main .nothing]

/-- In that run the trigger call is made with another depth than the one at its beginning. -/
theorem trigger_depth_disturbed :
    ∃ sys, run Handshake.brisk recordedBeforeChoice fresh = some sys ∧
      .asked ⟨0, .trigger .sanity⟩ ∈ sys.log ∧
      Depth.sanity ≠ Handshake.brisk.record.depth .empty := by
  have seen : (run Handshake.brisk recordedBeforeChoice fresh).map (·.log) =
      some [.asked ⟨0, .trigger .sanity⟩, .chosen .sanity, .changed (.recorded .terminate),
        .asked ⟨0, .status⟩] := by decide +kernel
  cases ran : run Handshake.brisk recordedBeforeChoice fresh with
  | none =>
      rw [ran] at seen
      cases seen
  | some sys =>
      rw [ran] at seen
      have log := Option.some.inj seen
      refine ⟨sys, rfl, by simp [log], ?_⟩
      obtain ⟨before, ⟨since, split, quiet⟩, same⟩ :=
        trigger_depth_eq_start_iff Handshake.brisk ⟨0, .never, .empty⟩
          ExitRecord.nearby_readable recordedBeforeChoice sys ran [] _ 0 .sanity log
      have atOnce : since = [] := by
        cases since with
        | nil => rfl
        | cons x more =>
            obtain ⟨change, rfl⟩ := quiet x List.mem_cons_self
            cases split
      subst atOnce
      obtain ⟨-, rfl⟩ := List.cons.inj split
      intro equal
      rcases same.1 equal with quick | none'
      · revert quick
        decide
      · exact none' .terminate List.mem_cons_self

/-- A sidecar that has not been triggered.  While it is asked for the state a signal comes, so that
by the time of the answer the signal is recorded and the run cancelled. -/
def overtaken : Sidecar.Service where
  status _ _ := ⟨some 10, false, true,
    fun fs => ((Handshake.brisk.record.capture .terminate fs).1, .ok .new)⟩
  trigger _ _ _ := .immediate (.ok ())
  document _ _ := .immediate (.ok (Path.ofString "etcd.yaml"))

/-- The same in the handshake itself: not every trigger call has the depth that the record called
for when the handshake began. -/
theorem handshake_depth_overtaken :
    ¬ ∀ asked ∈ (Handshake.brisk.run overtaken (fun _ => true) 2 ⟨0, .never, .empty⟩).asked,
      ∀ depth, asked.request = .trigger depth →
        depth = Handshake.brisk.record.depth .empty := by
  intro all
  have calls : (Handshake.brisk.run overtaken (fun _ => true) 2 ⟨0, .never, .empty⟩).asked =
      [⟨0, .status⟩, ⟨10, .trigger .sanity⟩] := by decide +kernel
  have call : (⟨10, .trigger .sanity⟩ : Sidecar.Asked) ∈
      (Handshake.brisk.run overtaken (fun _ => true) 2 ⟨0, .never, .empty⟩).asked := by
    rw [calls]
    exact List.mem_cons_of_mem _ List.mem_cons_self
  have same := all _ call .sanity rfl
  revert same
  decide

end StoreWarden.Interleaving
