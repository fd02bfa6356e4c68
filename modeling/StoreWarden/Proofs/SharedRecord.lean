import StoreWarden.Proofs.Interleaving

/-!
# The record in an interleaved run

`Recording` holds along every schedule: the record is what its last change made it, the signal task
has its temporary file ready for the next write, and at most one signal is recorded in a run.  Of
the moves of a run those of the signal task are the ones with an argument; all others leave the
record and the signal task alone, apart from the one that removes the record.
-/

set_option autoImplicit false

namespace StoreWarden.Interleaving

open ExitRecord (Change Ordered)
open Os (FileSystem)
open Shutdown (Stage)

/-! ## The last change in a log -/

def lastChange : List Happening → Option Change
  | [] => none
  | .changed change :: _ => some change
  | _ :: earlier => lastChange earlier

theorem lastChange_cons_of_ne {x : Happening} (quiet : ∀ change, x ≠ .changed change)
    (log : List Happening) : lastChange (x :: log) = lastChange log := by
  cases x with
  | asked asked => rfl
  | chosen depth => rfl
  | changed change => exact absurd rfl (quiet change)

theorem lastChange_append (later earlier : List Happening) :
    lastChange (later ++ earlier) = (lastChange later).or (lastChange earlier) := by
  induction later with
  | nil => simp [lastChange]
  | cons x rest ih => cases x <;> simp [lastChange, ih]

theorem mem_of_lastChange {log : List Happening} {change : Change}
    (last : lastChange log = some change) : .changed change ∈ log := by
  induction log with
  | nil => cases last
  | cons x earlier ih =>
      cases x with
      | asked asked => exact List.mem_cons_of_mem _ (ih last)
      | chosen depth => exact List.mem_cons_of_mem _ (ih last)
      | changed other =>
          obtain rfl := Option.some.inj last
          exact List.mem_cons_self

theorem notMem_of_lastChange {log : List Happening} (none' : lastChange log = none)
    (change : Change) : .changed change ∉ log := by
  induction log with
  | nil => exact List.not_mem_nil
  | cons x earlier ih =>
      cases x with
      | asked asked => simpa using ih none'
      | chosen depth => simpa using ih none'
      | changed other => cases none'

/-! ## The signal task and the record -/

/-- What the signal task may have left to do at a stage. -/
inductive Pending : Stage → List Deed → Prop where
  | idle {stage : Stage} : Pending stage []
  | exit : Pending .over [.exit]
  | shutdown {signal : Signal} {steps : List ExitRecord.Step} (ordered : Ordered steps) :
      Pending .stopping (steps.map (.write signal) ++ [.cancel])

/-- After a recorded signal no other one is recorded. -/
def RecordedOnce (log : List Happening) : Prop :=
  ∀ later signal earlier, log = later ++ .changed (.recorded signal) :: earlier →
    ∀ other, .changed (.recorded other) ∉ later

/-- What holds of the record and the signal task along a run that began with the files `start`. -/
structure Recording (r : ExitRecord) (start : FileSystem) (sys : System) : Prop where
  tracks : r.Tracks start (lastChange sys.log) sys.moment.files
  pending : Pending sys.stage sys.deeds
  prepared : ∀ signal s rest, sys.deeds = .write signal s :: rest →
    r.Prepared sys.moment.files (Bytes.ofString signal.name) s
  unrecorded : (sys.stage = .watching ∨ ∃ signal s rest, sys.deeds = .write signal s :: rest) →
    ∀ signal, .changed (.recorded signal) ∉ sys.log
  once : RecordedOnce sys.log

theorem Recording.start {r : ExitRecord} {m : Moment} (readable : r.TemporaryReadable m.files) :
    Recording r m.files (.start m) := by
  refine ⟨.start readable, .idle, ?_, ?_, ?_⟩
  · intro signal s rest deeds
    cases deeds
  · intro _ signal
    exact List.not_mem_nil
  · intro later signal earlier log
    cases later <;> cases log

/-- When the signal task has come and has nothing more to write, only the record itself matters. -/
theorem Recording.of_written {r : ExitRecord} {start : FileSystem} {sys : System}
    (tracks : r.Tracks start (lastChange sys.log) sys.moment.files)
    (pending : Pending sys.stage sys.deeds) (late : sys.stage ≠ .watching)
    (written : ∀ signal s rest, sys.deeds ≠ .write signal s :: rest)
    (once : RecordedOnce sys.log) : Recording r start sys := by
  refine ⟨tracks, pending, ?_, ?_, once⟩
  · intro signal s rest next
    exact absurd next (written signal s rest)
  · rintro (watching | ⟨signal, s, rest, next⟩)
    · exact absurd watching late
    · exact absurd next (written signal s rest)

theorem Pending.cancelling (signal : Signal) : Pending .stopping [.cancel] := by
  have none' : Pending .stopping (([] : List ExitRecord.Step).map (.write signal) ++ [.cancel]) :=
    .shutdown .nil
  exact none'

/-- When a write is next, the rest of the writing and the cancellation come after it. -/
theorem Pending.of_write {stage : Stage} {signal : Signal} {s : ExitRecord.Step}
    {deeds rest : List Deed} (pending : Pending stage deeds)
    (next : deeds = .write signal s :: rest) :
    stage = .stopping ∧ ∃ steps, rest = steps.map (.write signal) ++ [.cancel] ∧
      Ordered (s :: steps) := by
  cases pending with
  | idle => cases next
  | exit => cases next
  | shutdown ordered =>
      rename_i other steps
      cases steps with
      | nil => cases next
      | cons first steps =>
          obtain ⟨head, rfl⟩ := List.cons.inj next
          obtain ⟨rfl, rfl⟩ := Deed.write.inj head
          exact ⟨rfl, steps, rfl, ordered⟩

/-- After a deed that writes nothing there is nothing left to do. -/
theorem Pending.of_last {stage : Stage} {deed : Deed} {deeds rest : List Deed}
    (pending : Pending stage deeds) (next : deeds = deed :: rest)
    (last : deed = .cancel ∨ deed = .exit) : rest = [] ∧ stage ≠ .watching := by
  cases pending with
  | idle => cases next
  | exit =>
      obtain ⟨-, rfl⟩ := List.cons.inj next
      exact ⟨rfl, by simp⟩
  | shutdown ordered =>
      rename_i signal steps
      cases steps with
      | nil =>
          obtain ⟨-, rfl⟩ := List.cons.inj next
          exact ⟨rfl, by simp⟩
      | cons s steps =>
          obtain ⟨rfl, -⟩ := List.cons.inj next
          rcases last with h | h <;> cases h

/-- A log keeps to one recorded signal unless it grows by a second one. -/
theorem RecordedOnce.cons {log : List Happening} {x : Happening} (once : RecordedOnce log)
    (first : ∀ signal, x = .changed (.recorded signal) →
      ∀ other, .changed (.recorded other) ∉ log) : RecordedOnce (x :: log) := by
  intro later signal earlier split other
  cases later with
  | nil => exact List.not_mem_nil
  | cons y later =>
      obtain ⟨rfl, rfl⟩ := List.cons.inj split
      intro mem
      rcases List.mem_cons.1 mem with here | deeper
      · have old : Happening.changed (.recorded signal) ∈
            later ++ .changed (.recorded signal) :: earlier := by simp
        exact first other here.symm signal old
      · exact once later signal earlier rfl other deeper

/-- A move that leaves the record, its temporary file and the signal task alone. -/
theorem Recording.frame {r : ExitRecord} {start : FileSystem} {sys next : System}
    (rec : Recording r start sys)
    (record : next.moment.files.named? r.path = sys.moment.files.named? r.path)
    (temporary : next.moment.files.named? r.temporary = sys.moment.files.named? r.temporary)
    (stage : next.stage = sys.stage) (deeds : next.deeds = sys.deeds)
    (log : next.log = sys.log ∨ ∃ x, (∀ change, x ≠ .changed change) ∧ next.log = x :: sys.log) :
    Recording r start next := by
  have last : lastChange next.log = lastChange sys.log := by
    rcases log with same | ⟨x, quiet, more⟩
    · rw [same]
    · rw [more, lastChange_cons_of_ne quiet]
  have recorded : ∀ signal, .changed (.recorded signal) ∈ next.log →
      .changed (.recorded signal) ∈ sys.log := by
    intro signal mem
    rcases log with same | ⟨x, quiet, more⟩
    · exact same ▸ mem
    · rw [more] at mem
      exact (List.mem_cons.1 mem).resolve_left fun h => quiet _ h.symm
  refine ⟨?_, ?_, ?_, ?_, ?_⟩
  · rw [last]
    exact rec.tracks.of_named?_eq record temporary
  · rw [stage, deeds]
    exact rec.pending
  · intro signal s rest first
    exact (rec.prepared signal s rest (deeds ▸ first)).of_named?_eq temporary
  · rw [stage, deeds]
    intro fresh signal mem
    exact rec.unrecorded fresh signal (recorded signal mem)
  · rcases log with same | ⟨x, quiet, more⟩
    · rw [same]
      exact rec.once
    · rw [more]
      exact rec.once.cons fun signal h => absurd h (quiet _)

theorem tracks_afterBroken {r : ExitRecord} {start fs : FileSystem} {last : Option Change}
    {word written : Bytes} {s : ExitRecord.Step} (tracks : r.Tracks start last fs)
    (prepared : r.Prepared fs word s) : r.Tracks start last (afterBroken r written fs s) := by
  have kept (t : ExitRecord.Step) (early : t ≠ .move) (ready : r.Prepared fs written t) :
      r.Tracks start last (filesOr fs (r.step written fs t)) := by
    cases done : r.step written fs t with
    | error fault => exact tracks
    | ok next => exact tracks.step ready early done
  cases s with
  | create => exact kept .create (by simp) trivial
  | fill => exact kept .fill (by simp) prepared
  | store => exact tracks
  | move => exact tracks

theorem Recording.givesUp {r : ExitRecord} {start : FileSystem} {sys : System}
    {signal : Signal} {s : ExitRecord.Step} {rest : List Deed} {files : FileSystem}
    (rec : Recording r start sys) (pending : sys.deeds = .write signal s :: rest)
    (tracks : r.Tracks start (lastChange sys.log) files) :
    Recording r start ({ sys with deeds := giveUp rest }.withFiles files) := by
  obtain ⟨stage, steps, rfl, -⟩ := rec.pending.of_write pending
  rw [giveUp_writes]
  refine .of_written tracks ?_ ?_ (by simp [System.withFiles]) rec.once
  · exact stage ▸ .cancelling signal
  · simp [System.withFiles, stage]

theorem Recording.wrote {r : ExitRecord} {start : FileSystem} {sys : System} {signal : Signal}
    {s : ExitRecord.Step} {rest : List Deed} {files : FileSystem} (rec : Recording r start sys)
    (pending : sys.deeds = .write signal s :: rest) (early : s ≠ .move)
    (done : r.step (Bytes.ofString signal.name) sys.moment.files s = .ok files) :
    Recording r start ({ sys with deeds := rest }.withFiles files) := by
  have ready := rec.prepared signal s rest pending
  have fresh : ∀ other, .changed (.recorded other) ∉ sys.log :=
    rec.unrecorded (Or.inr ⟨signal, s, rest, pending⟩)
  obtain ⟨stage, steps, rfl, ordered⟩ := rec.pending.of_write pending
  refine ⟨rec.tracks.step ready early done, ?_, ?_, fun _ => fresh, rec.once⟩
  · have left : Pending .stopping (steps.map (.write signal) ++ [.cancel]) :=
      .shutdown ordered.tail
    exact stage ▸ left
  · intro other t more first
    cases steps with
    | nil => cases first
    | cons u steps =>
        obtain ⟨head, -⟩ := List.cons.inj first
        obtain ⟨rfl, rfl⟩ := Deed.write.inj head
        exact ready.next rec.tracks.readable ordered.next?_eq done

/-- The move records the signal, once and for all in this run. -/
theorem Recording.recorded {r : ExitRecord} {start : FileSystem} {sys : System}
    {signal : Signal} {rest : List Deed} {files : FileSystem} (rec : Recording r start sys)
    (pending : sys.deeds = .write signal .move :: rest)
    (done : r.step (Bytes.ofString signal.name) sys.moment.files .move = .ok files) :
    Recording r start
      (({ sys with deeds := rest }.withFiles files).tell (.changed (.recorded signal))) := by
  have ready := rec.prepared signal .move rest pending
  have fresh : ∀ other, .changed (.recorded other) ∉ sys.log :=
    rec.unrecorded (Or.inr ⟨signal, .move, rest, pending⟩)
  obtain ⟨stage, steps, rfl, ordered⟩ := rec.pending.of_write pending
  have nothing : steps = [] := by
    cases steps with
    | nil => rfl
    | cons t more => cases ordered.next?_eq
  subst nothing
  have once : RecordedOnce (.changed (.recorded signal) :: sys.log) :=
    rec.once.cons fun _ _ => fresh
  refine .of_written (rec.tracks.move ready done) ?_ ?_
    (by simp [System.withFiles, System.tell]) once
  · exact stage ▸ .cancelling signal
  · simp [System.withFiles, System.tell, stage]

/-- The signal task takes a signal: the first one is to be recorded, a second one ends the run. -/
theorem Recording.took {r : ExitRecord} {start : FileSystem} {sys : System}
    (rec : Recording r start sys) (signal : Signal) :
    Recording r start { sys with
      stage := (sys.stage.take signal).1
      deeds := (sys.stage.take signal).2.flatMap deedsOf } := by
  cases stage : sys.stage with
  | watching =>
      refine ⟨rec.tracks, .shutdown ExitRecord.ordered_all, ?_, ?_, rec.once⟩
      · intro other t more first
        cases first
        trivial
      · intro _
        exact rec.unrecorded (Or.inl stage)
  | stopping =>
      exact .of_written rec.tracks .exit (by simp [Stage.take]) (by simp [Stage.take, deedsOf])
        rec.once
  | _ => exact .of_written rec.tracks .idle (by simp [Stage.take]) (by simp [Stage.take]) rec.once

/-- The rest of the deeds after one that writes nothing. -/
theorem Recording.passed {r : ExitRecord} {start : FileSystem} {sys next : System}
    {deed : Deed} {rest : List Deed} (rec : Recording r start sys)
    (pending : sys.deeds = deed :: rest) (idle : deed = .cancel ∨ deed = .exit)
    (files : next.moment.files = sys.moment.files) (stage : next.stage = sys.stage)
    (deeds : next.deeds = rest) (log : next.log = sys.log) : Recording r start next := by
  obtain ⟨rfl, late⟩ := rec.pending.of_last pending idle
  refine .of_written ?_ ?_ (stage ▸ late) (by simp [deeds]) (log ▸ rec.once)
  · rw [files, log]
    exact rec.tracks
  · rw [deeds]
    exact .idle

theorem Recording.keeps {h : Handshake} {start : FileSystem} {sys next : System}
    (does : Does h sys next) (rec : Recording h.record start sys) :
    Recording h.record start next := by
  cases does with
  | meanwhile d b =>
      exact rec.frame (b.record _) (b.temporary _) rfl rfl (Or.inl rfl)
  | cancels => exact rec.frame rfl rfl rfl rfl (Or.inl rfl)
  | takes signal idle => exact rec.took signal
  | writes pending early done => exact rec.wrote pending early done
  | records pending done => exact rec.recorded pending done
  | fails pending => exact rec.givesUp pending rec.tracks
  | breaks written pending =>
      exact rec.givesUp pending (tracks_afterBroken rec.tracks (rec.prepared _ _ _ pending))
  | cancelled pending => exact rec.passed pending (Or.inl rfl) rfl rfl rfl rfl
  | exits pending => exact rec.passed pending (Or.inr rfl) rfl rfl rfl rfl
  | goes position early plain => exact rec.frame rfl rfl rfl rfl (Or.inl rfl)
  | asks early => exact rec.frame rfl rfl rfl rfl (Or.inr ⟨_, by simp, rfl⟩)
  | chooses early => exact rec.frame rfl rfl rfl rfl (Or.inr ⟨_, by simp, rfl⟩)
  | triggers chosen => exact rec.frame rfl rfl rfl rfl (Or.inr ⟨_, by simp, rfl⟩)
  | looks looking free => exact rec.frame rfl rfl rfl rfl (Or.inl rfl)
  | hears listening => exact rec.frame rfl rfl rfl rfl (Or.inl rfl)
  | removes clearing done =>
      have gone : (h.record.discard sys.moment.files).2 = .ok () := by
        simp [ExitRecord.discard, done]
      refine ⟨rec.tracks.removed gone, rec.pending, ?_, ?_, rec.once.cons (by simp)⟩
      · intro signal s rest first
        have same := (ExitRecord.discard_eq_ok gone).2
        exact (rec.prepared signal s rest first).of_named?_eq same
      · intro fresh signal mem
        rcases List.mem_cons.1 mem with here | deeper
        · cases here
        · exact rec.unrecorded fresh signal deeper

end StoreWarden.Interleaving
