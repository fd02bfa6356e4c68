import StoreWarden.Proofs.RecordChange

/-!
# The record over many runs

A history is a list of runs that share one record, and a run is a list of events: signals are
recorded, the record is removed or asked for, and files elsewhere change.  Recording may fail by
itself, and it may be broken off before its move by a fault of the machine or the death of the
process, with anything in the temporary file.  A moment in the midst of recording is the end of
the history that breaks it off there.

One event makes of `Tracks` what its change says, so at every moment the last change that took
effect says what the record is and how thoroughly the next run validates.
-/

set_option autoImplicit false

namespace StoreWarden

open Os (FileSystem)

namespace ExitRecord

/-- A change of files by others, who leave the record and its temporary file alone. -/
structure Bystander (r : ExitRecord) where
  change : FileSystem → FileSystem
  record : ∀ fs, (change fs).named? r.path = fs.named? r.path
  temporary : ∀ fs, (change fs).named? r.temporary = fs.named? r.temporary

inductive Event (r : ExitRecord) where
  | capture (signal : Signal)
  /-- Recording a signal is broken off after some steps before the move. -/
  | broken (done : Nat) (written : Bytes)
  | discard
  /-- Removing the record fails for a reason outside the files. -/
  | refused
  | query
  | elsewhere (bystander : Bystander r)

/-- One event: the files after it, and the change of the record that took effect, if any. -/
def Event.run {r : ExitRecord} (fs : FileSystem) : Event r → FileSystem × Option Change
  | .capture signal =>
    match r.capture signal fs with
    | (next, .ok ()) => (next, some (.recorded signal))
    | (next, .error _) => (next, none)
  | .broken done written => ((r.follow written (Step.all.dropLast.take done) fs).1, none)
  | .discard =>
    match fs.remove r.path with
    | .ok _ => ((r.discard fs).1, some .removed)
    | .error _ => ((r.discard fs).1, none)
  | .refused => (fs, none)
  | .query => (fs, none)
  | .elsewhere bystander => (bystander.change fs, none)

/-- Events one after the other: the files after them, and the changes that took effect. -/
def play {r : ExitRecord} : List (Event r) → FileSystem → FileSystem × List Change
  | [], fs => (fs, [])
  | event :: rest, fs =>
    let (next, change) := event.run fs
    let (last, changes) := play rest next
    (last, change.toList ++ changes)

theorem play_append {r : ExitRecord} (events more : List (Event r)) (fs : FileSystem) :
    play (events ++ more) fs =
      ((play more (play events fs).1).1,
        (play events fs).2 ++ (play more (play events fs).1).2) := by
  induction events generalizing fs with
  | nil => rfl
  | cons event rest ih => simp [play, ih]

/-! ## What one event preserves -/

theorem ordered_all : Ordered Step.all := by
  unfold Ordered
  decide

theorem ordered_early (done : Nat) : Ordered (Step.all.dropLast.take done) := by
  have before : Ordered Step.all.dropLast := by
    unfold Ordered
    decide
  exact List.IsChain.take before done

theorem move_notMem_early (done : Nat) : Step.move ∉ Step.all.dropLast.take done := by
  intro mem
  have early := List.mem_of_mem_take mem
  revert early
  decide

/-- Whatever comes first in writing, nothing has to be there for it. -/
theorem prepared_of_head {r : ExitRecord} {fs : FileSystem} {word : Bytes} {steps : List Step}
    (begins : steps.head? = none ∨ steps.head? = some .create) :
    ∀ s ∈ steps.head?, r.Prepared fs word s := by
  intro s first
  rcases begins with none' | create
  · rw [none'] at first
    cases first
  · rw [create] at first
    obtain rfl := Option.some.inj first
    trivial

theorem Tracks.capture {r : ExitRecord} {origin fs : FileSystem} {last : Option Change}
    (tracks : r.Tracks origin last fs) (signal : Signal) :
    r.Tracks origin
      (if (r.capture signal fs).2.isOk then some (.recorded signal) else last)
      (r.capture signal fs).1 := by
  have after := tracks.follow (Bytes.ofString signal.name) signal ordered_all (fun _ => rfl)
    (prepared_of_head (Or.inr rfl))
  have whole : Step.move ∈ Step.all := by decide
  simp only [whole, true_and] at after
  unfold ExitRecord.capture write
  cases followed : r.follow (Bytes.ofString signal.name) Step.all fs with
  | mk next fault =>
      rw [followed] at after
      cases fault with
      | none => exact after
      | some fault => exact after

theorem Tracks.broken {r : ExitRecord} {origin fs : FileSystem} {last : Option Change}
    (tracks : r.Tracks origin last fs) (done : Nat) (written : Bytes) :
    r.Tracks origin last (r.follow written (Step.all.dropLast.take done) fs).1 := by
  have begins : (Step.all.dropLast.take done).head? = none ∨
      (Step.all.dropLast.take done).head? = some .create := by
    cases done with
    | zero => exact Or.inl rfl
    | succ more => exact Or.inr rfl
  have after := tracks.follow written .interrupt (ordered_early done)
    (fun mem => absurd mem (move_notMem_early done)) (prepared_of_head begins)
  simpa only [move_notMem_early done, false_and, if_false] using after

theorem Tracks.event {r : ExitRecord} {origin fs : FileSystem} {last : Option Change}
    (tracks : r.Tracks origin last fs) (event : Event r) :
    r.Tracks origin ((event.run fs).2.or last) (event.run fs).1 := by
  cases event with
  | capture signal =>
      have after := tracks.capture signal
      simp only [Event.run]
      cases done : r.capture signal fs with
      | mk next answer =>
          rw [done] at after
          cases answer with
          | ok _ => exact after
          | error _ => exact after
  | broken done written => exact tracks.broken done written
  | discard =>
      simp only [Event.run]
      cases removed : fs.remove r.path with
      | ok next =>
          have done : (r.discard fs).2 = .ok () := by simp [ExitRecord.discard, removed]
          exact tracks.removed done
      | error fault =>
          simp only [discard_fst_of_error removed]
          exact tracks
  | refused => exact tracks
  | query => exact tracks
  | elsewhere bystander =>
      exact tracks.of_named?_eq (bystander.record fs) (bystander.temporary fs)

/-! ## What a whole history preserves -/

theorem Tracks.events {r : ExitRecord} {origin : FileSystem} (events : List (Event r)) :
    ∀ {last : Option Change} {fs : FileSystem}, r.Tracks origin last fs →
      r.Tracks origin ((play events fs).2.getLast?.or last) (play events fs).1 := by
  induction events with
  | nil => intro last fs tracks; exact tracks
  | cons event rest ih =>
      intro last fs tracks
      have after := ih (tracks.event event)
      have lasts : ((play (event :: rest) fs).2.getLast?.or last) =
          (play rest (event.run fs).1).2.getLast?.or ((event.run fs).2.or last) := by
        simp only [ExitRecord.play, List.getLast?_append, Option.or_assoc]
        cases (event.run fs).2 <;> rfl
      rw [lasts]
      exact after

theorem Tracks.holds_or_absent {r : ExitRecord} {origin fs : FileSystem}
    {last : Option Change} (tracks : r.Tracks origin last fs) (absent : r.Absent origin) :
    r.Absent fs ∨ ∃ signal, r.Holds fs signal := by
  match last, tracks.shows with
  | none, shows => exact Or.inl (shows.trans absent)
  | some (.recorded signal), shows => exact Or.inr ⟨signal, shows⟩
  | some .removed, shows => exact Or.inl shows

theorem Tracks.depth_eq_sanity_iff {r : ExitRecord} {origin fs : FileSystem}
    {last : Option Change} (tracks : r.Tracks origin last fs) (absent : r.Absent origin) :
    r.depth fs = .sanity ↔ ∃ signal, last = some (.recorded signal) := by
  rw [tracks.depth_eq]
  match last with
  | none => simp [depthAfter, absent.depth_eq]
  | some (.recorded signal) => simp [depthAfter]
  | some .removed => simp [depthAfter]

/-- Without a recorded signal among them, events leave a run that has no record without one. -/
theorem play_absent {r : ExitRecord} {fs : FileSystem} (events : List (Event r))
    (absent : r.Absent fs) (readable : r.TemporaryReadable fs)
    (quiet : ∀ signal, .recorded signal ∉ (play events fs).2) :
    r.Absent (play events fs).1 := by
  have tracks := (Tracks.start readable).events events
  match last : (play events fs).2.getLast? with
  | none =>
      rw [last] at tracks
      exact tracks.shows.trans absent
  | some (.recorded signal) => exact absurd (List.mem_of_getLast? last) (quiet signal)
  | some .removed =>
      rw [last] at tracks
      exact tracks.shows

/-- Where there was no record to begin with, nor somebody else's temporary file that cannot be
read, the record is at every moment absent or the name of a signal, and the next validation is a
quick one exactly if the last change that took effect recorded a signal.  So once a run has removed
the record, and no signal has been recorded since, that run and the next one validate in full. -/
theorem depth_eq_sanity_iff_recorded_last (r : ExitRecord) (start : FileSystem)
    (absent : r.Absent start) (readable : r.TemporaryReadable start)
    (history : List (List (Event r))) :
    let now := play history.flatten start
    (r.Absent now.1 ∨ ∃ signal, r.Holds now.1 signal) ∧
      (r.depth now.1 = .sanity ↔ ∃ signal, now.2.getLast? = some (.recorded signal)) ∧
      ∀ before after next : List (Event r),
        let cleared := r.discard (play (history.flatten ++ before) start).1
        cleared.2 = .ok () →
        (∀ signal, .recorded signal ∉ (play (after ++ next) cleared.1).2) →
        r.depth (play (history ++ [before ++ .discard :: after, next]).flatten start).1 =
          .full := by
  have tracks := (Tracks.start readable).events history.flatten
  rw [Option.or_none] at tracks
  refine ⟨tracks.holds_or_absent absent, tracks.depth_eq_sanity_iff absent, ?_⟩
  intro before after next cleared done quiet
  have whole : (play (history ++ [before ++ .discard :: after, next]).flatten start).1 =
      (play (after ++ next) cleared.1).1 := by
    have joined : (history ++ [before ++ .discard :: after, next]).flatten =
        (history.flatten ++ before) ++ (.discard :: (after ++ next)) := by simp
    have removal : (Event.run (play (history.flatten ++ before) start).1
        (.discard : Event r)).1 = cleared.1 := by
      simp only [Event.run]
      cases (play (history.flatten ++ before) start).1.remove r.path <;> rfl
    rw [joined, play_append]
    simp only [play, removal]
  have gone := ((Tracks.start readable).events (history.flatten ++ before)).removed done
  rw [whole]
  exact (play_absent (after ++ next) gone.shows gone.readable quiet).depth_eq

/-- A record in the directory from which relative paths start. -/
def nearby : ExitRecord := ⟨Path.ofString "exit_code"⟩

theorem nearby_absent : nearby.Absent .empty := rfl

theorem nearby_readable : nearby.TemporaryReadable .empty := by
  intro content mode there
  have nothing : FileSystem.empty.named? nearby.temporary = none := rfl
  rw [nothing] at there
  cases there

/-- A run that a signal ends, after it has failed to record another one. -/
def endedBySignal : List (Event nearby) := [.broken 2 [], .capture .terminate]

/-- A run that removes its record, and one that asks for the depth. -/
theorem depth_after_record_and_removal :
    nearby.depth (play [endedBySignal].flatten .empty).1 = .sanity ∧
      nearby.depth (play ([endedBySignal] ++
        [[] ++ Event.discard :: [Event.refused], [Event.query]]).flatten .empty).1 = .full := by
  obtain ⟨-, quick, full⟩ := depth_eq_sanity_iff_recorded_last nearby .empty nearby_absent
    nearby_readable [endedBySignal]
  have recorded : (play [endedBySignal].flatten .empty).2.getLast? =
      some (.recorded .terminate) := rfl
  have removed : (nearby.discard (play ([endedBySignal].flatten ++ []) .empty).1).2 = .ok () :=
    rfl
  constructor
  · exact quick.2 ⟨.terminate, recorded⟩
  · apply full [] [.refused] [.query] removed
    intro signal
    simp [play, Event.run]

end ExitRecord

end StoreWarden
