import Mathlib.Data.List.Chain
import StoreWarden.Proofs.LastPart
import StoreWarden.Proofs.NamedNode

/-!
# Changes of the exit record

Only two things change the record: the move at the end of writing it, and its removal.  All other
steps of writing change the temporary file, which never shares the record's place.

`Tracks` says what the record is after the last change, and each operation has one lemma that
says what it makes of that.  How thoroughly the next run validates follows from the last change
alone.
-/

set_option autoImplicit false

namespace StoreWarden

open Os (FileSystem Fault)

namespace ExitRecord

/-- The record can be read and holds exactly the name of a signal. -/
def Holds (r : ExitRecord) (fs : FileSystem) (signal : Signal) : Prop :=
  fs.read r.path = .ok (Bytes.ofString signal.name)

/-- The record's path names nothing. -/
def Absent (r : ExitRecord) (fs : FileSystem) : Prop := fs.named? r.path = none

/-- A temporary file that is there can be read by its owner. -/
def TemporaryReadable (r : ExitRecord) (fs : FileSystem) : Prop :=
  ∀ content mode, fs.named? r.temporary = some (.file content mode) → mode &&& 0o400 ≠ 0

/-- The temporary file holds exactly `content`. -/
def Drafted (r : ExitRecord) (fs : FileSystem) (content : Bytes) : Prop :=
  ∃ mode, fs.named? r.temporary = some (.file content mode)

/-- A change of the record that took effect. -/
inductive Change where
  | recorded (signal : Signal)
  | removed
deriving DecidableEq, Repr

/-- The record as the last change since `origin` has left it. -/
def Shows (r : ExitRecord) (origin fs : FileSystem) : Option Change → Prop
  | none => fs.named? r.path = origin.named? r.path
  | some (.recorded signal) => r.Holds fs signal
  | some .removed => r.Absent fs

/-- The files after changes of the record since `origin`, of which `last` is the last one. -/
structure Tracks (r : ExitRecord) (origin : FileSystem) (last : Option Change)
    (fs : FileSystem) : Prop where
  shows : r.Shows origin fs last
  readable : r.TemporaryReadable fs

theorem Tracks.start {r : ExitRecord} {origin : FileSystem}
    (readable : r.TemporaryReadable origin) : r.Tracks origin none origin :=
  ⟨rfl, readable⟩

/-! ## What the record says, by what its path names -/

theorem holds_iff {r : ExitRecord} {fs : FileSystem} {signal : Signal} :
    r.Holds fs signal ↔ ∃ mode, fs.named? r.path =
      some (.file (Bytes.ofString signal.name) mode) ∧ mode &&& 0o400 ≠ 0 :=
  FileSystem.read_eq_ok_iff

theorem Holds.of_named?_eq {r : ExitRecord} {fs next : FileSystem} {signal : Signal}
    (holds : r.Holds fs signal) (same : next.named? r.path = fs.named? r.path) :
    r.Holds next signal := by
  rw [holds_iff, same]
  exact holds_iff.1 holds

theorem Holds.not_absent {r : ExitRecord} {fs : FileSystem} {signal : Signal}
    (holds : r.Holds fs signal) : ¬ r.Absent fs := by
  intro absent
  obtain ⟨mode, named, -⟩ := holds_iff.1 holds
  exact absurd (absent.symm.trans named) (by simp)

theorem Shows.of_named?_eq {r : ExitRecord} {origin fs next : FileSystem} {last : Option Change}
    (shows : r.Shows origin fs last) (same : next.named? r.path = fs.named? r.path) :
    r.Shows origin next last := by
  match last, shows with
  | none, shows => exact same.trans shows
  | some (.recorded _), shows => exact Holds.of_named?_eq shows same
  | some .removed, shows => exact same.trans shows

theorem readText_eq (fs : FileSystem) (p : Path) :
    (fs.readText p).toOption = (fs.read p).toOption.bind Text.Utf8.decode? := by
  unfold FileSystem.readText
  cases fs.read p with
  | error fault => rfl
  | ok content =>
      cases h : Text.Utf8.decode? content <;> simp [h, Except.toOption]

theorem read_toOption_eq (fs : FileSystem) (p : Path) :
    (fs.read p).toOption = (fs.named? p).bind fun node =>
      if node.mode &&& 0o400 = 0 then none else node.content? := by
  simp only [FileSystem.read, FileSystem.named?]
  cases fs.find p with
  | error fault => rfl
  | ok found =>
      obtain ⟨loc, node⟩ := found
      cases node with
      | directory => simp [Except.toOption, Os.Node.mode, Os.Node.content?]
      | file content mode =>
          by_cases denied : mode &&& 0o400 = 0 <;>
            simp [Except.toOption, Os.Node.mode, Os.Node.content?, denied]

/-- The depth hangs on the bytes that can be read, and on nothing else. -/
theorem depth_eq (r : ExitRecord) (fs : FileSystem) :
    r.depth fs =
      match (fs.read r.path).toOption.bind Text.Utf8.decode? with
      | some text =>
        if Signal.all.any (·.name = String.ofList (Text.trim text)) then .sanity else .full
      | none => .full := by
  rw [← readText_eq]
  unfold depth read
  cases fs.readText r.path with
  | ok text => rfl
  | error fault => by_cases h : fault.isNotFound <;> simp [h, Except.toOption]

theorem depth_of_named?_eq {r : ExitRecord} {fs other : FileSystem}
    (same : fs.named? r.path = other.named? r.path) : r.depth fs = r.depth other := by
  rw [depth_eq, depth_eq, read_toOption_eq, read_toOption_eq, same]

theorem Holds.depth_eq {r : ExitRecord} {fs : FileSystem} {signal : Signal}
    (holds : r.Holds fs signal) : r.depth fs = .sanity := by
  rw [ExitRecord.depth_eq, holds]
  cases signal <;> decide

theorem Absent.depth_eq {r : ExitRecord} {fs : FileSystem} (absent : r.Absent fs) :
    r.depth fs = .full := by
  rw [ExitRecord.depth_eq, read_toOption_eq, absent]
  rfl

/-- The depth that the record calls for after changes since `origin`. -/
def depthAfter (r : ExitRecord) (origin : FileSystem) : Option Change → Sidecar.Depth
  | none => r.depth origin
  | some (.recorded _) => .sanity
  | some .removed => .full

theorem Tracks.depth_eq {r : ExitRecord} {origin fs : FileSystem} {last : Option Change}
    (tracks : r.Tracks origin last fs) : r.depth fs = r.depthAfter origin last := by
  match last, tracks.shows with
  | none, shows => exact depth_of_named?_eq shows
  | some (.recorded _), shows => exact Holds.depth_eq shows
  | some .removed, shows => exact Absent.depth_eq shows

/-! ## The record and its temporary file are apart -/

theorem place?_eq_some {fs : FileSystem} {p : Path} {loc : Os.Location}
    (h : fs.place? p = some loc) :
    ∃ dir part, loc = dir ++ [part] ∧ p.parts.getLast? = some part ∧ part ≠ Path.dot ∧
      part ≠ Path.dotDot := by
  unfold FileSystem.place? at h
  split at h
  · rename_i dir part slash reached
    exact ⟨dir, part, (Option.some.inj h).symm, FileSystem.last_of_reach_name reached⟩
  · cases h

theorem place?_temporary_ne {r : ExitRecord} {fs : FileSystem} {loc : Os.Location}
    (h : fs.place? r.path = some loc) : fs.place? r.temporary ≠ some loc := by
  intro h'
  obtain ⟨dir, part, rfl, last, hdot, hdots⟩ := place?_eq_some h
  obtain ⟨dir', part', same, last', -, -⟩ := place?_eq_some h'
  have parts : part = part' := (List.append_inj' same rfl).2 |> List.cons.inj |>.1
  have longer : part' = part ++ temporaryEnding :=
    Option.some.inj (last'.symm.trans (getLast?_parts_temporary last hdot hdots))
  have nonempty : temporaryEnding ≠ [] := by decide
  exact nonempty (List.self_eq_append_right.1 (parts.trans longer))

theorem place?_path_ne {r : ExitRecord} {fs : FileSystem} {loc : Os.Location}
    (h : fs.place? r.temporary = some loc) : fs.place? r.path ≠ some loc :=
  fun h' => place?_temporary_ne h' h

/-! ## The steps of writing -/

/-- The temporary file is made anew and empty, or is emptied and keeps its bits. -/
theorem put_of_create {r : ExitRecord} {word : Bytes} {fs next : FileSystem}
    (h : r.step word fs .create = .ok next) :
    ∃ loc bits, fs.Fits r.temporary loc ∧ fs.node? loc ≠ some .directory ∧
      next = fs.put loc (.file [] bits) ∧
      (bits = Os.defaultMode ∨ ∃ content, fs.named? r.temporary = some (.file content bits)) := by
  simp only [step] at h
  cases created : fs.create r.temporary Os.defaultMode with
  | error fault => simp [created, Except.map] at h
  | ok found =>
      obtain ⟨loc, made⟩ := found
      simp only [created, Except.map, Except.ok.injEq] at h
      subst h
      obtain ⟨bits, fits, free, rfl, kept⟩ := FileSystem.create_eq_ok created
      exact ⟨loc, bits, fits, free, rfl, kept⟩

theorem put_of_fill {r : ExitRecord} {word draft : Bytes} {fs next : FileSystem} {bits : Nat}
    (h : r.step word fs .fill = .ok next)
    (named : fs.named? r.temporary = some (.file draft bits)) :
    ∃ loc, fs.Fits r.temporary loc ∧ fs.node? loc ≠ some .directory ∧
      next = fs.put loc (.file (draft ++ word) bits) := by
  obtain ⟨loc, found, fits, there⟩ := FileSystem.find_eq_ok_of_named? named
  have free : fs.node? loc ≠ some .directory := by simp [there]
  simp only [step, found, Except.map, FileSystem.append, there, Except.ok.injEq] at h
  exact ⟨loc, fits, free, h.symm⟩

theorem drafted_create {r : ExitRecord} {word : Bytes} {fs next : FileSystem}
    (h : r.step word fs .create = .ok next) : r.Drafted next [] := by
  obtain ⟨loc, bits, fits, free, rfl, -⟩ := put_of_create h
  exact ⟨bits, FileSystem.named?_put_file_self fits free [] bits⟩

theorem drafted_fill {r : ExitRecord} {word draft : Bytes} {fs next : FileSystem}
    (h : r.step word fs .fill = .ok next) (drafted : r.Drafted fs draft) :
    r.Drafted next (draft ++ word) := by
  obtain ⟨bits, named⟩ := drafted
  obtain ⟨loc, fits, free, rfl⟩ := put_of_fill h named
  exact ⟨bits, FileSystem.named?_put_file_self fits free (draft ++ word) bits⟩

theorem step_create {r : ExitRecord} {word : Bytes} {fs next : FileSystem}
    (h : r.step word fs .create = .ok next) (readable : r.TemporaryReadable fs) :
    next.named? r.path = fs.named? r.path ∧ r.Drafted next [] ∧ r.TemporaryReadable next := by
  refine ⟨?_, drafted_create h, ?_⟩
  · obtain ⟨loc, bits, fits, free, rfl, -⟩ := put_of_create h
    exact FileSystem.named?_put_file_of_ne fits.ne_nil free (place?_path_ne fits.place?_eq) _ _
  · obtain ⟨loc, bits, fits, free, rfl, kept⟩ := put_of_create h
    intro content mode there
    rw [FileSystem.named?_put_file_self fits free [] bits] at there
    obtain ⟨-, rfl⟩ := Os.Node.file.inj (Option.some.inj there)
    rcases kept with rfl | ⟨old, before⟩
    · decide
    · exact readable old bits before

theorem step_fill {r : ExitRecord} {word draft : Bytes} {fs next : FileSystem}
    (h : r.step word fs .fill = .ok next) (drafted : r.Drafted fs draft)
    (readable : r.TemporaryReadable fs) :
    next.named? r.path = fs.named? r.path ∧ r.Drafted next (draft ++ word) ∧
      r.TemporaryReadable next := by
  obtain ⟨bits, named⟩ := id drafted
  obtain ⟨loc, fits, free, same⟩ := put_of_fill h named
  refine ⟨?_, drafted_fill h drafted, ?_⟩
  · rw [same]
    exact FileSystem.named?_put_file_of_ne fits.ne_nil free (place?_path_ne fits.place?_eq) _ _
  · intro content mode there
    rw [same, FileSystem.named?_put_file_self fits free (draft ++ word) bits] at there
    obtain ⟨-, rfl⟩ := Os.Node.file.inj (Option.some.inj there)
    exact readable draft bits named

/-- The move puts the temporary file, as it is, in the record's place. -/
theorem step_move {r : ExitRecord} {word draft : Bytes} {fs next : FileSystem} {bits : Nat}
    (h : r.step word fs .move = .ok next)
    (named : fs.named? r.temporary = some (.file draft bits)) :
    next.named? r.path = some (.file draft bits) ∧ next.named? r.temporary = none := by
  obtain ⟨old, new, fitsOld, there, fitsNew, free, rfl⟩ :=
    FileSystem.rename_file_eq_ok named h
  have apart : new ≠ old := by
    rintro rfl
    exact place?_temporary_ne fitsNew.place?_eq fitsOld.place?_eq
  have freeOld : fs.node? old ≠ some .directory := by simp [there]
  have same := FileSystem.sameDirs_erase fitsOld.ne_nil freeOld
  have freeNew : (fs.erase old).node? new ≠ some .directory := by
    rwa [FileSystem.node?_erase_of_ne fs apart]
  have fitsNew' := same.fits_iff.2 fitsNew
  refine ⟨FileSystem.named?_put_file_self fitsNew' freeNew draft bits, ?_⟩
  rw [FileSystem.named?_put_file_of_ne fitsNew.ne_nil freeNew
    (place?_temporary_ne fitsNew'.place?_eq)]
  exact FileSystem.named?_erase_self fitsOld freeOld

/-- What the temporary file holds when a step of writing `word` comes. -/
def Prepared (r : ExitRecord) (fs : FileSystem) (word : Bytes) : Step → Prop
  | .create => True
  | .fill => r.Drafted fs []
  | .store => r.Drafted fs word
  | .move => r.Drafted fs word

theorem Prepared.of_named?_eq {r : ExitRecord} {fs next : FileSystem} {word : Bytes}
    {s : Step} (prepared : r.Prepared fs word s)
    (same : next.named? r.temporary = fs.named? r.temporary) : r.Prepared next word s := by
  cases s with
  | create => trivial
  | fill => exact prepared.imp fun mode named => same.trans named
  | store => exact prepared.imp fun mode named => same.trans named
  | move => exact prepared.imp fun mode named => same.trans named

/-- A step before the move leaves the record alone. -/
theorem Tracks.step {r : ExitRecord} {origin fs next : FileSystem} {last : Option Change}
    {word : Bytes} {s : Step} (tracks : r.Tracks origin last fs)
    (prepared : r.Prepared fs word s) (early : s ≠ .move)
    (h : r.step word fs s = .ok next) : r.Tracks origin last next := by
  cases s with
  | create =>
      obtain ⟨same, -, readable⟩ := step_create h tracks.readable
      exact ⟨tracks.shows.of_named?_eq same, readable⟩
  | fill =>
      obtain ⟨same, -, readable⟩ := step_fill h prepared tracks.readable
      exact ⟨tracks.shows.of_named?_eq same, readable⟩
  | store => exact Except.ok.inj h ▸ tracks
  | move => exact absurd rfl early

theorem Tracks.move {r : ExitRecord} {origin fs next : FileSystem} {last : Option Change}
    {signal : Signal} (tracks : r.Tracks origin last fs)
    (prepared : r.Prepared fs (Bytes.ofString signal.name) .move)
    (h : r.step (Bytes.ofString signal.name) fs .move = .ok next) :
    r.Tracks origin (some (.recorded signal)) next := by
  obtain ⟨bits, named⟩ := prepared
  obtain ⟨moved, gone⟩ := step_move h named
  refine ⟨holds_iff.2 ⟨bits, moved, tracks.readable _ bits named⟩, ?_⟩
  intro content mode there
  exact absurd (gone.symm.trans there) (by simp)

/-- The step that comes after a step. -/
def Step.next? : Step → Option Step
  | .create => some .fill
  | .fill => some .store
  | .store => some .move
  | .move => none

theorem Prepared.next {r : ExitRecord} {fs next : FileSystem} {word : Bytes} {s t : Step}
    (prepared : r.Prepared fs word s) (readable : r.TemporaryReadable fs)
    (comes : s.next? = some t) (h : r.step word fs s = .ok next) : r.Prepared next word t := by
  cases s with
  | create =>
      obtain rfl := Option.some.inj comes
      exact (step_create h readable).2.1
  | fill =>
      obtain rfl := Option.some.inj comes
      exact (step_fill h prepared readable).2.1
  | store =>
      obtain rfl := Option.some.inj comes
      exact Except.ok.inj h ▸ prepared
  | move => cases comes

/-- Steps in the order in which they come in writing. -/
def Ordered (steps : List Step) : Prop := steps.IsChain fun s t => s.next? = some t

theorem Ordered.next?_eq {s t : Step} {rest : List Step} (ordered : Ordered (s :: t :: rest)) :
    s.next? = some t :=
  (List.isChain_cons_cons.1 ordered).1

theorem Ordered.tail {s : Step} {rest : List Step} (ordered : Ordered (s :: rest)) :
    Ordered rest :=
  List.isChain_of_isChain_cons ordered

theorem follow_of_ok {r : ExitRecord} {word : Bytes} {fs next : FileSystem} {s : Step}
    (h : r.step word fs s = .ok next) (rest : List Step) :
    r.follow word (s :: rest) fs = r.follow word rest next := by
  simp only [ExitRecord.follow, h]

theorem follow_of_error {r : ExitRecord} {word : Bytes} {fs : FileSystem} {fault : Fault}
    {s : Step} (h : r.step word fs s = .error fault) (rest : List Step) :
    r.follow word (s :: rest) fs = (fs, some fault) := by
  simp only [ExitRecord.follow, h]

theorem step_of_follow {r : ExitRecord} {word : Bytes} {fs last : FileSystem} {s : Step}
    {rest : List Step} (h : r.follow word (s :: rest) fs = (last, none)) :
    ∃ next, r.step word fs s = .ok next ∧ r.follow word rest next = (last, none) := by
  cases done : r.step word fs s with
  | error fault =>
      rw [follow_of_error done] at h
      cases h
  | ok next =>
      rw [follow_of_ok done] at h
      exact ⟨next, rfl, h⟩

/-- Following steps changes the record only if they come to the move and all of them succeed. -/
theorem Tracks.follow {r : ExitRecord} {origin : FileSystem} {last : Option Change}
    (word : Bytes) (signal : Signal) {steps : List Step} (ordered : Ordered steps)
    (named : .move ∈ steps → word = Bytes.ofString signal.name) :
    ∀ {fs : FileSystem}, r.Tracks origin last fs →
      (∀ s ∈ steps.head?, r.Prepared fs word s) →
      r.Tracks origin
        (if .move ∈ steps ∧ (r.follow word steps fs).2.isNone then some (.recorded signal)
          else last)
        (r.follow word steps fs).1 := by
  induction steps with
  | nil => intro fs tracks _; exact tracks
  | cons s rest ih =>
      intro fs tracks prepared
      have ready : r.Prepared fs word s := prepared s rfl
      cases h : r.step word fs s with
      | error fault => simpa [follow_of_error h] using tracks
      | ok next =>
          rw [follow_of_ok h]
          by_cases last : s = .move
          · subst last
            have ended : rest = [] := by
              cases rest with
              | nil => rfl
              | cons t later => cases ordered.next?_eq
            have same := named List.mem_cons_self
            subst ended same
            simpa [ExitRecord.follow] using tracks.move ready h
          · have later : Step.move ∈ s :: rest ↔ Step.move ∈ rest := by
              simp [Ne.symm last]
            simp only [later]
            refine ih ordered.tail (fun h => named (later.2 h)) (tracks.step ready last h) ?_
            intro t first
            obtain ⟨more, rfl⟩ : ∃ more, rest = t :: more := List.head?_eq_some_iff.1 first
            exact ready.next tracks.readable ordered.next?_eq h

/-! ## Removing -/

theorem discard_eq_ok {r : ExitRecord} {fs : FileSystem} (h : (r.discard fs).2 = .ok ()) :
    r.Absent (r.discard fs).1 ∧
      (r.discard fs).1.named? r.temporary = fs.named? r.temporary := by
  unfold discard at h ⊢
  cases removed : fs.remove r.path with
  | ok next =>
      obtain ⟨loc, content, mode, fits, there, rfl⟩ := FileSystem.remove_eq_ok removed
      have free : fs.node? loc ≠ some .directory := by simp [there]
      exact ⟨FileSystem.named?_erase_self fits free,
        FileSystem.named?_erase_of_ne fits.ne_nil free (place?_temporary_ne fits.place?_eq)⟩
  | error fault =>
      cases notFound : fault.isNotFound with
      | false => simp [removed, notFound] at h
      | true =>
          simp only [removed, notFound, if_true, and_true] at h ⊢
          exact FileSystem.named?_of_remove_notFound removed notFound

theorem discard_fst_of_error {r : ExitRecord} {fs : FileSystem} {fault : Fault}
    (h : fs.remove r.path = .error fault) : (r.discard fs).1 = fs := by
  unfold discard
  rw [h]
  cases notFound : fault.isNotFound <;> simp [notFound]

theorem Tracks.removed {r : ExitRecord} {origin fs : FileSystem} {last : Option Change}
    (tracks : r.Tracks origin last fs) (h : (r.discard fs).2 = .ok ()) :
    r.Tracks origin (some .removed) (r.discard fs).1 := by
  obtain ⟨absent, same⟩ := discard_eq_ok h
  refine ⟨absent, ?_⟩
  intro content mode there
  exact tracks.readable content mode (same ▸ there)

theorem Tracks.of_named?_eq {r : ExitRecord} {origin fs next : FileSystem}
    {last : Option Change} (tracks : r.Tracks origin last fs)
    (record : next.named? r.path = fs.named? r.path)
    (temporary : next.named? r.temporary = fs.named? r.temporary) :
    r.Tracks origin last next := by
  refine ⟨tracks.shows.of_named?_eq record, ?_⟩
  intro content mode there
  exact tracks.readable content mode (temporary ▸ there)

end ExitRecord

end StoreWarden
