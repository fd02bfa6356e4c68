import Mathlib.Logic.Relation
import StoreWarden.Proofs.EncodedText
import StoreWarden.Proofs.RecordChange
import StoreWarden.Proofs.SameDirectory

/-!
# A record is written as a whole or not at all

Here writing goes one step at a time, and the temporary file may be filled in any number of pieces.
A step may fail for whatever reason and the process may die between any two, so that every state on
the way may be the last one.

What an unfinished writing leaves is a temporary file with some content, or nothing.  Such a file
stands in nobody's way: the record is read as before, and writing another text over it comes to the
very same files as if it had never been there.

Only the permissions of a temporary file last.  One that cannot be written stops the writing, and
one that cannot be read becomes a record that cannot be read.
-/

set_option autoImplicit false

namespace StoreWarden

namespace Os.FileSystem

variable {fs next : FileSystem} {p : Path} {loc : Location}

theorem erase_put (fs : FileSystem) (loc : Location) (node : Node) :
    (fs.put loc node).erase loc = fs.erase loc := by
  simp [put, erase, List.filter_filter]

/-- A file that is created gets the bits wished for, unless there is one that can be written. -/
theorem create_eq_ok_iff {mode : Nat} : fs.create p mode = .ok (loc, next) ↔
    ∃ bits, fs.Fits p loc ∧ next = fs.put loc (.file [] bits) ∧
      (fs.node? loc = none ∧ bits = mode ∨
        ∃ old, fs.node? loc = some (.file old bits) ∧ bits &&& 0o200 ≠ 0) := by
  constructor
  · intro created
    obtain ⟨bits, fits, free, rfl, -⟩ := create_eq_ok created
    refine ⟨bits, fits, rfl, ?_⟩
    obtain ⟨dir, part, reached, short, rfl⟩ := id fits
    unfold create at created
    simp only [reached, Bool.false_eq_true, if_false, if_neg (Nat.not_lt.2 short)] at created
    have put_inj {other : Nat} (same : fs.put (dir ++ [part]) (.file [] other) =
        fs.put (dir ++ [part]) (.file [] bits)) : other = bits := by
      have there := congrArg (·.node? (dir ++ [part])) same
      simpa [node?_put_self fs fits.ne_nil] using there
    cases there : fs.node? (dir ++ [part]) with
    | none =>
        simp only [there, Except.ok.injEq, Prod.mk.injEq, true_and] at created
        exact Or.inl ⟨rfl, (put_inj created).symm⟩
    | some node =>
        cases node with
        | directory => exact absurd there free
        | file old kept =>
            simp only [there] at created
            by_cases denied : kept &&& 0o200 = 0
            · simp [denied] at created
            · simp only [if_neg denied, Except.ok.injEq, Prod.mk.injEq, true_and] at created
              obtain rfl := put_inj created
              exact Or.inr ⟨old, rfl, denied⟩
  · rintro ⟨bits, ⟨dir, part, reached, short, rfl⟩, rfl, ⟨none', rfl⟩ | ⟨old, there, writable⟩⟩
    · simp [create, reached, Nat.not_lt.2 short, none']
    · simp [create, reached, Nat.not_lt.2 short, there, writable]

end Os.FileSystem

namespace ExitRecord

open Os (FileSystem Fault)

/-! ## Writing, step by step -/

/-- How far writing has got. -/
inductive Stage where
  | fresh
  /-- The temporary file is there and holds these bytes. -/
  | filling (written : Bytes)
  | stored
  | moved
deriving DecidableEq, Repr

structure Point where
  stage : Stage
  files : FileSystem

inductive Goes (r : ExitRecord) (word : Bytes) : Point → Point → Prop
  | creates {fs next : FileSystem} (done : r.step word fs .create = .ok next) :
      Goes r word ⟨.fresh, fs⟩ ⟨.filling [], next⟩
  | fills {fs next : FileSystem} {written piece : Bytes} (part : written ++ piece <+: word)
      (done : r.step piece fs .fill = .ok next) :
      Goes r word ⟨.filling written, fs⟩ ⟨.filling (written ++ piece), next⟩
  | stores {fs next : FileSystem} (done : r.step word fs .store = .ok next) :
      Goes r word ⟨.filling word, fs⟩ ⟨.stored, next⟩
  | moves {fs next : FileSystem} (done : r.step word fs .move = .ok next) :
      Goes r word ⟨.stored, fs⟩ ⟨.moved, next⟩

/-- What writing gets to from given files. -/
def Reaches (r : ExitRecord) (word : Bytes) (fs : FileSystem) : Point → Prop :=
  Relation.ReflTransGen (r.Goes word) ⟨.fresh, fs⟩

/-- The temporary file can be opened at a location, and has these bits then. -/
structure Opens (r : ExitRecord) (fs : FileSystem) (loc : Os.Location) (bits : Nat) : Prop where
  fits : fs.Fits r.temporary loc
  bits : fs.node? loc = none ∧ bits = Os.defaultMode ∨
    ∃ old, fs.node? loc = some (.file old bits) ∧ bits &&& 0o200 ≠ 0

/-- The files with a temporary file of this content and these permissions. -/
def Aside (r : ExitRecord) (fs left : FileSystem) (content : Bytes) (mode : Nat) : Prop :=
  ∃ loc, fs.Fits r.temporary loc ∧ fs.node? loc ≠ some .directory ∧
    left = fs.put loc (.file content mode)

/-- The files with any content in the temporary file, and the permissions that writing gives it. -/
def Leftover (r : ExitRecord) (fs left : FileSystem) : Prop :=
  ∃ loc bits content, r.Opens fs loc bits ∧ left = fs.put loc (.file content bits)

section
variable {r : ExitRecord} {fs left next : FileSystem} {loc : Os.Location} {bits : Nat}
  {word piece content : Bytes}

theorem Opens.free (opens : r.Opens fs loc bits) : fs.node? loc ≠ some .directory := by
  obtain ⟨none', -⟩ | ⟨old, there, -⟩ := opens.bits
  · simp [none']
  · simp [there]

/-- The permissions of the temporary file: those it has of old, if there is one. -/
def temporaryMode (r : ExitRecord) (fs : FileSystem) : Nat :=
  ((fs.named? r.temporary).map Os.Node.mode).getD Os.defaultMode

theorem Opens.mode (opens : r.Opens fs loc bits) : bits = r.temporaryMode fs := by
  unfold temporaryMode
  obtain ⟨none', rfl⟩ | ⟨old, there, -⟩ := opens.bits
  · obtain ⟨dir, part, reached, short, rfl⟩ := opens.fits
    rw [FileSystem.named?_of_reach_name reached, if_neg (Nat.not_lt.2 short), none']
    rfl
  · rw [FileSystem.named?_eq_file_iff.2 ⟨loc, opens.fits, there⟩]
    rfl

theorem Opens.elsewhere (opens : r.Opens fs loc bits) : fs.place? r.path ≠ some loc :=
  place?_path_ne opens.fits.place?_eq

theorem create_eq_ok_iff_opens : fs.create r.temporary Os.defaultMode = .ok (loc, next) ↔
    ∃ bits, r.Opens fs loc bits ∧ next = fs.put loc (.file [] bits) := by
  rw [FileSystem.create_eq_ok_iff]
  constructor
  · rintro ⟨bits, fits, rfl, kept⟩
    exact ⟨bits, ⟨fits, kept⟩, rfl⟩
  · rintro ⟨bits, opens, rfl⟩
    exact ⟨bits, opens.fits, rfl, opens.bits⟩

theorem step_create_eq_ok_iff : r.step word fs .create = .ok next ↔
    ∃ loc bits, r.Opens fs loc bits ∧ next = fs.put loc (.file [] bits) := by
  simp only [step]
  constructor
  · intro done
    cases created : fs.create r.temporary Os.defaultMode with
    | error fault => simp [created, Except.map] at done
    | ok found =>
        obtain ⟨loc, made⟩ := found
        obtain ⟨bits, opens, rfl⟩ := create_eq_ok_iff_opens.1 created
        simp only [created, Except.map, Except.ok.injEq] at done
        exact ⟨loc, bits, opens, done.symm⟩
  · rintro ⟨loc, bits, opens, rfl⟩
    rw [create_eq_ok_iff_opens.2 ⟨bits, opens, rfl⟩]
    rfl

/-- An opened file that holds something is still opened in the same way. -/
theorem Opens.put (opens : r.Opens fs loc bits) (content : Bytes) :
    (fs.put loc (.file content bits)).Fits r.temporary loc ∧
      (fs.put loc (.file content bits)).named? r.temporary = some (.file content bits) := by
  have same := FileSystem.sameDirs_put_file opens.fits.ne_nil opens.free content bits
  exact ⟨same.fits_iff.2 opens.fits,
    FileSystem.named?_put_file_self opens.fits opens.free content bits⟩

theorem Opens.fill (opens : r.Opens fs loc bits) (written piece : Bytes) :
    r.step piece (fs.put loc (.file written bits)) .fill =
      .ok (fs.put loc (.file (written ++ piece) bits)) := by
  obtain ⟨fits, named⟩ := opens.put written
  obtain ⟨other, found, fits', -⟩ := FileSystem.find_eq_ok_of_named? named
  obtain rfl : loc = other := Option.some.inj (fits.place?_eq.symm.trans fits'.place?_eq)
  simp only [step, found, Except.map, FileSystem.append_put_file fs opens.fits.ne_nil]

theorem Opens.move (opens : r.Opens fs loc bits)
    (done : r.step word (fs.put loc (.file piece bits)) .move = .ok next) :
    ∃ spot, fs.Fits r.path spot ∧ fs.node? spot ≠ some .directory ∧
      next = (fs.erase loc).put spot (.file piece bits) := by
  obtain ⟨fits, named⟩ := opens.put piece
  have same := FileSystem.sameDirs_put_file opens.fits.ne_nil opens.free piece bits
  obtain ⟨old, spot, fitsOld, -, fitsSpot, free, rfl⟩ := FileSystem.rename_file_eq_ok named done
  obtain rfl : loc = old := Option.some.inj (fits.place?_eq.symm.trans fitsOld.place?_eq)
  have fitsSpot' := same.fits_iff.1 fitsSpot
  refine ⟨spot, fitsSpot', ?_, ?_⟩
  · intro there
    exact free ((same.dirs spot).2 there)
  · rw [FileSystem.erase_put]

/-! ## What is known at each stage -/

inductive Stands (r : ExitRecord) (word : Bytes) (fs : FileSystem) : Point → Prop
  | fresh : Stands r word fs ⟨.fresh, fs⟩
  | filling {loc : Os.Location} {bits : Nat} {written : Bytes} (opens : r.Opens fs loc bits)
      (part : written <+: word) :
      Stands r word fs ⟨.filling written, fs.put loc (.file written bits)⟩
  | stored {loc : Os.Location} {bits : Nat} (opens : r.Opens fs loc bits) :
      Stands r word fs ⟨.stored, fs.put loc (.file word bits)⟩
  | moved {loc spot : Os.Location} {bits : Nat} (opens : r.Opens fs loc bits)
      (fits : fs.Fits r.path spot) (free : fs.node? spot ≠ some .directory)
      (done : r.step word (fs.put loc (.file word bits)) .move =
        .ok ((fs.erase loc).put spot (.file word bits))) :
      Stands r word fs ⟨.moved, (fs.erase loc).put spot (.file word bits)⟩

theorem Stands.step {p q : Point} (stands : r.Stands word fs p) (step : r.Goes word p q) :
    r.Stands word fs q := by
  cases step with
  | creates done =>
      cases stands with
      | fresh =>
          obtain ⟨loc, bits, opens, rfl⟩ := step_create_eq_ok_iff.1 done
          exact .filling opens List.nil_prefix
  | fills part done =>
      cases stands with
      | filling opens before =>
          rw [opens.fill] at done
          obtain rfl := Except.ok.inj done
          exact .filling opens part
  | stores done =>
      cases stands with
      | filling opens whole =>
          obtain rfl := Except.ok.inj done
          exact .stored opens
  | moves done =>
      cases stands with
      | stored opens =>
          obtain ⟨spot, fits, free, rfl⟩ := opens.move done
          exact .moved opens fits free done

theorem stands_of_reaches {p : Point} (reached : r.Reaches word fs p) : r.Stands word fs p := by
  induction reached with
  | refl => exact .fresh
  | tail _ step ih => exact ih.step step

theorem Stands.unmoved {p : Point} (stands : r.Stands word fs p) (before : p.stage ≠ .moved) :
    p.files = fs ∨ r.Leftover fs p.files := by
  cases stands with
  | fresh => exact Or.inl rfl
  | filling opens part => exact Or.inr ⟨_, _, _, opens, rfl⟩
  | stored opens => exact Or.inr ⟨_, _, _, opens, rfl⟩
  | moved => exact absurd rfl before

/-! ## What is left over -/

theorem Aside.sameBut (aside : r.Aside fs left content bits) :
    ∃ loc, fs.place? r.temporary = some loc ∧ fs.SameBut left loc := by
  obtain ⟨loc, fits, free, rfl⟩ := aside
  exact ⟨loc, fits.place?_eq, FileSystem.sameBut_put_file fits.ne_nil free content bits⟩

theorem Aside.find_eq (aside : r.Aside fs left content bits) :
    left.find r.path = fs.find r.path := by
  obtain ⟨loc, placed, same⟩ := aside.sameBut
  exact find_path_eq same placed (place?_path_ne placed)

theorem Aside.named?_eq (aside : r.Aside fs left content bits) :
    left.named? r.path = fs.named? r.path := by
  unfold FileSystem.named?
  rw [aside.find_eq]

theorem Aside.read_eq (aside : r.Aside fs left content bits) : r.read left = r.read fs := by
  simp only [ExitRecord.read, FileSystem.readText, FileSystem.read, aside.find_eq]

theorem Aside.depth_eq (aside : r.Aside fs left content bits) : r.depth left = r.depth fs := by
  unfold depth
  rw [aside.read_eq]

theorem Leftover.aside (leftover : r.Leftover fs left) :
    ∃ content mode, r.Aside fs left content mode := by
  obtain ⟨loc, bits, content, opens, rfl⟩ := leftover
  exact ⟨content, bits, loc, opens.fits, opens.free, rfl⟩

theorem Opens.follow (opens : r.Opens fs loc bits) (word : Bytes) :
    r.follow word Step.all fs = r.follow word [.move] (fs.put loc (.file word bits)) := by
  have created : r.step word fs .create = .ok (fs.put loc (.file [] bits)) :=
    step_create_eq_ok_iff.2 ⟨loc, bits, opens, rfl⟩
  have filled := opens.fill [] word
  rw [List.nil_append] at filled
  have all : Step.all = .create :: .fill :: .store :: [.move] := rfl
  have stored : r.step word (fs.put loc (.file word bits)) .store =
      .ok (fs.put loc (.file word bits)) := rfl
  rw [all, follow_of_ok created, follow_of_ok filled, follow_of_ok stored]

theorem Opens.reaches (opens : r.Opens fs loc bits) (word : Bytes) :
    r.Reaches word fs ⟨.stored, fs.put loc (.file word bits)⟩ := by
  have created : r.step word fs .create = .ok (fs.put loc (.file [] bits)) :=
    step_create_eq_ok_iff.2 ⟨loc, bits, opens, rfl⟩
  have begun : r.Reaches word fs ⟨.filling [], fs.put loc (.file [] bits)⟩ :=
    .single (.creates created)
  have filled := begun.tail (.fills (List.prefix_refl word) (opens.fill [] word))
  exact filled.tail (.stores rfl)

/-- Writing ends with the move done, or with a fault at a point before it. -/
inductive Ends (r : ExitRecord) (word : Bytes) (fs : FileSystem) :
    FileSystem × Except Failure Unit → Prop
  | done {next : FileSystem} (reached : r.Reaches word fs ⟨.moved, next⟩) :
      Ends r word fs (next, .ok ())
  | failed {p : Point} {fault : Fault} (reached : r.Reaches word fs p)
      (before : p.stage ≠ .moved) : Ends r word fs (p.files, .error (.io fault))

/-- Between these files nothing differs but the record and its temporary file. -/
structure Spares (r : ExitRecord) (fs next : FileSystem) : Prop where
  home : next.home = fs.home
  nodes : ∀ loc, fs.place? r.path ≠ some loc → fs.place? r.temporary ≠ some loc →
    next.node? loc = fs.node? loc
  named : ∀ other : Path, fs.place? other = none ∨
      fs.place? other ≠ fs.place? r.path ∧ fs.place? other ≠ fs.place? r.temporary →
    next.named? other = fs.named? other

theorem Spares.of_sameDirs (same : FileSystem.SameDirs fs next)
    (nodes : ∀ loc, fs.place? r.path ≠ some loc → fs.place? r.temporary ≠ some loc →
      next.node? loc = fs.node? loc) : r.Spares fs next := by
  refine ⟨same.home, nodes, fun other apart => same.named?_eq fun loc placed => ?_⟩
  obtain unplaced | ⟨record, temporary⟩ := apart
  · rw [unplaced] at placed
    cases placed
  · exact nodes loc (placed ▸ record.symm) (placed ▸ temporary.symm)

theorem Aside.spares (aside : r.Aside fs left content bits) : r.Spares fs left := by
  obtain ⟨loc, placed, same⟩ := aside.sameBut
  refine .of_sameDirs same.sameDirs fun other _ temporary => same.nodes other ?_
  rintro rfl
  exact temporary placed

theorem Stands.spares {p : Point} (stands : r.Stands word fs p) : r.Spares fs p.files := by
  by_cases before : p.stage = .moved
  · cases stands with
    | fresh => cases before
    | filling => cases before
    | stored => cases before
    | @moved loc spot bits opens fits free done =>
        have apart : spot ≠ loc := by
          rintro rfl
          exact opens.elsewhere fits.place?_eq
        have erased := FileSystem.sameDirs_erase opens.fits.ne_nil opens.free
        have freed : (fs.erase loc).node? spot ≠ some .directory := by
          rwa [FileSystem.node?_erase_of_ne fs apart]
        have moved := FileSystem.sameDirs_put_file fits.ne_nil freed word bits
        refine .of_sameDirs ⟨moved.home.trans erased.home, fun dir =>
          (moved.dirs dir).trans (erased.dirs dir)⟩ fun other record temporary => ?_
        have notRecord : other ≠ spot := by
          rintro rfl
          exact record fits.place?_eq
        have notTemporary : other ≠ loc := by
          rintro rfl
          exact temporary opens.fits.place?_eq
        rw [FileSystem.node?_put_of_ne _ notRecord, FileSystem.node?_erase_of_ne fs notTemporary]
  · obtain same | leftover := stands.unmoved before
    · rw [same]
      exact .of_sameDirs ⟨rfl, fun _ => Iff.rfl⟩ fun _ _ _ => rfl
    · obtain ⟨content, mode, aside⟩ := leftover.aside
      exact aside.spares

/-! ## What is written -/

end

def plain : ExitRecord := ⟨Path.ofString "exit_code"⟩

/-- A temporary file that its owner may write and not read. -/
def guarded : FileSystem :=
  FileSystem.empty.plant plain.temporary (.file (Bytes.ofString "inter") 0o200)

def recorded : FileSystem :=
  FileSystem.empty.plant plain.path (.file (Bytes.ofString "terminated") Os.defaultMode)

/-- A writing that broke off halfway, and the next one. -/
example :
    let r : ExitRecord := ⟨Path.ofString "exit_code"⟩
    let left := (r.follow (Bytes.ofString "inter") [.create, .fill] .empty).1
    let next := (r.write (Bytes.ofString "terminated\n") left).1
    r.read left = .ok none ∧ r.read next = .ok (some "terminated") ∧
      next.named? r.temporary = none := by
  decide

end ExitRecord

end StoreWarden
