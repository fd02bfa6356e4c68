import StoreWarden.Proofs.FetchedDocument

/-!
# The document is replaced as a whole, or the files are left alone

The file of the document is opened only when a reply has come as a whole, so that everything that
can go wrong before that leaves all files as they were.  Opening it takes away the old content.
What goes wrong from then on leaves a part of the new content at most, and no other file is ever
changed.

`Os.FileSystem` knows no disk that runs full, so that storing a document cannot fail there once the
file is open.  `Client.Stores` allows for such failures too, and `document_allOrNothing` holds for
every way of storing a document that stays within it.
-/

set_option autoImplicit false

namespace StoreWarden

/-! ## Replaced files -/

namespace Os.FileSystem

variable {fs files : FileSystem} {p : Path} {loc : Location} {content : Bytes} {mode : Nat}

/-- A path names a file with this content now, and all else is as it was. -/
structure Replaced (fs files : FileSystem) (p : Path) (content : Bytes) (mode : Nat) : Prop where
  file : files.named? p = some (.file content mode)
  home : files.home = fs.home
  nodes : ∀ loc, fs.place? p ≠ some loc → files.node? loc = fs.node? loc
  names : ∀ other, fs.place? other ≠ fs.place? p → files.named? other = fs.named? other

theorem replaced_put (fits : fs.Fits p loc) (free : fs.node? loc ≠ some .directory)
    (content : Bytes) (mode : Nat) :
    fs.Replaced (fs.put loc (.file content mode)) p content mode := by
  constructor
  case file => exact named?_put_file_self fits free content mode
  case home => rfl
  case nodes =>
    intro other elsewhere
    have apart : other ≠ loc := by
      rintro rfl
      exact elsewhere fits.place?_eq
    exact node?_put_of_ne fs apart _
  case names =>
    intro other elsewhere
    rw [fits.place?_eq] at elsewhere
    exact named?_put_file_of_ne fits.ne_nil free elsewhere content mode

end Os.FileSystem

namespace Sidecar.Client

variable {c : Client} {peer : Http.Peer} {m last : Moment} {body : Bytes}
  {fs files : Os.FileSystem} {path : Path} {failure : Failure} {answer : Except Failure Path}
  {use : Bytes → Os.FileSystem → Os.FileSystem × Except Failure Path}

/-! ## Storing a document -/

/-- What storing a body comes to on a disk that may fail at any time: the files, and the answer. -/
inductive Stores (c : Client) (body : Bytes) (fs : Os.FileSystem) :
    Os.FileSystem → Except Failure Path → Prop
  | unopened {fault : Os.Fault} (closed : fs.create c.document documentMode = .error fault) :
      Stores c body fs fs (.error (.io fault))
  | broken {loc : Os.Location} {opened : Os.FileSystem} {written : Bytes} {fault : Os.Fault}
      (created : fs.create c.document documentMode = .ok (loc, opened)) (part : written <+: body) :
      Stores c body fs (opened.append loc written) (.error (.io fault))
  | whole {loc : Os.Location} {opened : Os.FileSystem}
      (created : fs.create c.document documentMode = .ok (loc, opened)) :
      Stores c body fs ((opened.append loc body).setMode loc documentMode) (.ok c.document)

def Storing (c : Client)
    (use : Bytes → Os.FileSystem → Os.FileSystem × Except Failure Path) : Prop :=
  ∀ body fs, c.Stores body fs (use body fs).1 (use body fs).2

theorem storing_store (c : Client) : c.Storing c.store := by
  intro body fs
  unfold store
  cases created : fs.create c.document documentMode with
  | error fault => exact .unopened created
  | ok found => exact .whole created

theorem Stores.replaced (stores : c.Stores body fs files (.ok path)) :
    path = c.document ∧ fs.Replaced files c.document body documentMode := by
  cases stores with
  | whole created =>
      obtain ⟨bits, fits, free, rfl, -⟩ := Os.FileSystem.create_eq_ok created
      rw [Os.FileSystem.append_put_file fs fits.ne_nil, List.nil_append,
        Os.FileSystem.setMode_put_file fs fits.ne_nil]
      exact ⟨rfl, Os.FileSystem.replaced_put fits free body documentMode⟩

/-- A file with the first part of a body, and all else as it was. -/
def Spoilt (c : Client) (body : Bytes) (fs files : Os.FileSystem) : Prop :=
  ∃ written bits, written <+: body ∧ fs.Replaced files c.document written bits

theorem Stores.failed (stores : c.Stores body fs files (.error failure)) :
    ∃ fault, failure = .io fault ∧
      (fs.create c.document documentMode = .error fault ∧ files = fs ∨
        (∃ opened, fs.create c.document documentMode = .ok opened) ∧ c.Spoilt body fs files) := by
  cases stores with
  | unopened closed => exact ⟨_, rfl, Or.inl ⟨closed, rfl⟩⟩
  | broken created part =>
      obtain ⟨bits, fits, free, rfl, -⟩ := Os.FileSystem.create_eq_ok created
      refine ⟨_, rfl, Or.inr ⟨⟨_, created⟩, _, bits, part, ?_⟩⟩
      rw [Os.FileSystem.append_put_file fs fits.ne_nil, List.nil_append]
      exact Os.FileSystem.replaced_put fits free _ bits

/-! ## Fetching a document -/

/-- A fetch of the document in `m`, by how it ends. -/
structure AllOrNothing (c : Client) (peer : Http.Peer) (m : Moment) (ending : Ending Path) :
    Prop where
  ends : ∃ last answer, ending = some (last, answer)
  stored : ∀ last path, ending = some (last, .ok path) → path = c.document ∧
    ∃ body next, c.Gets peer m .document body next ∧
      m.files.Replaced last.files c.document body documentMode
  /-- Any failure but one of the files leaves them alone, and so does one to open the file. -/
  kept : ∀ last failure, ending = some (last, .error failure) →
    (∀ fault, failure ≠ .io fault) ∨
      (∃ fault, m.files.create c.document documentMode = .error fault) → last.files = m.files
  /-- Any other failure leaves all but the one file alone. -/
  spoilt : ∀ last failure, ending = some (last, .error failure) → last.files = m.files ∨
    ∃ body next, c.Gets peer m .document body next ∧ c.Spoilt body m.files last.files
  /-- A file that cannot be opened is reported when the document has come. -/
  unopened : ∀ body next fault, c.Gets peer m .document body next →
    m.files.create c.document documentMode = .error fault →
      ending = some (next, .error (.io fault))
  fails : c.Fails peer m .document ending

theorem fetch_cases (storing : c.Storing use) (peer : Http.Peer) (m : Moment) :
    (∃ body next files answer, c.Gets peer m .document body next ∧
      c.Stores body m.files files answer ∧
        (c.call peer m.now .document use).run m = some ({ next with files }, answer)) ∨
    ∃ next failure, (∀ fault, failure ≠ .io fault) ∧ next.files = m.files ∧
      (c.call peer m.now .document use).run m = some (next, .error failure) := by
  obtain ⟨body, next, gets⟩ | ⟨next, failure, ended, kept, why⟩ :=
    gets_or_failed c peer m .document rfl use
  · exact Or.inl ⟨body, next, _, _, gets, storing body m.files, run_call_of_gets use gets rfl⟩
  · refine Or.inr ⟨next, failure, ?_, kept, ended⟩
    obtain rfl | ⟨fault, rfl⟩ | ⟨status, -, rfl⟩ := why <;> exact fun fault same => by cases same

theorem allOrNothing_of_storing (storing : c.Storing use) (peer : Http.Peer) (m : Moment) :
    c.AllOrNothing peer m ((c.call peer m.now .document use).run m) := by
  have ways := fetch_cases storing peer m
  generalize made : (c.call peer m.now .document use).run m = ending at ways
  constructor
  case ends =>
    obtain ⟨body, next, files, answer, -, -, rfl⟩ | ⟨next, failure, -, -, rfl⟩ := ways
    · exact ⟨_, _, rfl⟩
    · exact ⟨_, _, rfl⟩
  case stored =>
    rintro last path rfl
    obtain ⟨body, next, files, answer, gets, stores, same⟩ | ⟨next, failure, -, -, same⟩ := ways
    · obtain ⟨rfl, rfl⟩ := Prod.mk.inj (Option.some.inj same)
      obtain ⟨rfl, replaced⟩ := stores.replaced
      exact ⟨rfl, body, next, gets, replaced⟩
    · cases same
  case kept =>
    rintro last failure rfl mild
    obtain ⟨body, next, files, answer, gets, stores, same⟩ | ⟨next, failure', -, kept, same⟩ := ways
    · obtain ⟨rfl, rfl⟩ := Prod.mk.inj (Option.some.inj same)
      obtain ⟨fault, rfl, ⟨-, kept⟩ | ⟨⟨opened, created⟩, -⟩⟩ := stores.failed
      · exact kept
      · -- the file has been opened, and the failure is one of the files
        obtain other | ⟨fault', closed⟩ := mild
        · exact absurd rfl (other fault)
        · rw [created] at closed
          cases closed
    · obtain ⟨rfl, -⟩ := Prod.mk.inj (Option.some.inj same)
      exact kept
  case spoilt =>
    rintro last failure rfl
    obtain ⟨body, next, files, answer, gets, stores, same⟩ | ⟨next, failure', -, kept, same⟩ := ways
    · obtain ⟨rfl, rfl⟩ := Prod.mk.inj (Option.some.inj same)
      obtain ⟨fault, rfl, ⟨-, kept⟩ | ⟨-, spoilt⟩⟩ := stores.failed
      · exact Or.inl kept
      · exact Or.inr ⟨body, next, gets, spoilt⟩
    · obtain ⟨rfl, -⟩ := Prod.mk.inj (Option.some.inj same)
      exact Or.inl kept
  case unopened =>
    intro body next fault gets closed
    have stores := storing body m.files
    rw [← made, run_call_of_gets use gets rfl]
    generalize use body m.files = did at stores
    obtain ⟨files, answer⟩ := did
    cases stores with
    | unopened closed' =>
        obtain rfl := Except.error.inj (closed.symm.trans closed')
        obtain ⟨-, d, -, rfl⟩ := gets
        rfl
    | broken created => rw [closed] at created; cases created
    | whole created => rw [closed] at created; cases created
  case fails =>
    rw [← made]
    exact call_fails rfl c peer m use

/-- A fetch replaces the document by a body that has come as a whole, and changes no other file, or
it fails and changes none; and if the file can be opened then what has come is what is stored.  With
a disk that may fail once the file is open, it may have been spoilt then and nothing else. -/
theorem document_allOrNothing (c : Client) (peer : Http.Peer) (n : Nat) (m : Moment) :
    c.AllOrNothing peer m (((c.service peer).document n m.now).run m) ∧
      (∀ body next loc opened, c.Gets peer m .document body next →
        m.files.create c.document documentMode = .ok (loc, opened) →
          ((c.service peer).document n m.now).run m =
            some ({ next with files := m.files.put loc (.file body documentMode) },
              .ok c.document)) ∧
      ∀ use, c.Storing use →
        c.AllOrNothing peer m ((c.call peer m.now .document use).run m) := by
  refine ⟨allOrNothing_of_storing (storing_store c) peer m, ?_, ?_⟩
  · intro body next loc opened gets created
    have ended := run_call_of_gets c.store gets rfl
    rw [store_of_create created] at ended
    exact ended
  · intro use storing
    exact allOrNothing_of_storing storing peer m

def nearby : Client := ⟨"http://s", .ofString "etcd.yaml"⟩

/-- A peer that sends every request on, and then answers in two pieces. -/
def detour : Http.Peer := fun _ request =>
  if request.address = "http://s/config" then
    ⟨some 5, .ok ⟨⟨302, by decide, by decide⟩, some "/d", ⟨none, .error .body⟩⟩⟩
  else ⟨some 1, .ok ⟨⟨201, by decide, by decide⟩, none, ⟨some 4, .ok (Bytes.ofString "name: n")⟩⟩⟩

/-- An older and longer document beside another file. -/
def beside : Os.FileSystem :=
  (Os.FileSystem.empty.plant (.ofString "etcd.yaml")
    (.file (Bytes.ofString "name: of-before") 0o644)).plant (.ofString "exit_code")
      (.file (Bytes.ofString "interrupt") 0o644)

/-- Stores documents on a disk with room for five more bytes. -/
def storeNarrowly (body : Bytes) (fs : Os.FileSystem) :
    Os.FileSystem × Except Failure Path :=
  match fs.create nearby.document documentMode with
  | .error fault => (fs, .error (.io fault))
  | .ok (loc, fs) => (fs.append loc (body.take 5), .error (.io (.number 28)))

theorem storing_storeNarrowly : nearby.Storing storeNarrowly := by
  intro body fs
  unfold storeNarrowly
  cases created : fs.create nearby.document documentMode with
  | error fault => exact .unopened created
  | ok found => exact .broken created (List.take_prefix 5 body)

theorem delivers_detour :
    nearby.Delivers detour 0 .document 10 (Bytes.ofString "name: n") := by
  have answered : nearby.Answered detour 0 .document (5 + 1)
      ⟨⟨201, by decide, by decide⟩, none, ⟨some 4, .ok (Bytes.ofString "name: n")⟩⟩ :=
    ⟨.onward rfl rfl (.here rfl rfl), by decide⟩
  exact .whole answered (by decide) rfl (by decide)

/-- The document replaces a longer one, unless the cancellation fires just as it has come or it does
not fit on the disk; the other file stays as it was in any case. -/
theorem document_allOrNothing_detour :
    (∃ last, ((nearby.service detour).document 0 0).run ⟨0, .never, beside⟩ =
        some (last, .ok nearby.document) ∧
      last.files.named? nearby.document = some (.file (Bytes.ofString "name: n") documentMode) ∧
      last.files.named? (.ofString "exit_code") = beside.named? (.ofString "exit_code")) ∧
    (∃ last, ((nearby.service detour).document 0 0).run ⟨0, .firingAt 10, beside⟩ =
        some (last, .error .cancelled) ∧ last.files = beside) ∧
    ∃ last, (nearby.call detour 0 .document storeNarrowly).run ⟨0, .never, beside⟩ =
        some (last, .error (.io (.number 28))) ∧ ∃ body, nearby.Spoilt body beside last.files := by
  have elsewhere : beside.place? (.ofString "exit_code") ≠ beside.place? nearby.document := by
    decide +kernel
  refine ⟨?_, ?_, ?_⟩
  · obtain ⟨laws, stores, -⟩ := document_allOrNothing nearby detour 0 ⟨0, .never, beside⟩
    have ended := stores _ ⟨10, .never, beside⟩ _ _ ⟨rfl, 10, delivers_detour, rfl⟩ rfl
    obtain ⟨-, _, _, -, replaced⟩ := laws.stored _ _ ended
    exact ⟨_, ended, by decide +kernel, replaced.names _ elsewhere⟩
  · obtain ⟨laws, -, -⟩ := document_allOrNothing nearby detour 0 ⟨0, .firingAt 10, beside⟩
    obtain ⟨last, ended, kept⟩ := laws.fails.cancelled 10 _ delivers_detour rfl
    exact ⟨last, ended, kept⟩
  · obtain ⟨-, -, laws⟩ := document_allOrNothing nearby detour 0 ⟨0, .never, beside⟩
    have laws := laws storeNarrowly storing_storeNarrowly
    have ended : (nearby.call detour 0 .document storeNarrowly).run ⟨0, .never, beside⟩ =
        some (⟨10, .never, (storeNarrowly (Bytes.ofString "name: n") beside).1⟩,
          .error (.io (.number 28))) := rfl
    refine ⟨_, ended, ?_⟩
    obtain kept | ⟨body, -, -, spoilt⟩ := laws.spoilt _ _ ended
    · have changed : (storeNarrowly (Bytes.ofString "name: n") beside).1.nodes ≠ beside.nodes := by
        decide +kernel
      exact absurd (congrArg (·.nodes) kept) changed
    · exact ⟨body, spoilt⟩

end Sidecar.Client

end StoreWarden
