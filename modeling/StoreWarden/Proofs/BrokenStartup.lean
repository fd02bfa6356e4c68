import StoreWarden.Proofs.CheckedLaunch

/-!
# Nothing is launched on a broken startup

A launch needs a document, a readiness check, material for the readiness server and a port, and asks
for them in this order.  If all are there the launcher is called, once.  Otherwise the launch fails
with what the first that is missing fails with, and leaves everything as it was.

The document is there exactly if a setup has succeeded, whatever setups and launches have been asked
for since, and it is that of the last setup which did.
-/

set_option autoImplicit false

namespace StoreWarden.Life

open Engine (Member)
open Readiness (Probe Server Credential)

/-! ## What a launch needs -/

inductive Need where
  | document
  | check
  | material
  | port
deriving DecidableEq, Repr

def Need.all : List Need := [.document, .check, .material, .port]

/-- The material of the readiness check, which is that of the server. -/
def chosen (p : Parts) (s : Life) : Option Tls.Material :=
  s.document.bind (Tls.Material.choose p.settings.client)

/-- Whether a need is met, or what it fails with. -/
def Need.met (p : Parts) (s : Life) : Need → Except Failure Unit
  | .document => if s.document.isSome then .ok () else .error (.misuse .setupMissing)
  | .check =>
    if p.checkGiven then .ok ()
    else (Probe.build s.moment.files p.settings.clientPort (chosen p s)).map fun _ => ()
  | .material =>
    match chosen p s with
    | none => .ok ()
    | some m => Tls.loadServed s.moment.files m.cert m.key
  | .port =>
    match p.portFault with
    | some fault => .error (.io fault)
    | none => .ok ()

/-- The first of the needs that is not met. -/
def FirstUnmet (p : Parts) (s : Life) (need : Need) (failure : Failure) : Prop :=
  ∃ before rest, Need.all = before ++ need :: rest ∧ (∀ n ∈ before, n.met p s = .ok ()) ∧
    need.met p s = .error failure

/-! ## Sequences of demands -/

/-- What is asked for, with the parts as they are then: an earlier launch may hold the port. -/
inductive Demand where
  | setup (p : Parts)
  | launch (p : Parts)
  /-- Time passes, files are changed by others, or the run is cancelled. -/
  | elsewhere (m : Moment)

def Demand.fulfil (s : Life) : Demand → Life
  | .setup p => (s.setup p).life
  | .launch p => (s.launch p).life
  | .elsewhere m => { s with moment := m }

def after (s : Life) (demands : List Demand) : Life := demands.foldl Demand.fulfil s

def Demand.SetsUp (s : Life) (demand : Demand) : Prop :=
  ∃ p, demand = .setup p ∧ (s.setup p).answer = some (.ok ())

/-- A demand for a launch that calls the launcher. -/
def Demand.Calls (s : Life) (demand : Demand) (l : Launch) : Prop :=
  ∃ p, demand = .launch p ∧ (∀ need : Need, need.met p s = .ok ()) ∧
    l = ⟨s.moment.now, p.settings.documentPath⟩

/-- The last setup that has succeeded has obtained this document. -/
inductive ObtainedLast (s : Life) : List Demand → Engine.Settings → Prop
  | now {demands : List Demand} {p : Parts} {m : Moment} {document : Engine.Settings}
      (obtained : p.obtain (s.after demands).moment = some (m, .ok document)) :
      ObtainedLast s (demands ++ [.setup p]) document
  | before {demands : List Demand} {demand : Demand} {document : Engine.Settings}
      (before : ObtainedLast s demands document) (no : ¬ demand.SetsUp (s.after demands)) :
      ObtainedLast s (demands ++ [demand]) document

/-- What a launch does after a sequence of demands. -/
structure SparesBroken (m : Moment) (demands : List Demand) (p : Parts) (s : Life) : Prop where
  document : ∀ document, s.document = some document ↔
    ObtainedLast (start m) demands document
  setUp : Need.document.met p s = .ok () ↔
    ∃ before demand rest, demands = before ++ demand :: rest ∧
      demand.SetsUp ((start m).after before)
  /-- The launcher is called exactly if all needs are met, and then once. -/
  called : (∀ need : Need, need.met p s = .ok ()) ↔
    (s.launch p).life.launches = s.launches ++ [⟨s.moment.now, p.settings.documentPath⟩]
  calls : (∀ need : Need, need.met p s = .ok ()) →
    s.launch p = ((s.onceLaunched p s.moment).perform (p.launcher p.settings.documentPath)).andThen
      fun s b => awaitReady p s b
  /-- Otherwise it makes no difference what the launcher would do, and nothing has happened. -/
  refused : ∀ need failure, FirstUnmet p s need failure →
    ∀ launcher, s.launch { p with launcher } = ⟨s, some (.error failure)⟩
  either : (∀ need : Need, need.met p s = .ok ()) ∨ ∃ need failure, FirstUnmet p s need failure
  setup : (s.setup p).answer ≠ some (.ok ()) → (s.setup p).life.document = s.document
  /-- The launches so far were all asked for when all needs were met. -/
  launches : ∀ l, l ∈ s.launches ↔ ∃ before demand rest, demands = before ++ demand :: rest ∧
    demand.Calls ((start m).after before) l

variable {p : Parts} {s : Life} {failure : Failure} {document : Engine.Settings}

/-! ## Checks in a row -/

section Rows

variable {α : Type} {check : α → Except Failure Unit} {row : List α}

theorem forM_cons_of_ok {a : α} (ok : check a = .ok ()) :
    forM (a :: row) check = forM row check := by
  rw [List.forM_cons, ok]
  rfl

theorem forM_cons_of_error {a : α} (failed : check a = .error failure) :
    forM (a :: row) check = .error failure := by
  rw [List.forM_cons, failed]
  rfl

theorem forM_eq_ok_iff : forM row check = .ok () ↔ ∀ a ∈ row, check a = .ok () := by
  induction row with
  | nil => simp [pure, Except.pure]
  | cons a row ih =>
      rw [List.forall_mem_cons]
      cases first : check a with
      | error failure => simp [forM_cons_of_error first]
      | ok done => rw [forM_cons_of_ok first, ih, and_iff_right rfl]

theorem forM_eq_error_iff : forM row check = .error failure ↔
    ∃ before a rest, row = before ++ a :: rest ∧ (∀ b ∈ before, check b = .ok ()) ∧
      check a = .error failure := by
  constructor
  · intro failed
    induction row with
    | nil => cases failed
    | cons a row ih =>
        cases first : check a with
        | error own =>
            rw [forM_cons_of_error first] at failed
            exact ⟨[], a, row, rfl, by simp, first.trans (by rw [Except.error.inj failed])⟩
        | ok done =>
            rw [forM_cons_of_ok first] at failed
            obtain ⟨before, b, rest, rfl, met, failed⟩ := ih failed
            exact ⟨a :: before, b, rest, rfl, List.forall_mem_cons.2 ⟨first, met⟩, failed⟩
  · rintro ⟨before, a, rest, rfl, met, failed⟩
    induction before with
    | nil => exact forM_cons_of_error failed
    | cons b before ih =>
        rw [List.forall_mem_cons] at met
        exact (forM_cons_of_ok met.1).trans (ih met.2)

end Rows

/-! ## One launch -/

theorem Need.mem_all (need : Need) : need ∈ Need.all := by
  cases need <;> decide

def ask (p : Parts) (s : Life) : Except Failure Unit := forM Need.all fun need => need.met p s

theorem ask_eq_ok_iff : ask p s = .ok () ↔ ∀ need : Need, need.met p s = .ok () := by
  rw [ask, forM_eq_ok_iff]
  exact ⟨fun met need => met need need.mem_all, fun met need _ => met need⟩

theorem ask_eq_error_iff : ask p s = .error failure ↔ ∃ need, FirstUnmet p s need failure := by
  rw [ask, forM_eq_error_iff]
  constructor
  · rintro ⟨before, need, rest, first⟩
    exact ⟨need, before, rest, first⟩
  · rintro ⟨need, before, rest, first⟩
    exact ⟨before, need, rest, first⟩

theorem ask_of_undocumented (missing : s.document = none) :
    ask p s = .error (.misuse .setupMissing) := by
  have unmet : Need.document.met p s = .error (.misuse .setupMissing) := by
    rw [Need.met, missing]
    rfl
  exact forM_cons_of_error unmet

/-- The server asks for its material, and then for its port. -/
theorem serve_eq (fs : Os.FileSystem) (portFault : Option Os.Fault) (m : Option Tls.Material) :
    (Server.bind fs portFault (m.map fun m => Credential.mk m.cert m.key)).map (fun _ => ()) =
      (match m with
        | none => .ok ()
        | some m => Tls.loadServed fs m.cert m.key) >>= fun _ =>
          match portFault with
          | some fault => .error (.io fault)
          | none => .ok () := by
  cases m with
  | none => cases portFault <;> rfl
  | some m =>
      simp only [Server.bind, Option.map_some]
      cases Tls.loadServed fs m.cert m.key with
      | error failure => rfl
      | ok done => cases portFault <;> rfl

theorem ask_of_document (given : s.document = some document) :
    ask p s = prepare p s.moment.files document := by
  have documented : Need.document.met p s = .ok () := by
    rw [Need.met, given]
    rfl
  have choice : chosen p s = Tls.Material.choose p.settings.client document := by
    rw [chosen, given]
    rfl
  have served : (Server.bind s.moment.files p.portFault
      ((chosen p s).map fun m => Credential.mk m.cert m.key)).map (fun _ => ()) =
        forM [Need.material, .port] fun need => need.met p s := by
    rw [serve_eq]
    simp only [List.forM_cons, List.forM_nil, Need.met]
    cases p.portFault <;> rfl
  rw [ask, Need.all, forM_cons_of_ok documented, prepare, Parts.server, ← choice, List.forM_cons,
    ← served, Need.met]
  cases p.checkGiven with
  | true => rfl
  | false =>
      cases Probe.build s.moment.files p.settings.clientPort (chosen p s) <;> rfl

theorem launch_of_asked (s : Life) (p : Parts) : s.launch p =
    match ask p s with
    | .error failure => ⟨s, some (.error failure)⟩
    | .ok () =>
      ((s.onceLaunched p s.moment).perform (p.launcher p.settings.documentPath)).andThen
        fun s b => awaitReady p s b := by
  cases given : s.document with
  | none =>
      rw [ask_of_undocumented given]
      simp only [launch, given]
      rfl
  | some document =>
      rw [ask_of_document given]
      cases prepared : prepare p s.moment.files document with
      | error failure =>
          simp only [launch, given, prepared]
          rfl
      | ok done => exact launch_of_equipped ⟨document, given, prepared⟩

theorem equipped_iff : Equipped p s ↔ ∀ need : Need, need.met p s = .ok () := by
  rw [← ask_eq_ok_iff]
  constructor
  · rintro ⟨document, given, prepared⟩
    exact (ask_of_document given).trans prepared
  · intro asked
    cases given : s.document with
    | none =>
        rw [ask_of_undocumented given] at asked
        cases asked
    | some document => exact ⟨document, given, (ask_of_document given).symm.trans asked⟩

theorem document_launch (p : Parts) (s : Life) : (s.launch p).life.document = s.document := by
  have way : Settles p s (s.launch p) := settles_launch p s
  generalize s.launch p = o at way ⊢
  cases way <;> rfl

theorem launches_launch (equipped : Equipped p s) :
    (s.launch p).life.launches = s.launches ++ [⟨s.moment.now, p.settings.documentPath⟩] := by
  have way : Settles p s (s.launch p) := settles_launch p s
  generalize s.launch p = o at way ⊢
  obtain ⟨document, given, prepared⟩ := equipped
  cases way with
  | undocumented missing => cases missing.symm.trans given
  | unprepared given' failed =>
      obtain rfl := Option.some.inj (given'.symm.trans given)
      cases failed.symm.trans prepared
  | launching | unlaunched | waiting | cancelled | serving | stopped | tooLate => rfl

/-! ## One setup -/

theorem document_setup_of_failed (failed : (s.setup p).answer ≠ some (.ok ())) :
    (s.setup p).life.document = s.document := by
  unfold setup perform at failed ⊢
  cases obtained : p.obtain s.moment with
  | none => rfl
  | some result =>
      obtain ⟨m, answer⟩ := result
      cases answer with
      | error failure => rfl
      | ok document =>
          rw [obtained] at failed
          exact absurd rfl failed

theorem launches_setup (p : Parts) (s : Life) : (s.setup p).life.launches = s.launches := by
  unfold setup perform
  cases p.obtain s.moment with
  | none => rfl
  | some result =>
      obtain ⟨m, answer⟩ := result
      cases answer <;> rfl

/-! ## One demand after the other -/

section Demands

variable {m : Moment} {demands : List Demand} {demand : Demand}

theorem after_concat (s : Life) (demands : List Demand) (demand : Demand) :
    s.after (demands ++ [demand]) = demand.fulfil (s.after demands) := by
  rw [after, List.foldl_concat]
  rfl

theorem document_of_setsUp (setsUp : demand.SetsUp s) :
    ∃ (p : Parts) (m : Moment) (document : Engine.Settings), demand = .setup p ∧
      p.obtain s.moment = some (m, .ok document) ∧
        (demand.fulfil s).document = some document := by
  obtain ⟨p, rfl, done⟩ := setsUp
  obtain ⟨m, document, obtained⟩ := obtained_of_setup done
  refine ⟨p, m, document, rfl, obtained, ?_⟩
  rw [Demand.fulfil, setup_of_obtained obtained]

theorem document_of_not_setsUp (no : ¬ demand.SetsUp s) :
    (demand.fulfil s).document = s.document := by
  cases demand with
  | setup p => exact document_setup_of_failed fun done => no ⟨p, rfl, done⟩
  | launch p => exact document_launch p s
  | elsewhere m => rfl

theorem obtainedLast_concat_iff : ObtainedLast s (demands ++ [demand]) document ↔
    (∃ (p : Parts) (m : Moment), demand = .setup p ∧
      p.obtain (s.after demands).moment = some (m, .ok document)) ∨
    (ObtainedLast s demands document ∧ ¬ demand.SetsUp (s.after demands)) := by
  constructor
  · intro last
    generalize same : demands ++ [demand] = all at last
    cases last with
    | now obtained =>
        obtain ⟨rfl, last⟩ := List.append_inj' same rfl
        obtain rfl := List.head_eq_of_cons_eq last
        exact Or.inl ⟨_, _, rfl, obtained⟩
    | before before no =>
        obtain ⟨rfl, last⟩ := List.append_inj' same rfl
        obtain rfl := List.head_eq_of_cons_eq last
        exact Or.inr ⟨before, no⟩
  · rintro (⟨p, m, rfl, obtained⟩ | ⟨before, no⟩)
    · exact .now obtained
    · exact .before before no

/-- The document is that of the last setup that has succeeded, if there is one. -/
theorem document_after (m : Moment) (demands : List Demand) (document : Engine.Settings) :
    ((start m).after demands).document = some document ↔
      ObtainedLast (start m) demands document := by
  induction demands using List.reverseRecOn with
  | nil =>
      refine iff_of_false nofun ?_
      intro last
      generalize same : ([] : List Demand) = all at last
      cases last <;> simp at same
  | append_singleton demands demand ih =>
      -- the last demand has put a document there, or has left what was there before it
      rw [obtainedLast_concat_iff, after_concat, ← ih]
      by_cases setsUp : demand.SetsUp ((start m).after demands)
      · obtain ⟨p, m', own, asked, obtained, kept⟩ := document_of_setsUp setsUp
        rw [kept, Option.some.injEq]
        constructor
        · rintro rfl
          exact Or.inl ⟨p, m', asked, obtained⟩
        · rintro (⟨q, n, rfl, obtained'⟩ | ⟨-, no⟩)
          · obtain rfl := Demand.setup.inj asked
            rw [obtained] at obtained'
            cases obtained'
            rfl
          · exact absurd setsUp no
      · rw [document_of_not_setsUp setsUp, and_iff_left setsUp]
        refine (or_iff_right ?_).symm
        rintro ⟨p, m', rfl, obtained⟩
        exact setsUp ⟨p, rfl, by rw [setup_of_obtained obtained]⟩

/-- Something has come of a sequence up to some demand, or comes of the last. -/
theorem exists_split_concat (happens : List Demand → Demand → Prop) :
    (∃ before d rest, demands ++ [demand] = before ++ d :: rest ∧ happens before d) ↔
      (∃ before d rest, demands = before ++ d :: rest ∧ happens before d) ∨
        happens demands demand := by
  constructor
  · rintro ⟨before, d, rest, same, holds⟩
    rcases List.eq_nil_or_concat rest with rfl | ⟨rest, last, rfl⟩
    · obtain ⟨rfl, rfl⟩ := List.append_singleton_inj.1 same
      exact Or.inr holds
    · rw [List.concat_eq_append, ← List.cons_append, ← List.append_assoc] at same
      obtain ⟨rfl, rfl⟩ := List.append_singleton_inj.1 same
      exact Or.inl ⟨before, d, rest, rfl, holds⟩
  · rintro (⟨before, d, rest, rfl, holds⟩ | holds)
    · exact ⟨before, d, rest ++ [demand], by simp, holds⟩
    · exact ⟨demands, demand, [], rfl, holds⟩

theorem not_exists_split {happens : List Demand → Demand → Prop} :
    ¬ ∃ before d rest, ([] : List Demand) = before ++ d :: rest ∧ happens before d := by
  rintro ⟨before, d, rest, same, -⟩
  simp at same

theorem met_document_iff : Need.document.met p s = .ok () ↔ s.document ≠ none := by
  rw [Need.met]
  cases s.document <;> simp

theorem document_after_ne_none (m : Moment) (demands : List Demand) :
    ((start m).after demands).document ≠ none ↔
      ∃ before demand rest, demands = before ++ demand :: rest ∧
        demand.SetsUp ((start m).after before) := by
  induction demands using List.reverseRecOn with
  | nil => exact iff_of_false (absurd rfl) not_exists_split
  | append_singleton demands demand ih =>
      rw [exists_split_concat fun before d => d.SetsUp ((start m).after before), ← ih,
        after_concat]
      by_cases setsUp : demand.SetsUp ((start m).after demands)
      · obtain ⟨-, -, document, -, -, kept⟩ := document_of_setsUp setsUp
        exact iff_of_true (by simp [kept]) (Or.inr setsUp)
      · rw [document_of_not_setsUp setsUp, or_iff_left setsUp]

theorem mem_launches_fulfil {l : Launch} :
    l ∈ (demand.fulfil s).launches ↔ l ∈ s.launches ∨ demand.Calls s l := by
  cases demand with
  | setup p =>
      rw [Demand.fulfil, launches_setup]
      refine (or_iff_left ?_).symm
      rintro ⟨q, asked, -⟩
      cases asked
  | elsewhere m =>
      refine (or_iff_left ?_).symm
      rintro ⟨q, asked, -⟩
      cases asked
  | launch p =>
      by_cases equipped : Equipped p s
      · rw [Demand.fulfil, launches_launch equipped, List.mem_append, List.mem_singleton]
        refine or_congr_right ⟨fun same => ⟨p, rfl, equipped_iff.1 equipped, same⟩, ?_⟩
        rintro ⟨q, asked, -, same⟩
        obtain rfl := Demand.launch.inj asked
        exact same
      · rw [Demand.fulfil, launch_of_not_equipped equipped]
        refine (or_iff_left ?_).symm
        rintro ⟨q, asked, met, -⟩
        obtain rfl := Demand.launch.inj asked
        exact equipped (equipped_iff.2 met)

theorem mem_launches_after (m : Moment) (demands : List Demand) (l : Launch) :
    l ∈ ((start m).after demands).launches ↔
      ∃ before demand rest, demands = before ++ demand :: rest ∧
        demand.Calls ((start m).after before) l := by
  induction demands using List.reverseRecOn with
  | nil => exact iff_of_false List.not_mem_nil not_exists_split
  | append_singleton demands demand ih =>
      rw [exists_split_concat fun before d => d.Calls ((start m).after before) l, ← ih,
        after_concat, mem_launches_fulfil]

end Demands

theorem launch_spares_broken (m : Moment) (demands : List Demand) (p : Parts) :
    SparesBroken m demands p ((start m).after demands) := by
  constructor
  case document => exact document_after m demands
  case setUp => exact met_document_iff.trans (document_after_ne_none m demands)
  case called =>
    rw [← equipped_iff]
    refine ⟨launches_launch, ?_⟩
    intro called
    by_contra bare
    rw [launch_of_not_equipped bare] at called
    simp at called
  case calls => exact fun met => launch_of_equipped (equipped_iff.2 met)
  case refused =>
    intro need failure first launcher
    -- no need looks at the launcher
    have asked : ask { p with launcher } ((start m).after demands) = .error failure :=
      ask_eq_error_iff.2 ⟨need, first⟩
    rw [launch_of_asked, asked]
  case either =>
    cases asked : ask p ((start m).after demands) with
    | ok done => exact Or.inl (ask_eq_ok_iff.1 asked)
    | error failure =>
        obtain ⟨need, first⟩ := ask_eq_error_iff.1 asked
        exact Or.inr ⟨need, failure, first⟩
  case setup => exact document_setup_of_failed
  case launches => exact mem_launches_after m demands

end StoreWarden.Life
