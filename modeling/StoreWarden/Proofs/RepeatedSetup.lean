import StoreWarden.Proofs.BrokenStartup

/-!
# Setups after the first

A run sets up once.  A process that is set up again may bring another document, store it in place of
the one before, and then fail because it cannot be read: the settings kept are those of an earlier
document then, and a launch hands over the new one all the same.

So the file of the document holds, as a whole, what was brought last by any setup, and the settings
kept are those of this file exactly if that setup has succeeded, `launch_hands_over`.
-/

set_option autoImplicit false

namespace StoreWarden.Life

open Engine (Member)

variable {w : World} {fs : Os.FileSystem} {settings : Settings} {p : Parts} {s now : Life}
  {m next : Moment} {document : Engine.Settings} {body : Bytes} {failure : Failure}
  {demands : List Demand} {demand : Demand} {answer : Except Failure Engine.Settings}

/-! ## Demands that leave the document to setups -/

/-- Whoever else is asked for something leaves the document's file and the settings alone. -/
def Demand.Orderly (settings : Settings) (s : Life) : Demand → Prop
  | .setup p => ∃ w fs, Parts.assemble w fs settings = .ok p
  | demand => Untouched settings s (demand.fulfil s)

def Orderly (settings : Settings) (s : Life) : List Demand → Prop
  | [] => True
  | demand :: demands => demand.Orderly settings s ∧ Orderly settings (demand.fulfil s) demands

/-- What was brought last, by a setup that has succeeded or failed, and what was read from it. -/
inductive BroughtLast (settings : Settings) (s : Life) :
    List Demand → Bytes → Except Failure Engine.Settings → Prop
  | now {demands : List Demand} {w : World} {fs : Os.FileSystem} {p : Parts} {m : Moment}
      {body : Bytes} {answer : Except Failure Engine.Settings}
      (built : Parts.assemble w fs settings = .ok p)
      (obtained : p.obtain (s.after demands).moment = some (m, answer))
      (brought : Brought w settings (s.after demands).moment m body answer) :
      BroughtLast settings s (demands ++ [.setup p]) body answer
  | before {demands : List Demand} {demand : Demand} {body : Bytes}
      {answer : Except Failure Engine.Settings}
      (before : BroughtLast settings s demands body answer)
      (same : Untouched settings (s.after demands) (s.after (demands ++ [demand]))) :
      BroughtLast settings s (demands ++ [demand]) body answer

/-- How the document's file and the settings kept stand after a sequence of demands. -/
inductive Stands (settings : Settings) (s : Life) (demands : List Demand) (now : Life) : Prop
  | untouched (same : Untouched settings s now)
  | checked {body : Bytes} {document : Engine.Settings}
      (last : BroughtLast settings s demands body (.ok document))
      (agrees : Agrees settings now document body)
  | unread {body : Bytes} {failure : Failure}
      (last : BroughtLast settings s demands body (.error failure))
      (file : now.moment.files.named? settings.documentPath =
        some (.file body Sidecar.documentMode))
      (failed : Engine.Settings.load now.moment.files settings.documentPath = .error failure)

/-! ## One demand more -/

theorem Untouched.trans {next : Life} (first : Untouched settings s now)
    (second : Untouched settings now next) : Untouched settings s next :=
  ⟨second.document.trans first.document, second.home.trans first.home,
    second.file.trans first.file⟩

theorem Stands.of_untouched (stands : Stands settings s demands (s.after demands))
    (same : Untouched settings (s.after demands) (s.after (demands ++ [demand]))) :
    Stands settings s (demands ++ [demand]) (s.after (demands ++ [demand])) := by
  cases stands with
  | untouched before => exact .untouched (before.trans same)
  | checked last agrees => exact .checked (.before last same) (agrees.of_untouched same)
  | unread last file failed =>
      have file' := same.file.trans file
      refine .unread (.before last same) file' ?_
      rw [Engine.Settings.load_of_read same.home (read_of_stored file) (read_of_stored file')]
      exact failed

theorem setup_of_failed (failed : p.obtain s.moment = some (m, .error failure)) :
    s.setup p = ⟨{ s with moment := m }, some (.error failure)⟩ := by
  simp only [setup, perform, failed, Outcome.andThen]

theorem setup_of_endless (endless : p.obtain s.moment = none) : s.setup p = ⟨s, none⟩ := by
  simp only [setup, perform, endless, Outcome.andThen]

theorem Stands.setup (stands : Stands settings s demands (s.after demands))
    (built : Parts.assemble w fs settings = .ok p) :
    Stands settings s (demands ++ [.setup p]) (s.after (demands ++ [.setup p])) := by
  have comes : s.after (demands ++ [.setup p]) = ((s.after demands).setup p).life :=
    after_concat s demands (.setup p)
  cases obtained : p.obtain (s.after demands).moment with
  | none =>
      rw [setup_of_endless obtained] at comes
      refine stands.of_untouched ?_
      rw [comes]
      exact .refl settings _
  | some result =>
      obtain ⟨m, answer⟩ := result
      obtain ⟨body, brought⟩ | ⟨kept, failure, rfl, -⟩ := brought_or_kept built obtained
      · have last := BroughtLast.now built obtained brought
        have file := brought.replaced.file
        cases answer with
        | ok document =>
            rw [setup_of_obtained obtained] at comes
            rw [comes]
            exact .checked last (agrees_of_load rfl file brought.loaded)
        | error failure =>
            rw [setup_of_failed obtained] at comes
            rw [comes]
            exact .unread last file brought.loaded
      · rw [setup_of_failed obtained] at comes
        refine stands.of_untouched ?_
        rw [comes]
        exact ⟨rfl, congrArg (·.home) kept, congrArg (·.named? settings.documentPath) kept⟩

theorem Stands.step (stands : Stands settings s demands (s.after demands))
    (orderly : demand.Orderly settings (s.after demands)) :
    Stands settings s (demands ++ [demand]) (s.after (demands ++ [demand])) := by
  cases demand with
  | setup p =>
      obtain ⟨w, fs, built⟩ := orderly
      exact stands.setup built
  | launch p =>
      refine stands.of_untouched ?_
      rw [after_concat]
      exact orderly
  | elsewhere m =>
      refine stands.of_untouched ?_
      rw [after_concat]
      exact orderly

/-! ## All demands -/

theorem after_cons (s : Life) (demand : Demand) (demands : List Demand) :
    s.after (demand :: demands) = (demand.fulfil s).after demands := rfl

theorem orderly_concat_iff : Orderly settings s (demands ++ [demand]) ↔
    Orderly settings s demands ∧ demand.Orderly settings (s.after demands) := by
  induction demands generalizing s with
  | nil => simp [Orderly, after]
  | cons first demands ih => simp only [List.cons_append, Orderly, ih, and_assoc, after_cons]

/-- However setups and launches follow each other, the file of the document holds what was brought
last, and the settings kept are those of it or it could not be read. -/
theorem stands_after (orderly : Orderly settings s demands) :
    Stands settings s demands (s.after demands) := by
  induction demands using List.reverseRecOn with
  | nil => exact .untouched (.refl settings s)
  | append_singleton demands demand ih =>
      obtain ⟨before, last⟩ := orderly_concat_iff.1 orderly
      exact (ih before).step last

/-! ## Launches between setups -/

theorem home_discard (r : ExitRecord) (fs : Os.FileSystem) : (r.discard fs).1.home = fs.home := by
  cases removed : fs.remove r.path with
  | ok next =>
      obtain ⟨loc, content, mode, -, -, rfl⟩ := Os.FileSystem.remove_eq_ok removed
      simp only [ExitRecord.discard, removed]
      rfl
  | error fault => rw [ExitRecord.discard_fst_of_error removed]

theorem files_awaitReady (p : Parts) (s : Life) (b : Member) :
    (awaitReady p s b).life.moment.files = s.moment.files ∨
      (awaitReady p s b).life.moment.files =
        (ExitRecord.discard ⟨p.settings.recordPath⟩ s.moment.files).1 := by
  unfold awaitReady
  cases startup p s.moment b with
  | none => exact Or.inl rfl
  | some found =>
      obtain ⟨t, event⟩ := found
      cases event with
      | ready => exact Or.inr rfl
      | cancelled | stopped | tooLate => exact Or.inl rfl

/-- A launch leaves the files alone, but for the record that it removes. -/
theorem files_launch (built : Parts.assemble w fs settings = .ok p) (s : Life) :
    (s.launch p).life.moment.files = s.moment.files ∨
      (s.launch p).life.moment.files =
        (ExitRecord.discard ⟨settings.recordPath⟩ s.moment.files).1 := by
  obtain ⟨own, launcher, -⟩ := Parts.assembled built
  by_cases equipped : Equipped p s
  · rw [launch_of_equipped equipped, launcher]
    unfold perform Engine.Supervisor.start
    cases w.spawn settings.program (Engine.Supervisor.arguments p.settings.documentPath) with
    | error fault => exact Or.inl rfl
    | ok child =>
        simp only [Outcome.andThen]
        rw [← own]
        exact files_awaitReady p _ _
  · rw [launch_of_not_equipped equipped]
    exact Or.inl rfl

/-- A launch is orderly where the record and the document are in different places. -/
theorem untouched_launch (built : Parts.assemble w fs settings = .ok p)
    (apart : s.moment.files.place? settings.documentPath ≠
      s.moment.files.place? settings.recordPath) :
    Untouched settings s (s.launch p).life := by
  refine ⟨document_launch p s, ?_, ?_⟩
  · obtain kept | removed := files_launch built s
    · rw [kept]
    · rw [removed, home_discard]
  · obtain kept | removed := files_launch built s
    · rw [kept]
    · have cleared := ExitRecord.cleared_discard ⟨settings.recordPath⟩ s.moment.files
      rw [← removed] at cleared
      generalize (s.launch p).life.moment.files = files at cleared
      cases cleared with
      | removed gone others => exact others _ apart
      | left => rfl

theorem orderly_again (built : Parts.assemble w fs settings = .ok p)
    (apart : (s.setup p).life.moment.files.place? settings.documentPath ≠
      (s.setup p).life.moment.files.place? settings.recordPath) :
    Orderly settings s [.setup p, .launch p, .setup p] :=
  ⟨⟨w, fs, built⟩, untouched_launch built apart, ⟨w, fs, built⟩, trivial⟩

/-! ## What a launch hands over -/

/-- What a launch hands over after a sequence of demands: the file, and the settings that were read
from it or, where that has failed, earlier ones. -/
structure HandsOver (settings : Settings) (m : Moment) (demands : List Demand) (s : Life)
    (body : Bytes) (answer : Except Failure Engine.Settings) : Prop where
  last : BroughtLast settings (start m) demands body answer
  file : s.moment.files.named? settings.documentPath = some (.file body Sidecar.documentMode)
  loaded : Engine.Settings.load s.moment.files settings.documentPath = answer
  agrees : ∀ document, Agrees settings s document body ↔ answer = .ok document
  kept : ∃ document, s.document = some document ∧ ObtainedLast (start m) demands document

theorem handsOver_of_stands
    (stands : Stands settings (start m) demands ((start m).after demands))
    (given : ((start m).after demands).document = some document) :
    ∃ body answer, HandsOver settings m demands ((start m).after demands) body answer := by
  have kept := (document_after m demands document).1 given
  cases stands with
  | untouched same => cases same.document.symm.trans given
  | @checked body document' last agrees =>
      have loaded := agrees.loaded _ rfl agrees.holds
      refine ⟨body, _, last, agrees.file, loaded, ?_, document, given, kept⟩
      intro other
      constructor
      · intro agrees'
        exact loaded.symm.trans (agrees'.loaded _ rfl agrees'.holds)
      · intro same
        rwa [← Except.ok.inj same]
  | @unread body failure last file failed =>
      refine ⟨body, _, last, file, failed, ?_, document, given, kept⟩
      intro other
      constructor
      · intro agrees
        exact failed.symm.trans (agrees.loaded _ rfl agrees.holds)
      · intro same
        cases same

/-- The launcher is given the document that was brought last, whether or not the setup that brought
it has succeeded. -/
theorem launch_hands_over (built : Parts.assemble w fs settings = .ok p)
    (orderly : Orderly settings (start m) demands)
    (met : ∀ need : Need, need.met p ((start m).after demands) = .ok ()) :
    (((start m).after demands).launch p).life.launches = ((start m).after demands).launches ++
        [⟨((start m).after demands).moment.now, settings.documentPath⟩] ∧
      ∃ body answer, HandsOver settings m demands ((start m).after demands) body answer := by
  have equipped := equipped_iff.2 met
  constructor
  · rw [launches_launch equipped, (Parts.assembled built).1]
  · obtain ⟨document, given, -⟩ := equipped
    exact handsOver_of_stands (stands_after orderly) given

/-- A sidecar that has another document from some time on, without a data directory. -/
def wavering : World where
  sidecar t request := ⟨some 1, .ok ⟨.ok, none, ⟨some 0, .ok (Bytes.ofString
    (if request = .get "http://localhost:8080/config" then
      if t < 100 then "data-dir: /d" else "name: n"
    else "Successful"))⟩⟩⟩
  spawn _ _ := .ok ⟨none, none⟩
  checks _ := ⟨some 0, true⟩
  portFault := none
  signals := []
  rounds := 2
  tie _ := true

def repeating : Parts where
  settings := nearby
  obtain m := (opened wavering nearby m).ending
  launcher := Engine.Supervisor.start { program := nearby.program } wavering.spawn
    wavering.checks wavering.rounds (wavering.tie 0)
  checkGiven := false
  portFault := none

def outset : Moment := ⟨0, .never, .empty⟩

def repeated : List Demand := [.setup repeating, .launch repeating, .setup repeating]

/-- The second launch is given a document that could not be read, with the settings of the first. -/
theorem launch_hands_over_wavering :
    (((start outset).after repeated).launch repeating).life.launches =
        [⟨2, nearby.documentPath⟩, ⟨504, nearby.documentPath⟩] ∧
      ∃ failure, HandsOver nearby outset repeated
        ((start outset).after repeated) (Bytes.ofString "name: n") (.error failure) := by
  have built : Parts.assemble wavering .empty nearby = .ok repeating := by rfl
  have apart : ((start outset).setup repeating).life.moment.files.place? nearby.documentPath ≠
      ((start outset).setup repeating).life.moment.files.place? nearby.recordPath := by
    decide +kernel
  have orderly : Orderly nearby (start outset) repeated := orderly_again built apart
  have met : ask repeating ((start outset).after repeated) = .ok () := by decide +kernel
  obtain ⟨called, body, answer, hands⟩ := launch_hands_over built orderly (ask_eq_ok_iff.1 met)
  have file : ((start outset).after repeated).moment.files.named? nearby.documentPath =
      some (.file (Bytes.ofString "name: n") Sidecar.documentMode) := by decide +kernel
  obtain ⟨rfl, -⟩ := Os.Node.file.inj (Option.some.inj (hands.file.symm.trans file))
  have unread : (Engine.Settings.load ((start outset).after repeated).moment.files
      nearby.documentPath).toOption = none := by decide +kernel
  refine ⟨by decide +kernel, ?_⟩
  cases answer with
  | ok document => simp [hands.loaded, Except.toOption] at unread
  | error failure => exact ⟨failure, hands⟩

end StoreWarden.Life
