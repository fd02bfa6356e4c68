import StoreWarden.Proofs.FailedHandshake
import StoreWarden.Proofs.HonestParts
import StoreWarden.Proofs.LateLaunch
import StoreWarden.Proofs.ReadyRecord

/-!
# A member starts with the document that was checked

The path that the launcher is given, the file behind it and the settings that were read from it come
from three parts of a run: the client of the sidecar, the setup and the launch.  After a setup they
agree, `Agrees`: the file holds the body that came back for the last request, as a whole, and the
settings kept are those of its bytes.  As long as nobody writes the file, another setup included,
this stays so, and a launch hands the launcher that very file.
-/

set_option autoImplicit false

namespace StoreWarden.Life

open Engine (Member)
open Sidecar (Client)

variable {w : World} {fs : Os.FileSystem} {settings : Settings} {p : Parts} {s : Life}
  {m next : Moment} {document : Engine.Settings} {body : Bytes}

/-! ## Setups -/

theorem setup_of_obtained (obtained : p.obtain s.moment = some (m, .ok document)) :
    s.setup p = ⟨{ s with moment := m, document := some document }, some (.ok ())⟩ := by
  simp only [setup, perform, obtained, Outcome.andThen, finish]

theorem obtained_of_setup (done : (s.setup p).answer = some (.ok ())) :
    ∃ m document, p.obtain s.moment = some (m, .ok document) := by
  unfold setup perform at done
  cases obtained : p.obtain s.moment with
  | none =>
      rw [obtained] at done
      cases done
  | some result =>
      obtain ⟨m, answer⟩ := result
      cases answer with
      | error failure =>
          rw [obtained] at done
          cases done
      | ok document => exact ⟨m, document, rfl⟩

theorem clears_iff : (∃ m document, Clears p s m document) ↔
    (s.setup p).answer = some (.ok ()) ∧ Equipped p (s.setup p).life := by
  constructor
  · rintro ⟨m, document, obtained, prepared⟩
    rw [setup_of_obtained obtained]
    exact ⟨rfl, document, rfl, prepared⟩
  · rintro ⟨done, equipped⟩
    obtain ⟨m, document, obtained⟩ := obtained_of_setup done
    rw [setup_of_obtained obtained] at equipped
    obtain ⟨other, given, prepared⟩ := equipped
    obtain rfl : document = other := Option.some.inj given
    exact ⟨m, document, obtained, prepared⟩

theorem attempt_of_setup (done : (s.setup p).answer = some (.ok ())) :
    s.attempt p = (s.setup p).life.begin p := by
  simp only [attempt, Outcome.andThen, done]

/-! ## The document of a run -/

theorem run_document (p : Parts) (s : Life) :
    (s.run p).life.document = (s.attempt p).life.document := by
  cases ended : (s.attempt p).answer with
  | none => rw [run_of_endless ended]
  | some answer => rw [run_of_answer ended]; rfl

theorem document_of_clears (clears : Clears p s m document) :
    (s.run p).life.document = some document := by
  rw [run_document]
  exact (attempt_keeps clears).2

theorem launch_of_not_equipped (bare : ¬ Equipped p s) : (s.launch p).life = s := by
  unfold launch
  cases given : s.document with
  | none => rfl
  | some document =>
      cases prepared : prepare p s.moment.files document with
      | error failure => simp only [prepared, finish]
      | ok done => exact absurd ⟨document, given, prepared⟩ bare

/-! ## What a handshake has fetched -/

def fetcher (settings : Settings) : Client :=
  ⟨settings.sidecar.baseAddress, settings.documentPath⟩

def opening (settings : Settings) : Handshake := { record := ⟨settings.recordPath⟩ }

/-- The handshake with the sidecar of a world, begun in a moment. -/
def opened (w : World) (settings : Settings) (m : Moment) : Course Engine.Settings :=
  (opening settings).run ((fetcher settings).service w.sidecar) w.tie w.rounds m

/-- A handshake begun in a moment has ended with a last fetch, which got a good response and the
body as a whole, and has stored it. -/
def FetchedLast (w : World) (settings : Settings) (begun m : Moment) (body : Bytes) : Prop :=
  ∃ (log : Handshake.Log) (e : Exchange Path) (response : Http.Response),
    (opened w settings begun).asked = log.asked ∧ log.fetches.getLast? = some e ∧
      e = .of ((fetcher settings).service w.sidecar).document e.number e.made ∧
      e.ending = some (m, .ok settings.documentPath) ∧
      (fetcher settings).Reply w.sidecar e.made.now .document body response

/-- What a setup that began in one moment has brought till another: the body of its last fetch,
stored in place of the document and of nothing else, and what was read from it. -/
structure Brought (w : World) (settings : Settings) (begun m : Moment) (body : Bytes)
    (answer : Except Failure Engine.Settings) : Prop where
  fetched : FetchedLast w settings begun m body
  replaced : begun.files.Replaced m.files settings.documentPath body Sidecar.documentMode
  loaded : Engine.Settings.load m.files settings.documentPath = answer

theorem brought_of_read {log : Handshake.Log} {e : Exchange Path} {path : Path}
    (asked : (opened w settings m).asked = log.asked) (latest : log.fetches.getLast? = some e)
    (call : e = .of ((fetcher settings).service w.sidecar).document e.number e.made)
    (found : e.made.files = m.files) (stored : e.ending = some (next, .ok path)) :
    path = settings.documentPath ∧
      ∃ body, Brought w settings m next body (Engine.Settings.load next.files path) := by
  have came := stored
  rw [call] at came
  obtain ⟨rfl, body, response, reply, file⟩ := Client.document_of_run_ok came
  obtain ⟨-, other, -, -, replaced⟩ :=
    (Client.document_allOrNothing (fetcher settings) w.sidecar e.number e.made).1.stored _ _ came
  obtain ⟨rfl, -⟩ := Os.Node.file.inj (Option.some.inj (file.symm.trans replaced.file))
  rw [found] at replaced
  exact ⟨rfl, body, ⟨log, e, response, asked, latest, call, stored, reply⟩, replaced, rfl⟩

/-- A setup has brought what it has read, or has left the files alone and broken no assumption. -/
theorem brought_or_kept {answer : Except Failure Engine.Settings}
    (built : Parts.assemble w fs settings = .ok p)
    (obtained : p.obtain m = some (next, answer)) :
    (∃ body, Brought w settings m next body answer) ∨
      next.files = m.files ∧ ∃ failure, answer = .error failure ∧ ∀ d, failure ≠ .defect d := by
  have ended : (opened w settings m).ending = some (next, answer) := by
    rw [(Parts.assembled built).2.2] at obtained
    exact obtained
  obtain ⟨log, asked, lawful, goes⟩ := (opening settings).run_goes
    ((fetcher settings).service w.sidecar) w.tie w.rounds m
  change (opening settings).Goes w.rounds m log (opened w settings m).ending at goes
  rw [ended] at goes
  have sparing := (fetcher settings).sparing_service w.sidecar
  cases goes.leaves lawful sparing (by simp [opening]) with
  | read latest call found stored =>
      obtain ⟨rfl, brought⟩ := brought_of_read asked latest call found stored
      exact Or.inl brought
  | @failed failure kept why =>
      refine Or.inr ⟨kept, failure, rfl, ?_⟩
      rintro d rfl
      obtain cancelled | ⟨e, -, call, failed⟩ := why
      · cases cancelled
      · rw [call] at failed
        have own := (fetcher settings).ordinary_call w.sidecar e.made.now .document
          (fetcher settings).ordinary_store
        obtain cancelled | ordinary := Call.ordinary_run own failed
        · cases cancelled
        · cases ordinary

/-! ## The file and the settings read from it -/

structure Agrees (settings : Settings) (s : Life) (document : Engine.Settings) (body : Bytes) :
    Prop where
  kept : s.document = some document
  file : s.moment.files.named? settings.documentPath = some (.file body Sidecar.documentMode)
  holds : s.moment.files.read settings.documentPath = .ok body
  loaded : ∀ fs : Os.FileSystem, fs.home = s.moment.files.home →
    fs.read settings.documentPath = .ok body →
      Engine.Settings.load fs settings.documentPath = .ok document
  placed : Text.isBlankString document.dataDir = false

/-- Nobody has written the file or replaced the settings since. -/
structure Untouched (settings : Settings) (s now : Life) : Prop where
  document : now.document = s.document
  home : now.moment.files.home = s.moment.files.home
  file : now.moment.files.named? settings.documentPath =
    s.moment.files.named? settings.documentPath

theorem Untouched.refl (settings : Settings) (s : Life) : Untouched settings s s :=
  ⟨rfl, rfl, rfl⟩

theorem read_of_stored {files : Os.FileSystem} {path : Path}
    (file : files.named? path = some (.file body Sidecar.documentMode)) :
    files.read path = .ok body :=
  Os.FileSystem.read_eq_ok_iff.2 ⟨_, file, by decide⟩

theorem agrees_of_load {now : Life} (kept : now.document = some document)
    (file : now.moment.files.named? settings.documentPath =
      some (.file body Sidecar.documentMode))
    (loaded : Engine.Settings.load now.moment.files settings.documentPath = .ok document) :
    Agrees settings now document body := by
  have holds := read_of_stored file
  refine ⟨kept, file, holds, ?_, Engine.Settings.dataDir_of_load loaded⟩
  intro fs home read
  rw [Engine.Settings.load_of_read home holds read]
  exact loaded

theorem Agrees.of_untouched {now : Life} (agrees : Agrees settings s document body)
    (same : Untouched settings s now) : Agrees settings now document body := by
  have file := same.file.trans agrees.file
  refine agrees_of_load (same.document.trans agrees.kept) file ?_
  exact agrees.loaded _ same.home (read_of_stored file)

theorem agrees_of_setup (built : Parts.assemble w fs settings = .ok p)
    (done : (s.setup p).answer = some (.ok ())) :
    ∃ document body, FetchedLast w settings s.moment (s.setup p).life.moment body ∧
      Agrees settings (s.setup p).life document body := by
  obtain ⟨m, document, obtained⟩ := obtained_of_setup done
  obtain ⟨body, brought⟩ | ⟨-, failure, failed, -⟩ := brought_or_kept built obtained
  · rw [setup_of_obtained obtained]
    exact ⟨document, body, brought.fetched,
      agrees_of_load rfl brought.replaced.file brought.loaded⟩
  · cases failed

/-! ## Launches -/

/-- The launcher is given the document that was fetched and checked, or is not called. -/
structure LaunchesChecked (w : World) (settings : Settings) (p : Parts) (s : Life) : Prop where
  /-- After a setup the file holds the last reply, and goes on to until somebody writes it. -/
  setup : (s.setup p).answer = some (.ok ()) → ∃ document body,
    FetchedLast w settings s.moment (s.setup p).life.moment body ∧
      ∀ now, Untouched settings (s.setup p).life now → Agrees settings now document body
  called : ∀ now : Life, Equipped p now →
    now.launch p =
      ((now.onceLaunched p now.moment).perform (p.launcher settings.documentPath)).andThen
        fun s b => awaitReady p s b
  uncalled : ∀ now : Life, ¬ Equipped p now → (now.launch p).life = now
  /-- A run that calls the launcher does so in the state in which its setup has ended. -/
  run : (s.run p).life.launches = s.launches ∨
    ((s.setup p).answer = some (.ok ()) ∧ Equipped p (s.setup p).life ∧
      s.attempt p = (s.setup p).life.begin p ∧
      (s.run p).life.launches =
        s.launches ++ [⟨(s.setup p).life.moment.now, settings.documentPath⟩] ∧
      (s.run p).life.document = (s.setup p).life.document)

theorem launches_checked (built : Parts.assemble w fs settings = .ok p) (s : Life) :
    LaunchesChecked w settings p s := by
  have own : p.settings = settings := (Parts.assembled built).1
  constructor
  case setup =>
    intro done
    obtain ⟨document, body, fetched, agrees⟩ := agrees_of_setup built done
    exact ⟨document, body, fetched, fun now same => agrees.of_untouched same⟩
  case called =>
    intro now equipped
    rw [launch_of_equipped equipped, own]
  case uncalled => exact fun now => launch_of_not_equipped
  case run =>
    by_cases clears : ∃ m document, Clears p s m document
    · obtain ⟨done, equipped⟩ := clears_iff.1 clears
      obtain ⟨m, document, clears⟩ := clears
      have after := setup_of_obtained clears.obtained
      refine Or.inr ⟨done, equipped, attempt_of_setup done, ?_, ?_⟩
      · rw [launches_of_clears clears, own, after]
      · rw [document_of_clears clears, after]
    · push Not at clears
      exact Or.inl (launches_of_stuck clears)

/-- A sidecar whose document breaks off at first. -/
def faltering : World where
  sidecar t _ := ⟨some 1, .ok ⟨.ok, none, ⟨some 0,
    if t = 0 then .ok (Bytes.ofString "Successful")
    else if t < 1000 then .error .body
    else .ok (Bytes.ofString "data-dir: /d")⟩⟩⟩
  spawn _ _ := .ok ⟨none, none⟩
  checks _ := ⟨none, false⟩
  portFault := none
  signals := []
  rounds := 1
  tie _ := true

def nearby : Settings :=
  { Settings.default with
    recordPath := .ofString "exit_code", documentPath := .ofString "etcd.yaml" }

/-- A run that finds an older and longer document. -/
def revisited : Life :=
  start ⟨0, .never, Os.FileSystem.empty.plant (.ofString "etcd.yaml")
    (.file (Bytes.ofString "data-dir: /d/elsewhere") Os.defaultMode)⟩

def facing : Parts where
  settings := nearby
  obtain m := (opened faltering nearby m).ending
  launcher := Engine.Supervisor.start { program := nearby.program } faltering.spawn
    faltering.checks faltering.rounds (faltering.tie 0)
  checkGiven := false
  portFault := none

/-- Of the older document nothing is left when the launcher is called, after two fetches. -/
theorem launches_checked_faltering :
    (revisited.run facing).life.launches = [⟨1003, nearby.documentPath⟩] ∧
      ∃ document, FetchedLast faltering nearby revisited.moment
          (revisited.setup facing).life.moment (Bytes.ofString "data-dir: /d") ∧
        Agrees nearby (revisited.setup facing).life document (Bytes.ofString "data-dir: /d") := by
  have built : Parts.assemble faltering .empty nearby = .ok facing := by rfl
  have laws := launches_checked built revisited
  have done : (revisited.setup facing).answer = some (.ok ()) := by decide +kernel
  obtain ⟨document, body, fetched, agrees⟩ := laws.setup done
  have agrees := agrees _ (.refl nearby _)
  have read : (revisited.setup facing).life.moment.files.read nearby.documentPath =
      .ok (Bytes.ofString "data-dir: /d") := by decide +kernel
  obtain rfl := Except.ok.inj (read.symm.trans agrees.holds)
  exact ⟨by decide +kernel, document, fetched, agrees⟩

end StoreWarden.Life
