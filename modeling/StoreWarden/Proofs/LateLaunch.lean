import StoreWarden.Proofs.CancelledHandshake
import StoreWarden.Proofs.RunCourse

/-!
# Launches after the cancellation

Whether a run launches its member hangs on the document alone, and not on the cancellation: from the
moment in which the document has come, nothing looks at that before the launcher is called.  After
a handshake a launch comes after the cancellation exactly if the fetch that was in flight then has
still succeeded.
-/

set_option autoImplicit false

namespace StoreWarden

open Sidecar (Service)

namespace Handshake

/-- A fetch that succeeds is the last, and settles the result. -/
theorem Goes.result_of_fetched {h : Handshake} {rounds : Nat} {m last : Moment} {log : Log}
    {ending : Ending Engine.Settings} (goes : h.Goes rounds m log ending)
    (some_attempt : 1 ≤ h.fetchAttempts) {e : Exchange Path} {path : Path}
    (latest : log.fetches.getLast? = some e) (succeeded : e.ending = some (last, .ok path)) :
    ending = some (last, Engine.Settings.load last.files path) := by
  cases goes with
  | asking | stopped => cases latest
  | fetching asked successful stops =>
      obtain ⟨e', latest', never⟩ := stops
      obtain rfl := Option.some.inj (latest'.symm.trans latest)
      cases never.symm.trans succeeded
  | fetched asked successful stops =>
      rcases stops with ⟨e', latest', ended, -⟩ | ⟨refused, -⟩ | ⟨-, refused⟩
      · obtain rfl := Option.some.inj (latest'.symm.trans latest)
        obtain ⟨rfl, rfl⟩ := by simpa using ended.symm.trans succeeded
        rfl
      · cases refused
      · cases refused
  | unfetched asked successful stops =>
      rcases stops with ⟨e', latest', ended, -⟩ | ⟨-, -, idle, at_, -⟩ | ⟨zero, -⟩
      · obtain rfl := Option.some.inj (latest'.symm.trans latest)
        cases ended.symm.trans succeeded
      · rcases at_ with ⟨none', -⟩ | ⟨e', failure, latest', ended⟩
        · cases none'.symm.trans latest
        · obtain rfl := Option.some.inj (latest'.symm.trans latest)
          cases ended.symm.trans succeeded
      · omega

theorem Goes.fetched_of_ok {h : Handshake} {s : Service} {tie : Nat → Bool} {rounds : Nat}
    {m last : Moment} {log : Log} {document : Engine.Settings}
    (goes : h.Goes rounds m log (some (last, .ok document))) (lawful : log.Lawful h s tie m)
    (some_attempt : 1 ≤ h.fetchAttempts) (cancelled : last.isCancelled = true) :
    ∃ e path, log.fetches.getLast? = some e ∧ e.InFlight last ∧
      e.ending = some (last, .ok path) ∧ Engine.Settings.load last.files path = .ok document := by
  rcases goes.yields lawful some_attempt rfl cancelled with
    ⟨e, path, latest, flying, ended, load⟩ | ⟨e, failure, -, -, -, -, failed⟩ | ⟨failed, -⟩
  · exact ⟨e, path, latest, flying, ended, load.symm⟩
  · cases failed
  · cases failed

end Handshake

namespace Life

variable {p : Parts} {s : Life}

theorem run_launches (p : Parts) (s : Life) :
    (s.run p).life.launches = (s.attempt p).life.launches := by
  cases ended : (s.attempt p).answer with
  | none => rw [run_of_endless ended]
  | some answer => rw [run_of_answer ended]; rfl

theorem launches_of_clears {m : Moment} {document : Engine.Settings}
    (clears : Clears p s m document) :
    (s.run p).life.launches = s.launches ++ [⟨m.now, p.settings.documentPath⟩] := by
  rw [run_launches]
  exact (attempt_keeps clears).1

theorem launches_of_stuck (stuck : ∀ m document, ¬ Clears p s m document) :
    (s.run p).life.launches = s.launches := by
  rw [run_launches]
  have way := goes p s
  generalize s.attempt p = o at way ⊢
  cases way with
  | obtaining | unobtained | unprepared => rfl
  | launching clears | unlaunched clears | launched clears => exact absurd clears (stuck _ _)

/-- A fetch in flight at the cancellation still gives a document, and the launch can be prepared. -/
def FetchedLate (p : Parts) (log : Handshake.Log) : Prop :=
  ∃ e last path document, log.fetches.getLast? = some e ∧ e.InFlight last ∧
    e.ending = some (last, .ok path) ∧ Engine.Settings.load last.files path = .ok document ∧
    prepare p last.files document = .ok ()

/-- What a run launches: the member once, in the moment in which its document has come, cancelled or
not, or else nothing. -/
structure LaunchesBy (p : Parts) (s : Life) : Prop where
  once : ∀ m document, Clears p s m document →
    (s.run p).life.launches = s.launches ++ [⟨m.now, p.settings.documentPath⟩]
  never : (∀ m document, ¬ Clears p s m document) → (s.run p).life.launches = s.launches
  /-- After a handshake only a fetch in flight at the cancellation leads to a launch after it. -/
  late : ∀ (h : Handshake) (service : Service) (tie : Nat → Bool) (rounds : Nat),
    1 ≤ h.fetchAttempts → p.obtain s.moment = (h.run service tie rounds s.moment).ending →
    ∃ log : Handshake.Log, (h.run service tie rounds s.moment).asked = log.asked ∧
      log.Lawful h service tie s.moment ∧
      ((∃ m document, Clears p s m document ∧ m.isCancelled = true) ↔ FetchedLate p log)

/-- Whether a run launches its member does not hang on the cancellation but on its document. -/
theorem run_launchesBy (p : Parts) (s : Life) : LaunchesBy p s := by
  constructor
  case once => exact fun m document => launches_of_clears
  case never => exact launches_of_stuck
  case late =>
    intro h service tie rounds some_attempt obtains
    obtain ⟨log, asked, lawful, goes⟩ := h.run_goes service tie rounds s.moment
    refine ⟨log, asked, lawful, ?_⟩
    constructor
    · rintro ⟨m, document, clears, cancelled⟩
      rw [← obtains, clears.obtained] at goes
      obtain ⟨e, path, latest, flying, ended, load⟩ :=
        goes.fetched_of_ok lawful some_attempt cancelled
      exact ⟨e, m, path, document, latest, flying, ended, load, clears.prepared⟩
    · -- a fetch that has succeeded settles the result, whenever the cancellation came
      rintro ⟨e, last, path, document, latest, flying, ended, load, prepared⟩
      have obtained := obtains.trans (goes.result_of_fetched some_attempt latest ended)
      rw [load] at obtained
      exact ⟨last, document, ⟨obtained, prepared⟩, flying.2.1⟩

/-- A sidecar that takes its time over the document. -/
def slowDocument : Service where
  status _ _ := .immediate (.ok .successful)
  trigger _ _ _ := .immediate (.ok ())
  document _ _ := ⟨some 10, false, false, fun fs => (fs, .ok (Path.ofString "etcd.yaml"))⟩

/-- Parts that ask the slow sidecar, and whose member never says anything. -/
def silent : Parts where
  settings := .default
  obtain m := (Handshake.brisk.run slowDocument (fun _ => true) 2 m).ending
  launcher _ m := some (m, .ok (Engine.Member.launched m.now (fun _ => []) m.token))
  checkGiven := true
  portFault := none

def documented : Os.FileSystem :=
  Os.FileSystem.empty.plant (Path.ofString "etcd.yaml")
    (.file (Bytes.ofString "data-dir: /d") Os.defaultMode)

def doomed : Life := start ⟨0, .firingAt 5, documented⟩

/-- Cancelled at 5, the run launches its member at 10, with the document then fetched. -/
theorem run_launchesBy_slowDocument :
    (doomed.run silent).life.launches = [⟨10, Settings.default.documentPath⟩] ∧
      ∃ log : Handshake.Log, log.asked = [⟨0, .status⟩, ⟨0, .document⟩] ∧
        FetchedLate silent log := by
  have laws := run_launchesBy silent doomed
  have obtained : silent.obtain doomed.moment = some (⟨10, .firingAt 5, documented⟩,
      Engine.Settings.load documented (Path.ofString "etcd.yaml")) := by rfl
  have load : Engine.Settings.load documented (Path.ofString "etcd.yaml") =
      .ok { Engine.Settings.empty with dataDir := "/d" } := by decide +kernel
  rw [load] at obtained
  have clears : Clears silent doomed _ _ := ⟨obtained, by rfl⟩
  obtain ⟨log, asked, -, late⟩ :=
    laws.late Handshake.brisk slowDocument (fun _ => true) 2 (by decide) rfl
  refine ⟨laws.once _ _ clears, log, ?_, late.1 ⟨_, _, clears, by rfl⟩⟩
  rw [← asked]
  decide +kernel

end Life

end StoreWarden
