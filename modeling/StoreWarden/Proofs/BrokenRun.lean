import StoreWarden.Proofs.CheckedLaunch
import StoreWarden.Proofs.RunAnswer

/-!
# Runs that break an assumption

The parts of a run pass on what fails by its own kind, and a child process reports nothing but its
exit status.  So only obtaining the document can break an assumption, and of that only the reading:
the document has come as a whole, and has been stored.
-/

set_option autoImplicit false

namespace StoreWarden

open Engine (Member Supervisor)

theorem Engine.Supervisor.member_neverReports {s : Supervisor}
    {spawn : String → List Bytes → Except Os.Fault Engine.Child} {checks : Nat → Readiness.Check}
    {rounds : Nat} {tie : Bool} {document : Path} {m next : Moment} {b : Member} {d : Defect}
    (launched : s.start spawn checks rounds tie document m = some (next, .ok b)) :
    b.NeverReports (.defect d) := by
  obtain ⟨child, -, -, rfl⟩ := started launched
  apply Member.launched_neverReports
  intro token e mem told
  obtain ⟨status, same⟩ := eq_exited_of_mem_timeline told mem
  cases same

namespace Life

variable {w : World} {fs : Os.FileSystem} {settings : Settings} {p : Parts} {s : Life}
  {b : Member} {o : Outcome Unit} {d : Defect}

theorem Attends.unbroken (way : Attends p s b o) (never : b.NeverReports (.defect d)) :
    o.answer ≠ some (.error (.defect d)) := by
  intro broken
  cases way with
  | waiting | serving | cancelledEarly | tooLate | shutDown | aborted => cases broken
  | stoppedEarly ends =>
      refine (never.advance _ _).getD_takeFailure_ne ?_ (Except.error.inj (Option.some.inj broken))
      simp
  | failed ready ends =>
      refine ((never.advance _ _).advance _ _).getD_takeFailure_ne ?_
        (Except.error.inj (Option.some.inj broken))
      simp

/-- A run breaks an assumption just if obtaining the document does. -/
theorem run_breaks_iff (built : Parts.assemble w fs settings = .ok p) :
    (s.run p).answer = some (.error (.defect d)) ↔
      ∃ m, p.obtain s.moment = some (m, .error (.defect d)) := by
  have passed : (s.run p).answer = some (.error (.defect d)) ↔
      (s.attempt p).answer = some (.error (.defect d)) := by
    rw [run_answer, Option.map_eq_some_iff]
    simp [closing_eq_error_iff]
  rw [passed]
  constructor
  · intro broken
    have way := goes p s
    generalize s.attempt p = o at way broken
    cases way with
    | obtaining | launching => cases broken
    | unobtained failed =>
        obtain rfl := Except.error.inj (Option.some.inj broken)
        exact ⟨_, failed⟩
    | unprepared obtained failed =>
        obtain rfl := Except.error.inj (Option.some.inj broken)
        exact absurd failed ((ordinary_prepare p _ _).unbroken d)
    | unlaunched clears failed =>
        obtain rfl := Except.error.inj (Option.some.inj broken)
        rw [(Parts.assembled built).2.1] at failed
        unfold Supervisor.start at failed
        split at failed <;> cases failed
    | launched clears launched =>
        rw [(Parts.assembled built).2.1] at launched
        exact absurd broken ((attends p _ _).unbroken (Supervisor.member_neverReports launched))
  · rintro ⟨m, broken⟩
    simp only [attempt, setup, perform, broken, Outcome.andThen]

/-- A document that breaks an assumption has been fetched as a whole, and stored. -/
theorem fetched_of_breaks (built : Parts.assemble w fs settings = .ok p)
    (broken : (s.run p).answer = some (.error (.defect d))) :
    ∃ m body, FetchedLast w settings s.moment m body ∧
      m.files.named? settings.documentPath = some (.file body Sidecar.documentMode) ∧
      Engine.Settings.load m.files settings.documentPath = .error (.defect d) := by
  obtain ⟨m, obtained⟩ := (run_breaks_iff built).1 broken
  obtain ⟨body, brought⟩ | ⟨-, failure, failed, own⟩ := brought_or_kept built obtained
  · exact ⟨m, body, brought.fetched, brought.replaced.file, brought.loaded⟩
  · exact absurd (Except.error.inj failed).symm (own d)

end Life

end StoreWarden
