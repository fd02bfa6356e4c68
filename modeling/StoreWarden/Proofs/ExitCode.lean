import StoreWarden.Proofs.BrokenRun
import StoreWarden.Proofs.PrintableSettings
import StoreWarden.Proofs.ProcessEnd

/-!
# Exit codes

A command line that is refused, or whose settings are only printed or checked or are not valid, ends
before anything outside is touched, and in the same way in every world.  In every other case the
process runs, and its exit code is 0 in just those courses in which the parts of the run could be
put together, the run has ended in order and no second signal was handled before that.  Otherwise
it is 1, but for runs that end with a broken assumption.
-/

set_option autoImplicit false

namespace StoreWarden

open CommandLine (Refusal invocation)

theorem Settings.ordinary_validate (s : Settings) : Ordinary s.validate := by
  have sidecar : Ordinary s.sidecar.validate := by
    unfold SidecarSettings.validate
    split
    · exact .ok ()
    · exact Ordinary.error_iff.2 rfl
  refine sidecar.bind fun _ => ?_
  refine Ordinary.check rfl fun _ => Ordinary.check rfl fun _ => ?_
  split
  · exact Ordinary.error_iff.2 rfl
  · exact .ok ()

/-! ## Commands that end at once -/

/-- Nothing was asked for, started, bound or written. -/
structure Upshot.Idle (u : Upshot) (found : Os.FileSystem) : Prop where
  asked : u.asked = []
  launches : u.launches = []
  bound : u.bound = false
  files : u.files found = found

inductive Plan.Tells : Plan → Report → Prop
  | refuse (refusal : Refusal) : Tells (.refuse refusal) (.ofRefusal refusal)
  | print (text : Except Settings.PrintFault String) : Tells (.print text) (.ofText text)
  | tell (verdict : Except Failure Unit) : Tells (.tell verdict) (.ofVerdict verdict)
  | reject (failure : Failure) : Tells (.reject failure) (.ofFailure failure)

namespace World

/-- When the run with these settings ends and how, if it does.  One that cannot be put together
ends when it would begin. -/
def result (w : World) (s : Settings) (fs : Os.FileSystem) : Option (Nat × Except Failure Unit) :=
  match Parts.assemble w fs s with
  | .error failure => some (0, .error failure)
  | .ok parts =>
    let o := (Life.start (w.opening fs)).run parts
    o.answer.map fun answer => (o.life.moment.now, answer)

def Reaches (w : World) (s : Settings) (fs : Os.FileSystem) : Process → Prop :=
  Relation.ReflTransGen (Process.Step (w.result s fs)) (.start w.signals)

def Exits (w : World) (args : List Bytes) (env : CommandLine.Environment) (fs : Os.FileSystem)
    (code : Nat) : Prop :=
  match Plan.ofArguments args env with
  | .run s => ∃ p, w.Reaches s fs p ∧ p.code = some code
  | plan => (w.carryOut fs plan).report.map (·.code) = some code

/-- The parts of the run can be put together, and it ends in order. -/
def Succeeds (w : World) (s : Settings) (fs : Os.FileSystem) : Prop :=
  ∃ parts, Parts.assemble w fs s = .ok parts ∧
    ((Life.start (w.opening fs)).run parts).answer = some (.ok ())

def Breaks (w : World) (s : Settings) (fs : Os.FileSystem) : Prop :=
  ∃ parts d, Parts.assemble w fs s = .ok parts ∧
    ((Life.start (w.opening fs)).run parts).answer = some (.error (.defect d))

structure RunsOut (w : World) (s : Settings) (fs : Os.FileSystem) : Prop where
  code : ∀ p code, w.Reaches s fs p → p.code = some code →
    (code = 0 ∨ code = 1 ∨ code = Report.brokenCode) ∧
      (code = 0 ↔ w.Succeeds s fs ∧ p.handled.length ≤ 1) ∧
      (code = Report.brokenCode ↔ w.Breaks s fs ∧ p.handled.length ≤ 1)
  /-- A run breaks only on the document that it has fetched. -/
  breaks : w.Breaks s fs → ∃ m body d, Life.FetchedLast w s (w.opening fs) m body ∧
    m.files.named? s.documentPath = some (.file body Sidecar.documentMode) ∧
    Engine.Settings.load m.files s.documentPath = .error (.defect d)
  /-- Which of the two comes first decides, unless they come together. -/
  first : ∀ p last answer, w.Reaches s fs p → w.result s fs = some (last, answer) →
    (∀ t ∈ w.forcedAt, last < t) → p.handled.length ≤ 1
  second : ∀ p t, w.Reaches s fs p → w.forcedAt = some t → (∀ e ∈ w.result s fs, t < e.1) →
    p.code ≠ none → 1 < p.handled.length
  /-- The run is cancelled when its first signal comes. -/
  cancels : ∀ p, w.Reaches s fs p → (∀ t, (t, .cancel) ∈ p.acts → w.token = .firingAt t) ∧
    ∀ t, w.token = .firingAt t → t < p.now → (t, .cancel) ∈ p.acts
  /-- The process ends, unless the run does not and no second signal comes. -/
  halts : ∀ p, w.Reaches s fs p →
    (w.result s fs).isSome ∨ w.forcedAt.isSome →
      Acc (fun q p => Process.Step (w.result s fs) p q) p ∧
        ∃ q, Relation.ReflTransGen (Process.Step (w.result s fs)) p q ∧ q.code ≠ none
  endless : ∀ p, w.Reaches s fs p → w.result s fs = none → w.forcedAt = none → p.code = none

/-- Nothing is done but to end with this code. -/
structure EndsAtOnce (w : World) (args : List Bytes) (env : CommandLine.Environment)
    (fs : Os.FileSystem) (code : Nat) : Prop where
  idle : (w.upshot args env fs).Idle fs
  exits_iff : ∀ other, w.Exits args env fs other ↔ other = code

/-- How a command ends, in every course that it can take. -/
structure Ends (w : World) (args : List Bytes) (env : CommandLine.Environment)
    (fs : Os.FileSystem) : Prop where
  two : w.Exits args env fs 2 ↔
    ∃ refusal, invocation args env = .error refusal ∧ refusal ≠ .help ∧ refusal ≠ .version
  refused : ∀ refusal, invocation args env = .error refusal →
    w.EndsAtOnce args env fs refusal.exitCode
  printed : ∀ i, invocation args env = .ok i → i.printOnly = true →
    w.EndsAtOnce args env fs (if i.settings.isPrintable then 0 else 1)
  checked : ∀ i, invocation args env = .ok i → i.printOnly = false → i.validateOnly = true →
    w.EndsAtOnce args env fs (if i.settings.validate.isOk then 0 else 1)
  rejected : ∀ i failure, invocation args env = .ok i → i.printOnly = false →
    i.settings.validate = .error failure → w.EndsAtOnce args env fs 1
  /-- Where nothing runs, nothing outside makes a difference. -/
  alike : (∀ s, Plan.ofArguments args env ≠ .run s) →
    ∀ (other : World) (found : Os.FileSystem), other.upshot args env found = w.upshot args env fs
  ran : ∀ i, invocation args env = .ok i → i.printOnly = false → i.validateOnly = false →
    i.settings.validate = .ok () →
    w.RunsOut i.settings fs ∧ ∀ code, w.Exits args env fs code ↔
      ∃ p, w.Reaches i.settings fs p ∧ p.code = some code
  reported : ∀ report, (w.upshot args env fs).report = some report →
    w.Exits args env fs report.code
  silent : (w.upshot args env fs).report = none → ∀ code, ¬ w.Exits args env fs code

section Tells

variable {args : List Bytes} {env : CommandLine.Environment} {plan : Plan} {report : Report}

theorem upshot_of_tells (planned : Plan.ofArguments args env = plan) (tells : plan.Tells report) :
    ∃ told, told.code = report.code ∧
      ∀ (w : World) (fs : Os.FileSystem), w.upshot args env fs = .atOnce told := by
  have carried (w : World) (fs : Os.FileSystem) : w.carryOut fs plan = .atOnce report := by
    cases tells <;> rfl
  unfold upshot
  rw [planned]
  cases invocation args env with
  | error refusal => exact ⟨report, rfl, carried⟩
  | ok i =>
      refine ⟨{ report with err := i.warning ++ report.err }, rfl, ?_⟩
      intro w fs
      rw [carried]
      rfl

theorem endsAtOnce_of_tells (planned : Plan.ofArguments args env = plan)
    (tells : plan.Tells report) (w : World) (fs : Os.FileSystem) :
    w.EndsAtOnce args env fs report.code := by
  constructor
  case idle =>
      obtain ⟨told, -, upshot⟩ := upshot_of_tells planned tells
      rw [upshot]
      exact ⟨rfl, rfl, rfl, rfl⟩
  case exits_iff =>
      intro code
      unfold Exits
      rw [planned]
      cases tells <;> simp [carryOut, Upshot.atOnce, eq_comm]

theorem exits_of_run {s : Settings} (planned : Plan.ofArguments args env = .run s) (w : World)
    (fs : Os.FileSystem) (code : Nat) :
    w.Exits args env fs code ↔ ∃ p, w.Reaches s fs p ∧ p.code = some code := by
  unfold Exits
  rw [planned]

theorem report_of_run {s : Settings} (planned : Plan.ofArguments args env = .run s) (w : World)
    (fs : Os.FileSystem) :
    (w.upshot args env fs).report.map (·.code) = (w.run s fs).report.map (·.code) := by
  unfold upshot
  rw [planned]
  cases invocation args env with
  | error refusal => rfl
  | ok i => exact Option.map_map ..

theorem tells_or_run (plan : Plan) : (∃ report, plan.Tells report) ∨ ∃ s, plan = .run s := by
  cases plan with
  | refuse refusal => exact Or.inl ⟨_, .refuse refusal⟩
  | print text => exact Or.inl ⟨_, .print text⟩
  | tell verdict => exact Or.inl ⟨_, .tell verdict⟩
  | reject failure => exact Or.inl ⟨_, .reject failure⟩
  | run s => exact Or.inr ⟨s, rfl⟩

end Tells

/-! ## Processes with a run -/

section Run

variable {w : World} {s : Settings} {fs : Os.FileSystem}

theorem succeeds_iff : w.Succeeds s fs ↔ ∃ last, w.result s fs = some (last, .ok ()) := by
  unfold Succeeds result
  cases built : Parts.assemble w fs s with
  | error failure => simp
  | ok parts =>
      constructor
      · rintro ⟨other, same, ended⟩
        obtain rfl := Except.ok.inj same
        exact ⟨_, Option.map_eq_some_iff.2 ⟨_, ended, rfl⟩⟩
      · rintro ⟨last, ended⟩
        obtain ⟨answer, answered, same⟩ := Option.map_eq_some_iff.1 ended
        obtain rfl : answer = .ok () := congrArg Prod.snd same
        exact ⟨parts, rfl, answered⟩

theorem breaks_iff :
    w.Breaks s fs ↔ ∃ last d, w.result s fs = some (last, .error (.defect d)) := by
  unfold Breaks result
  cases built : Parts.assemble w fs s with
  | error failure =>
      have own (d : Defect) : failure ≠ .defect d := by
        rintro rfl
        exact (Parts.ordinary_assemble w fs s).unbroken d built
      simp [own]
  | ok parts =>
      constructor
      · rintro ⟨other, d, same, ended⟩
        obtain rfl := Except.ok.inj same
        exact ⟨_, d, Option.map_eq_some_iff.2 ⟨_, ended, rfl⟩⟩
      · rintro ⟨last, d, ended⟩
        obtain ⟨answer, answered, same⟩ := Option.map_eq_some_iff.1 ended
        obtain rfl : answer = .error (.defect d) := congrArg Prod.snd same
        exact ⟨parts, d, rfl, answered⟩

theorem token_eq_firingAt_iff {t : Nat} :
    w.token = .firingAt t ↔ w.signals.head?.map (·.1) = some t := by
  unfold token Cancellation.firingAt
  rw [Cancellation.mk.injEq]

theorem code_of_stands {p : Process} {code : Nat}
    (stands : Process.Stands w.signals (w.result s fs) p) (stops : p.code = some code) :
    (code = 0 ∨ code = 1 ∨ code = Report.brokenCode) ∧
      (code = 0 ↔ w.Succeeds s fs ∧ p.handled.length ≤ 1) ∧
      (code = Report.brokenCode ↔ w.Breaks s fs ∧ p.handled.length ≤ 1) := by
  rw [succeeds_iff, breaks_iff]
  rcases (stands.ended stops).code with
    ⟨same, ⟨last, ended⟩, few⟩ | ⟨same, ⟨last, d, ended⟩, few⟩ | ⟨same, other⟩
  · obtain rfl := Option.some.inj (stops.symm.trans same)
    exact ⟨Or.inl rfl, iff_of_true rfl ⟨⟨last, ended⟩, few⟩,
      iff_of_false (by decide) (by simp [ended])⟩
  · obtain rfl := Option.some.inj (stops.symm.trans same)
    exact ⟨Or.inr (Or.inr rfl), iff_of_false (by decide) (by simp [ended]),
      iff_of_true rfl ⟨⟨last, d, ended⟩, few⟩⟩
  · obtain rfl := Option.some.inj (stops.symm.trans same)
    refine ⟨Or.inr (Or.inl rfl), iff_of_false (by decide) ?_, iff_of_false (by decide) ?_⟩
    · rintro ⟨⟨last, orderly⟩, few⟩
      obtain ⟨_, _, -, ended⟩ := other few
      cases orderly.symm.trans ended
    · rintro ⟨⟨last, d, broken⟩, few⟩
      obtain ⟨_, failure, own, ended⟩ := other few
      rw [broken, Option.some.injEq, Prod.mk.injEq, Except.error.injEq] at ended
      exact own d ended.2.symm

theorem runsOut (ordered : w.signals.Pairwise (·.1 ≤ ·.1)) : w.RunsOut s fs := by
  have stands {p : Process} (reached : w.Reaches s fs p) :
      Process.Stands w.signals (w.result s fs) p := Process.stands_of_reaches ordered reached
  constructor
  case code => exact fun p code reached stops => code_of_stands (stands reached) stops
  case breaks =>
      rintro ⟨parts, d, built, ended⟩
      obtain ⟨m, body, fetched, file, broken⟩ := Life.fetched_of_breaks built ended
      exact ⟨m, body, d, fetched, file, broken⟩
  case first =>
      intro p last answer reached ended before
      rcases stands reached with open_ | stops
      · exact open_.handled
      · refine Nat.le_of_not_lt fun many => ?_
        obtain ⟨e, second, -, late⟩ := stops.of_second many
        have early := before e.1 (Option.map_eq_some_iff.2 ⟨e, second, rfl⟩)
        exact Nat.not_le.2 early (late _ ended)
  case second =>
      intro p t reached forced late stops
      obtain ⟨code, stops⟩ := Option.ne_none_iff_exists'.1 stops
      obtain ⟨e, second, rfl⟩ := Option.map_eq_some_iff.1 forced
      refine Nat.lt_of_not_le fun few => ?_
      obtain ⟨answer, ended, -, before⟩ := ((stands reached).ended stops).of_first ordered few
      exact Nat.not_le.2 (late _ ended) (before e second)
  case cancels =>
      intro p reached
      simp only [token_eq_firingAt_iff]
      exact (stands reached).cancel_mem
  case halts =>
      intro p reached ends
      obtain ⟨bound, ends⟩ : ∃ bound, (w.result s fs).map (·.1) = some bound ∨
          w.forcedAt = some bound := by
        rcases ends with ends | ends
        · obtain ⟨e, ended⟩ := Option.isSome_iff_exists.1 ends
          exact ⟨e.1, Or.inl (by rw [ended]; rfl)⟩
        · obtain ⟨t, forced⟩ := Option.isSome_iff_exists.1 ends
          exact ⟨t, Or.inr forced⟩
      have halts := (stands reached).halts ordered ends
      exact ⟨halts, Process.exists_end halts⟩
  case endless =>
      intro p reached never quiet
      cases stops : p.code with
      | none => rfl
      | some code =>
          have ended := (stands reached).ended stops
          rcases Nat.lt_or_ge 1 p.handled.length with second | few
          · obtain ⟨e, second, -⟩ := ended.of_second second
            simp [forcedAt, second] at quiet
          · obtain ⟨answer, same, -⟩ := ended.of_first ordered few
            cases never.symm.trans same

/-! ## Reports -/

variable (w s fs) in
theorem run_code : (w.run s fs).report.map (·.code) =
    match w.result s fs with
    | none => w.forcedAt.map fun _ => Shutdown.forcedExitCode
    | some (last, answer) =>
      if w.forcedAt.any (· < last) then some Shutdown.forcedExitCode
      else some (Report.ofAnswer answer).code := by
  unfold run result
  cases Parts.assemble w fs s with
  | error failure => cases forced : w.forcedAt <;> rfl
  | ok parts =>
      dsimp only
      cases ((Life.start (w.opening fs)).run parts).answer with
      | none => cases w.forcedAt <;> rfl
      | some answer =>
          cases w.forcedAt with
          | none => rfl
          | some t =>
              simp only [Option.map_some, Option.any_some, decide_eq_true_eq]
              split <;> rfl

theorem reported_run (ordered : w.signals.Pairwise (·.1 ≤ ·.1)) {code : Nat}
    (ends : (w.run s fs).report.map (·.code) = some code) :
    ∃ p, w.Reaches s fs p ∧ p.code = some code := by
  have runs : w.RunsOut s fs := runsOut ordered
  have forced (t : Nat) (comes : w.forcedAt = some t) (late : ∀ e ∈ w.result s fs, t < e.1) :
      ∃ p, w.Reaches s fs p ∧ p.code = some Shutdown.forcedExitCode := by
    obtain ⟨-, p, course, stops⟩ := runs.halts _ .refl (Or.inr (by rw [comes]; rfl))
    obtain ⟨code, stops'⟩ := Option.ne_none_iff_exists'.1 stops
    have second := runs.second p t course comes late stops
    have ⟨codes, zero, broken⟩ := runs.code p code course stops'
    have one : code = 1 := by
      rcases codes with none' | one | broken'
      · exact absurd (zero.1 none').2 (Nat.not_le.2 second)
      · exact one
      · exact absurd (broken.1 broken').2 (Nat.not_le.2 second)
    exact ⟨p, course, by rw [stops', one]; rfl⟩
  rw [run_code] at ends
  cases ended : w.result s fs with
  | none =>
      rw [ended] at ends
      obtain ⟨t, comes, rfl⟩ := Option.map_eq_some_iff.1 ends
      exact forced t comes (by simp [ended])
  | some result =>
      obtain ⟨last, answer⟩ := result
      simp only [ended] at ends
      split at ends
      · next early =>
          obtain rfl := Option.some.inj ends
          obtain ⟨t, comes, early⟩ := (Option.any_eq_true _ _).1 early
          refine forced t comes ?_
          rintro _ same
          obtain rfl := Option.some.inj (ended.symm.trans same)
          exact of_decide_eq_true early
      · next late =>
          obtain rfl := Option.some.inj ends
          refine Process.exists_returned ordered ended ?_
            (Process.stands_start.open rfl)
          intro e second
          refine Nat.le_of_not_lt fun early => late ?_
          exact (Option.any_eq_true _ _).2
            ⟨e.1, Option.map_eq_some_iff.2 ⟨e, second, rfl⟩, decide_eq_true early⟩

theorem exits_of_report {args : List Bytes} {env : CommandLine.Environment} {report : Report}
    (ordered : w.signals.Pairwise (·.1 ≤ ·.1))
    (ends : (w.upshot args env fs).report = some report) : w.Exits args env fs report.code := by
  rcases tells_or_run (Plan.ofArguments args env) with ⟨own, told⟩ | ⟨s, planned⟩
  · obtain ⟨_, code, same⟩ := upshot_of_tells rfl told
    rw [same] at ends
    obtain rfl := Option.some.inj ends
    exact ((endsAtOnce_of_tells rfl told w fs).exits_iff _).2 code
  · rw [exits_of_run planned]
    apply reported_run ordered
    rw [← report_of_run planned, ends]
    rfl

theorem silent_run (ordered : w.signals.Pairwise (·.1 ≤ ·.1))
    (silent : (w.run s fs).report = none) : ∀ p, w.Reaches s fs p → p.code = none := by
  intro p reached
  have never := run_code w s fs
  rw [silent] at never
  cases ended : w.result s fs with
  | none =>
      rw [ended] at never
      exact (runsOut ordered).endless p reached ended (Option.map_eq_none_iff.1 never.symm)
  | some result =>
      simp only [ended] at never
      split at never <;> cases never

/-! ## All commands -/

theorem exitCode_eq_two_iff (refusal : Refusal) :
    refusal.exitCode = 2 ↔ refusal ≠ .help ∧ refusal ≠ .version := by
  cases refusal <;> simp [Refusal.exitCode]

theorem ofRefusal_code (refusal : Refusal) :
    (Report.ofRefusal refusal).code = refusal.exitCode := by
  cases refusal <;> rfl

theorem ofText_code (text : Except Settings.PrintFault String) :
    (Report.ofText text).code = if text.isOk then 0 else 1 := by
  cases text <;> rfl

theorem ofVerdict_code (verdict : Except Failure Unit) :
    (Report.ofVerdict verdict).code = if verdict.isOk then 0 else 1 := by
  cases verdict <;> rfl

section Commands

variable {args : List Bytes} {env : CommandLine.Environment} {i : CommandLine.Invocation}

theorem plan_of_error {refusal : Refusal} (refused : invocation args env = .error refusal) :
    Plan.ofArguments args env = .refuse refusal := by
  simp only [Plan.ofArguments, refused]

theorem plan_of_ok (asks : invocation args env = .ok i) :
    Plan.ofArguments args env = i.plan := by
  simp only [Plan.ofArguments, asks]

theorem plan_of_valid (asks : invocation args env = .ok i) (print : i.printOnly = false)
    (check : i.validateOnly = false) (good : i.settings.validate = .ok ()) :
    Plan.ofArguments args env = .run i.settings := by
  rw [plan_of_ok asks, CommandLine.Invocation.plan, print, check, good]
  rfl

theorem endsAtOnce_of_refused {refusal : Refusal} (refused : invocation args env = .error refusal)
    (w : World) (fs : Os.FileSystem) : w.EndsAtOnce args env fs refusal.exitCode := by
  rw [← ofRefusal_code]
  exact endsAtOnce_of_tells (plan_of_error refused) (.refuse refusal) w fs

theorem endsAtOnce_of_printed (asks : invocation args env = .ok i) (print : i.printOnly = true)
    (w : World) (fs : Os.FileSystem) :
    w.EndsAtOnce args env fs (if i.settings.isPrintable then 0 else 1) := by
  have planned : Plan.ofArguments args env = .print i.settings.toToml := by
    rw [plan_of_ok asks, CommandLine.Invocation.plan, if_pos print]
  rw [← Settings.isOk_toToml, ← ofText_code]
  exact endsAtOnce_of_tells planned (.print _) w fs

theorem endsAtOnce_of_checked (asks : invocation args env = .ok i) (print : i.printOnly = false)
    (check : i.validateOnly = true) (w : World) (fs : Os.FileSystem) :
    w.EndsAtOnce args env fs (if i.settings.validate.isOk then 0 else 1) := by
  have planned : Plan.ofArguments args env = .tell i.settings.validate := by
    rw [plan_of_ok asks, CommandLine.Invocation.plan, print, check]
    rfl
  rw [← ofVerdict_code]
  exact endsAtOnce_of_tells planned (.tell _) w fs

theorem endsAtOnce_of_rejected {failure : Failure} (asks : invocation args env = .ok i)
    (print : i.printOnly = false) (bad : i.settings.validate = .error failure) (w : World)
    (fs : Os.FileSystem) : w.EndsAtOnce args env fs 1 := by
  cases check : i.validateOnly with
  | true =>
      have told := endsAtOnce_of_checked asks print check w fs
      rwa [bad] at told
  | false =>
      have planned : Plan.ofArguments args env = .reject failure := by
        rw [plan_of_ok asks, CommandLine.Invocation.plan, print, check, bad]
        rfl
      have own (d : Defect) : failure ≠ .defect d := by
        rintro rfl
        exact i.settings.ordinary_validate.unbroken d bad
      rw [← Process.ofFailure_code own]
      exact endsAtOnce_of_tells planned (.reject failure) w fs

theorem ne_two_of_exits (ordered : w.signals.Pairwise (·.1 ≤ ·.1))
    (asks : invocation args env = .ok i) {code : Nat} (exits : w.Exits args env fs code) :
    code ≠ 2 := by
  cases print : i.printOnly with
  | true =>
      rw [(endsAtOnce_of_printed asks print w fs).exits_iff] at exits
      split at exits <;> omega
  | false =>
      cases check : i.validateOnly with
      | true =>
          rw [(endsAtOnce_of_checked asks print check w fs).exits_iff] at exits
          split at exits <;> omega
      | false =>
          cases valid : i.settings.validate with
          | error failure =>
              rw [(endsAtOnce_of_rejected asks print valid w fs).exits_iff] at exits
              omega
          | ok _ =>
              rw [exits_of_run (plan_of_valid asks print check valid)] at exits
              obtain ⟨p, reached, stops⟩ := exits
              rcases ((runsOut ordered).code p code reached stops).1 with rfl | rfl | rfl <;> decide

theorem exits_two_iff (ordered : w.signals.Pairwise (·.1 ≤ ·.1)) : w.Exits args env fs 2 ↔
    ∃ refusal, invocation args env = .error refusal ∧ refusal ≠ .help ∧ refusal ≠ .version := by
  cases asks : invocation args env with
  | error refusal =>
      rw [(endsAtOnce_of_refused asks w fs).exits_iff, eq_comm, exitCode_eq_two_iff]
      simp
  | ok i => exact iff_of_false (fun exits => ne_two_of_exits ordered asks exits rfl) (by simp)

theorem upshot_alike (none' : ∀ s, Plan.ofArguments args env ≠ .run s) (w other : World)
    (fs found : Os.FileSystem) : other.upshot args env found = w.upshot args env fs := by
  rcases tells_or_run (Plan.ofArguments args env) with ⟨report, told⟩ | ⟨s, planned⟩
  · obtain ⟨_, -, same⟩ := upshot_of_tells rfl told
    rw [same, same]
  · exact absurd planned (none' s)

theorem not_exits_of_silent (ordered : w.signals.Pairwise (·.1 ≤ ·.1))
    (silent : (w.upshot args env fs).report = none) (code : Nat) : ¬ w.Exits args env fs code := by
  rcases tells_or_run (Plan.ofArguments args env) with ⟨own, told⟩ | ⟨s, planned⟩
  · obtain ⟨_, -, same⟩ := upshot_of_tells rfl told
    rw [same] at silent
    cases silent
  · rw [exits_of_run planned]
    rintro ⟨p, reached, stops⟩
    have never := report_of_run planned w fs
    rw [silent] at never
    cases (silent_run ordered (Option.map_eq_none_iff.1 never.symm) p reached).symm.trans stops

end Commands

end Run

/-- Every command ends with the right code, and one that does not run leaves all alone. -/
theorem command_ends (w : World) (args : List Bytes) (env : CommandLine.Environment)
    (fs : Os.FileSystem) (ordered : w.signals.Pairwise (·.1 ≤ ·.1)) : w.Ends args env fs where
  two := exits_two_iff ordered
  refused _ refused := endsAtOnce_of_refused refused w fs
  printed _ asks print := endsAtOnce_of_printed asks print w fs
  checked _ asks print check := endsAtOnce_of_checked asks print check w fs
  rejected _ _ asks print bad := endsAtOnce_of_rejected asks print bad w fs
  alike none' other found := upshot_alike none' w other fs found
  ran _ asks print check good :=
    ⟨runsOut ordered, exits_of_run (plan_of_valid asks print check good) w fs⟩
  reported _ ends := exits_of_report ordered ends
  silent silent code := not_exits_of_silent ordered silent code

/-- A world without a sidecar, in which the run is cancelled and then hurried. -/
def hurried : World where
  sidecar := .absent
  spawn _ _ := .error .missing
  checks _ := ⟨none, false⟩
  portFault := none
  signals := [(5, .terminate), (9, .interrupt)]
  rounds := 5
  tie _ := true

theorem command_ends_hurried : hurried.Ends [] [] .empty ∧ hurried.Exits [] [] .empty 0 := by
  have ends : hurried.Ends [] [] .empty := command_ends hurried [] [] .empty (by decide)
  refine ⟨ends, ?_⟩
  have report : (hurried.upshot [] [] .empty).report = some ⟨0, "", ""⟩ := by
    decide +kernel
  exact ends.reported _ report

/-- A world whose sidecar serves a document with a truth value for a key. -/
def misled : World where
  sidecar t _ := ⟨some 1, .ok ⟨.ok, none, ⟨some 0,
    .ok (Bytes.ofString (if t = 0 then "Successful" else "true: x"))⟩⟩⟩
  spawn _ _ := .error .missing
  checks _ := ⟨none, false⟩
  portFault := none
  signals := []
  rounds := 1
  tie _ := true

theorem exits_misled : ¬ ∀ code,
    misled.Exits (["--etcd-config-path", "doc"].map Bytes.ofString) [] .empty code →
      code = 0 ∨ code = 1 := by
  intro either
  have report : (misled.upshot (["--etcd-config-path", "doc"].map Bytes.ofString) []
      .empty).report = some ⟨Report.brokenCode, "", Defect.documentKey.message ++ "\n"⟩ := by
    decide +kernel
  rcases either _ (exits_of_report List.Pairwise.nil report) with none' | one
  · cases none'
  · cases one

end World

end StoreWarden
