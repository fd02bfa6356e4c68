import Mathlib.Logic.Relation
import StoreWarden.Lifecycle
import StoreWarden.Proofs.ChildEnd

/-!
# How the end of a child is told

One task looks after the child, as in `Child.Step`, and once it has collected an exit status it
queues a failure, unless that is a success, and then fires the stop.  Another one watches for the
member to serve and may fire that at any time, even after the stop.  The main task waits until the
member serves, and then on the member; whenever it is woken it looks at what it waits for in a fixed
order: at the cancellation first, and at the stop only after what makes the stop worth telling.

The three go in any order, one at a time.  The time is that of the child.
-/

set_option autoImplicit false

namespace StoreWarden.Engine.ExitReport

/-- Where the task is that looks after the child. -/
inductive Duty where
  | caring
  | telling (status : ExitStatus)
  | stopping
  | finished
deriving DecidableEq, Repr

/-- Where the main task is. -/
inductive Place where
  | starting
  | refused (failure : Failure)
  | attending
  | returned (answer : Except Failure Unit)

def Place.IsOpen : Place → Prop
  | starting | attending => True
  | refused _ | returned _ => False

structure Scene where
  care : Child.Care
  duty : Duty
  told : List (Report × Delivery)
  reports : Reports
  place : Place

namespace Scene

def start (begun : Nat) : Scene := ⟨⟨begun, .watching, []⟩, .caring, [], .none, .starting⟩

def tell (s : Scene) (report : Report) (duty : Duty) : Scene :=
  { s with
    duty
    told := s.told ++ [(report, (s.reports.receive report).2)]
    reports := (s.reports.receive report).1 }

end Scene

/-- The child is gone, and this is how it has ended. -/
def Ended (care : Child.Care) (status : ExitStatus) : Prop :=
  care.stage = .gone ∧ (care.now, .collected status) ∈ care.deeds

section
variable (c : Child) (begun grace : Nat) (token : Cancellation) (limit : Option Nat)

inductive Own : Scene → Scene → Prop
  | cares {s : Scene} {care : Child.Care} (step : c.Step begun grace token s.care care) :
      Own s { s with care }
  | collects {s : Scene} {status : ExitStatus} (duty : s.duty = .caring)
      (ended : Ended s.care status) :
      Own s { s with duty := if status.isSuccess then .stopping else .telling status }
  | tells {s : Scene} {status : ExitStatus} (duty : s.duty = .telling status) :
      Own s (s.tell (.failure (.engine (.exited status))) .stopping)
  | stops {s : Scene} (duty : s.duty = .stopping) : Own s (s.tell .stopped .finished)
  | calledOff {s : Scene} (fired : token.isFired s.care.now = true) (place : s.place = .starting) :
      Own s { s with place := .refused .cancelled }
  | serves {s : Scene} (free : token.isFired s.care.now = false) (place : s.place = .starting)
      (ready : s.reports.ready = true) : Own s { s with place := .attending }
  | stopsEarly {s : Scene} (free : token.isFired s.care.now = false) (place : s.place = .starting)
      (unready : s.reports.ready = false) (stopped : s.reports.stopped = true) :
      Own s { s with
        reports := s.reports.takeFailure.1
        place := .refused (s.reports.takeFailure.2.getD (.engine .stoppedEarly)) }
  | tooLate {s : Scene} {seconds : Nat} (free : token.isFired s.care.now = false)
      (place : s.place = .starting) (unready : s.reports.ready = false)
      (running : s.reports.stopped = false) (limited : limit = some seconds)
      (late : begun + 1000 * seconds ≤ s.care.now) :
      Own s { s with place := .refused (.engine (.notReadyWithin seconds)) }
  | leaves {s : Scene} (fired : token.isFired s.care.now = true) (place : s.place = .attending) :
      Own s { s with place := .returned (.ok ()) }
  | fails {s : Scene} {failure : Failure} (free : token.isFired s.care.now = false)
      (place : s.place = .attending) (queued : s.reports.takeFailure.2 = some failure) :
      Own s { s with
        reports := s.reports.takeFailure.1
        place := .returned (.error failure) }
  | aborts {s : Scene} (free : token.isFired s.care.now = false) (place : s.place = .attending)
      (quiet : s.reports.takeFailure.2 = none) (stopped : s.reports.stopped = true) :
      Own s { s with place := .returned (.error (.engine .aborted)) }

inductive Step : Scene → Scene → Prop
  | own {s t : Scene} (step : Own c begun grace token limit s t) : Step s t
  | ready {s : Scene} (unready : s.reports.ready = false) :
      Step s { s with reports := (s.reports.receive .ready).1 }

def Reaches : Scene → Prop :=
  Relation.ReflTransGen (Step c begun grace token limit) (.start begun)

end

/-! ## What is known -/

/-- The failure that an exit status calls for. -/
def failure? (status : ExitStatus) : Option Failure :=
  if status.isSuccess then none else some (.engine (.exited status))

/-- All that is reported of an exit, in order. -/
def dues (status : ExitStatus) : List Report :=
  (failure? status).toList.map .failure ++ [.stopped]

/-- What has been told of an exit at each stage. -/
def toldBy (status : ExitStatus) : Duty → List (Report × Delivery)
  | .caring | .telling _ => []
  | .stopping => (failure? status).toList.map fun failure => (.failure failure, .sent)
  | .finished => (dues status).map (·, .sent)

structure Tells (status : ExitStatus) (s : Scene) : Prop where
  told : s.told = toldBy status s.duty
  stopped : s.reports.stopped = true ↔ s.duty = .finished
  telling : ∀ other, s.duty = .telling other → other = status ∧ status.isSuccess = false
  ended : s.duty ≠ .caring → Ended s.care status

/-- The failures among what has been told. -/
def queued (told : List (Report × Delivery)) : List Failure :=
  told.filterMap fun entry => match entry.1 with
    | .failure failure => some failure
    | _ => none

/-- How the main task may have ended, and why. -/
inductive Answers (begun : Nat) (token : Cancellation) (limit : Option Nat) (care : Child.Care) :
    Place → Prop
  | starting : Answers begun token limit care .starting
  | attending : Answers begun token limit care .attending
  | calledOff (fired : token.isFired care.now = true) :
      Answers begun token limit care (.refused .cancelled)
  | left (fired : token.isFired care.now = true) :
      Answers begun token limit care (.returned (.ok ()))
  | tooLate {seconds : Nat} (limited : limit = some seconds)
      (late : begun + 1000 * seconds ≤ care.now) :
      Answers begun token limit care (.refused (.engine (.notReadyWithin seconds)))
  | failedEarly {status : ExitStatus} (ended : Ended care status)
      (fails : status.isSuccess = false) :
      Answers begun token limit care (.refused (.engine (.exited status)))
  | failed {status : ExitStatus} (ended : Ended care status) (fails : status.isSuccess = false) :
      Answers begun token limit care (.returned (.error (.engine (.exited status))))
  | stoppedEarly {status : ExitStatus} (ended : Ended care status)
      (succeeds : status.isSuccess = true) :
      Answers begun token limit care (.refused (.engine .stoppedEarly))
  | stopped {status : ExitStatus} (ended : Ended care status)
      (succeeds : status.isSuccess = true) :
      Answers begun token limit care (.returned (.error (.engine .aborted)))

variable {c : Child} {begun grace : Nat} {token : Cancellation} {limit : Option Nat}
  {s t : Scene} {status : ExitStatus}

structure Stands (c : Child) (begun grace : Nat) (token : Cancellation) (limit : Option Nat)
    (s : Scene) : Prop where
  care : c.Stands begun grace token s.care
  tells : ∃ status, Tells status s
  attended : s.reports.failures.unattended = false ∧ s.reports.failures.closed = false
  items : s.place.IsOpen → s.reports.failures.items = queued s.told
  few : s.reports.failures.items.length ≤ s.told.length
  answers : Answers begun token limit s.care s.place

/-! ## Reports -/

theorem receive_failure {r : Reports}
    (attended : r.failures.unattended = false ∧ r.failures.closed = false)
    (room : r.failures.items.length < queueCapacity) (failure : Failure) :
    (r.receive (.failure failure)).2 = .sent ∧
      (r.receive (.failure failure)).1.failures.items = r.failures.items ++ [failure] ∧
      (r.receive (.failure failure)).1.stopped = r.stopped ∧
      (r.receive (.failure failure)).1.failures.unattended = false ∧
      (r.receive (.failure failure)).1.failures.closed = false := by
  simp [Reports.receive, Mailbox.send, attended, room]

theorem receive_latch {r : Reports} (attended : r.failures.unattended = false) :
    r.receive .stopped = ({ r with stopped := true }, .sent) ∧
      r.receive .ready = ({ r with ready := true }, .sent) := by
  simp [Reports.receive, attended]

theorem takeFailure_eq (r : Reports) : r.takeFailure.2 = r.failures.items.head? ∧
    r.takeFailure.1.failures.items = r.failures.items.tail ∧
      r.takeFailure.1.stopped = r.stopped ∧
      r.takeFailure.1.failures.unattended = r.failures.unattended ∧
      r.takeFailure.1.failures.closed = r.failures.closed := by
  obtain ⟨ready, stopped, items, unattended, closed, fits⟩ := r
  cases items <;> simp [Reports.takeFailure, Mailbox.take]

/-! ## Single steps -/

theorem Ended.not_step {care next : Child.Care} (ended : Ended care status) :
    ¬ c.Step begun grace token care next := by
  intro step
  obtain ⟨gone, -⟩ := ended
  cases step <;> cases gone

theorem le_of_care {care next : Child.Care} (step : c.Step begun grace token care next) :
    care.now ≤ next.now := by
  cases step <;> simp

theorem Answers.cares {care next : Child.Care} {place : Place}
    (answers : Answers begun token limit care place)
    (step : c.Step begun grace token care next) : Answers begun token limit next place := by
  have later := le_of_care step
  cases answers with
  | starting => exact .starting
  | attending => exact .attending
  | calledOff fired => exact .calledOff (Cancellation.isFired_mono later fired)
  | left fired => exact .left (Cancellation.isFired_mono later fired)
  | tooLate limited late => exact .tooLate limited (late.trans later)
  | failedEarly ended | failed ended | stoppedEarly ended | stopped ended =>
      exact absurd step ended.not_step

theorem failure?_of_success (succeeds : status.isSuccess = true) : failure? status = none := by
  simp [failure?, succeeds]

theorem failure?_of_failing (fails : status.isSuccess = false) :
    failure? status = some (.engine (.exited status)) := by
  simp [failure?, fails]

theorem queued_append (first second : List (Report × Delivery)) :
    queued (first ++ second) = queued first ++ queued second :=
  List.filterMap_append

theorem queued_toldBy_finished (status : ExitStatus) :
    queued (toldBy status .finished) = (failure? status).toList := by
  cases succeeds : status.isSuccess <;> simp [toldBy, queued, dues, failure?, succeeds]

/-- A failure that has been queued is that of the exit. -/
theorem Tells.mem_queued {failure : Failure} (tells : Tells status s)
    (there : failure ∈ queued s.told) :
    Ended s.care status ∧ status.isSuccess = false ∧ failure = .engine (.exited status) := by
  rw [tells.told] at there
  have busy : s.duty ≠ .caring := by
    intro caring
    rw [caring] at there
    simp [toldBy, queued] at there
  refine ⟨tells.ended busy, ?_⟩
  cases succeeds : status.isSuccess with
  | true => cases duty : s.duty <;> simp [duty, toldBy, queued, dues, failure?, succeeds] at there
  | false =>
      refine ⟨rfl, ?_⟩
      cases duty : s.duty with
      | caring | telling => simp [duty, toldBy, queued] at there
      | stopping | finished => simpa [duty, toldBy, queued, dues, failure?, succeeds] using there

/-! ## Steps of the main task -/

theorem Tells.of_eq {next : Scene} (tells : Tells status s) (care : next.care = s.care)
    (duty : next.duty = s.duty) (told : next.told = s.told)
    (stopped : next.reports.stopped = s.reports.stopped) : Tells status next := by
  constructor
  · rw [told, duty]
    exact tells.told
  · rw [stopped, duty]
    exact tells.stopped
  · rw [duty]
    exact tells.telling
  · rw [care, duty]
    exact tells.ended

/-- The main task goes on, or ends without a failure taken. -/
theorem Stands.goes {place : Place} (stands : Stands c begun grace token limit s)
    (on : s.place.IsOpen) (answers : Answers begun token limit s.care place) :
    Stands c begun grace token limit { s with place } := by
  obtain ⟨status, tells⟩ := stands.tells
  exact ⟨stands.care, ⟨status, tells.of_eq rfl rfl rfl rfl⟩, stands.attended,
    fun _ => stands.items on, stands.few, answers⟩

/-- The main task ends and takes a failure, if there is one. -/
theorem Stands.takes {place : Place} (stands : Stands c begun grace token limit s)
    (off : ¬ place.IsOpen) (answers : Answers begun token limit s.care place) :
    Stands c begun grace token limit
      { s with reports := s.reports.takeFailure.1, place } := by
  obtain ⟨-, items, stopped, unattended, closed⟩ := takeFailure_eq s.reports
  obtain ⟨status, tells⟩ := stands.tells
  refine ⟨stands.care, ⟨status, tells.of_eq rfl rfl rfl stopped⟩, ?_, fun on => absurd on off, ?_,
    answers⟩
  · rw [unattended, closed]
    exact stands.attended
  · rw [items, List.length_tail]
    exact (Nat.sub_le _ 1).trans stands.few

/-- What the main task finds queued once the stop has been fired. -/
theorem Stands.found (stands : Stands c begun grace token limit s) (on : s.place.IsOpen)
    (stopped : s.reports.stopped = true) :
    ∃ status, Ended s.care status ∧ s.reports.takeFailure.2 = failure? status := by
  -- nothing has been taken yet, and the failure was queued before the stop was fired
  obtain ⟨status, tells⟩ := stands.tells
  have finished := tells.stopped.1 stopped
  refine ⟨status, tells.ended (by simp [finished]), ?_⟩
  rw [(takeFailure_eq s.reports).1, stands.items on, tells.told, finished, queued_toldBy_finished]
  cases failure? status <;> rfl

/-! ## Steps of the task that looks after the child -/

theorem Stands.collects (stands : Stands c begun grace token limit s) (duty : s.duty = .caring)
    (ended : Ended s.care status) : Stands c begun grace token limit
      { s with duty := if status.isSuccess then .stopping else .telling status } := by
  obtain ⟨other, tells⟩ := stands.tells
  have told : s.told = [] := by rw [tells.told, duty]; rfl
  have running : s.reports.stopped = false := by
    rw [← Bool.not_eq_true, tells.stopped, duty]
    simp
  refine ⟨stands.care, ⟨status, ?_, ?_, ?_, fun _ => ended⟩, stands.attended, stands.items,
    stands.few, stands.answers⟩ <;> cases succeeds : status.isSuccess
  · simp [told, toldBy]
  · simp [told, toldBy, failure?, succeeds]
  · simp [running]
  · simp [running]
  · simp [eq_comm]
  · simp

theorem Stands.tellsFailure (stands : Stands c begun grace token limit s)
    (duty : s.duty = .telling status) :
    Stands c begun grace token limit (s.tell (.failure (.engine (.exited status))) .stopping) := by
  obtain ⟨other, tells⟩ := stands.tells
  obtain ⟨rfl, fails⟩ := tells.telling status duty
  have told : s.told = [] := by rw [tells.told, duty]; rfl
  have empty : s.reports.failures.items = [] := by
    have few := stands.few
    rw [told] at few
    exact List.eq_nil_of_length_eq_zero (Nat.le_zero.1 few)
  obtain ⟨sent, items, stopped, unattended, closed⟩ :=
    receive_failure stands.attended (by rw [empty]; decide) (.engine (.exited status))
  rw [empty, List.nil_append] at items
  refine ⟨stands.care, ⟨status, ?_, ?_, by simp [Scene.tell], fun _ => ?_⟩, ⟨unattended, closed⟩,
    fun _ => ?_, ?_, stands.answers⟩
  · simp [Scene.tell, told, sent, toldBy, failure?_of_failing fails]
  · simp only [Scene.tell, stopped, tells.stopped, duty, reduceCtorEq]
  · exact tells.ended (by simp [duty])
  · simp only [Scene.tell, items, told]
    rfl
  · simp [Scene.tell, items]

theorem Stands.fires (stands : Stands c begun grace token limit s) (duty : s.duty = .stopping) :
    Stands c begun grace token limit (s.tell .stopped .finished) := by
  obtain ⟨status, tells⟩ := stands.tells
  have told := tells.told
  rw [duty] at told
  simp only [Scene.tell, (receive_latch stands.attended.1).1]
  refine ⟨stands.care, ⟨status, ?_, by simp, by simp, fun _ => tells.ended (by simp [duty])⟩,
    stands.attended, fun on => ?_, ?_, stands.answers⟩
  · simp only [told, toldBy, dues, List.map_append, List.map_map, List.map_cons, List.map_nil,
      Function.comp_def]
  · rw [queued_append, stands.items on]
    exact (List.append_nil _).symm
  · exact stands.few.trans (by simp)

theorem Stands.own (stands : Stands c begun grace token limit s)
    (own : Own c begun grace token limit s t) : Stands c begun grace token limit t := by
  -- a main task that ends on the stop, or on a failure, ends with that of the exit
  cases own with
  | cares step =>
      obtain ⟨status, tells⟩ := stands.tells
      refine ⟨stands.care.step step, ⟨status, tells.told, tells.stopped, tells.telling, ?_⟩,
        stands.attended, stands.items, stands.few, stands.answers.cares step⟩
      intro busy
      exact absurd step (tells.ended busy).not_step
  | collects duty ended => exact stands.collects duty ended
  | tells duty => exact stands.tellsFailure duty
  | stops duty => exact stands.fires duty
  | calledOff fired place => exact stands.goes (by simp [place, Place.IsOpen]) (.calledOff fired)
  | serves free place ready => exact stands.goes (by simp [place, Place.IsOpen]) .attending
  | stopsEarly free place unready stopped =>
      obtain ⟨status, ended, found⟩ := stands.found (by simp [place, Place.IsOpen]) stopped
      refine stands.takes (by simp [Place.IsOpen]) ?_
      rw [found]
      cases succeeds : status.isSuccess with
      | true =>
          rw [failure?_of_success succeeds]
          exact .stoppedEarly ended succeeds
      | false =>
          rw [failure?_of_failing succeeds]
          exact .failedEarly ended succeeds
  | tooLate free place unready running limited late =>
      exact stands.goes (by simp [place, Place.IsOpen]) (.tooLate limited late)
  | leaves fired place => exact stands.goes (by simp [place, Place.IsOpen]) (.left fired)
  | @fails failure free place there =>
      obtain ⟨status, tells⟩ := stands.tells
      rw [(takeFailure_eq s.reports).1, stands.items (by simp [place, Place.IsOpen])] at there
      obtain ⟨ended, fails, rfl⟩ := tells.mem_queued (List.mem_of_head? there)
      exact stands.takes (by simp [Place.IsOpen]) (.failed ended fails)
  | aborts free place quiet stopped =>
      have on : s.place.IsOpen := by simp [place, Place.IsOpen]
      obtain ⟨status, ended, found⟩ := stands.found on stopped
      refine stands.goes on (.stopped ended ?_)
      cases succeeds : status.isSuccess with
      | true => rfl
      | false =>
          rw [found, failure?_of_failing succeeds] at quiet
          cases quiet

theorem Stands.step (stands : Stands c begun grace token limit s)
    (step : Step c begun grace token limit s t) : Stands c begun grace token limit t := by
  cases step with
  | own own => exact stands.own own
  | ready unready =>
      obtain ⟨status, tells⟩ := stands.tells
      rw [(receive_latch stands.attended.1).2]
      exact ⟨stands.care, ⟨status, tells.of_eq rfl rfl rfl rfl⟩, stands.attended, stands.items,
        stands.few, stands.answers⟩

theorem stands_of_reaches (reached : Reaches c begun grace token limit s) :
    Stands c begun grace token limit s := by
  induction reached with
  | refl =>
      exact ⟨Child.stands_of_reaches .refl, ⟨.code 0, rfl, by simp [Scene.start, Reports.none],
        by simp [Scene.start], by simp [Scene.start]⟩, ⟨rfl, rfl⟩, fun _ => rfl, Nat.le_refl _,
        .starting⟩
  | tail _ step ih => exact ih.step step

/-! ## Courses end -/

theorem le_earliest {a b : Option Nat} {n e : Nat} (first : ∀ u ∈ a, n ≤ u)
    (second : ∀ u ∈ b, n ≤ u) (same : earliest a b = some e) : n ≤ e := by
  cases a with
  | none => exact second e same
  | some u =>
      cases b with
      | none => exact first e same
      | some v =>
          obtain rfl := Option.some.inj same
          exact Nat.le_min.2 ⟨first u rfl, second v rfl⟩

/-- Time does not go past the end of the child. -/
theorem now_le {care : Child.Care} (stands : c.Stands begun grace token care) {tie : Bool} {e : Nat}
    (ends : (c.fate begun grace token tie).stopped.map (·.1) = some e) : care.now ≤ e := by
  have asked {n t : Nat} (seen : token.seenFrom begun = some t)
      (runs : ∀ e ∈ c.endOnceAsked begun t, n ≤ e.1) (within : n ≤ t + grace) : n ≤ e := by
    rw [Child.fate_time, Child.leaves_of_seen seen, seen] at ends
    refine le_earliest ?_ (by simpa using within) ends
    intro u mem
    obtain ⟨found, there, rfl⟩ := Option.map_eq_some_iff.1 mem
    exact runs found there
  cases stands with
  | watching from_ runs free =>
      rw [Child.fate_time] at ends
      refine le_earliest (fun u mem => le_earliest ?_ ?_ mem) ?_ ends
      · rw [← Child.endFrom_time]
        simpa using runs
      · intro v mem
        obtain ⟨t, seen, later⟩ := Option.bind_eq_some_iff.1 mem
        obtain ⟨given, -, rfl⟩ := Option.map_eq_some_iff.1 later
        exact (free t seen).trans (Nat.le_add_right _ _)
      · intro v mem
        obtain ⟨t, seen, rfl⟩ := Option.map_eq_some_iff.1 mem
        exact (free t seen).trans (Nat.le_add_right _ _)
  | asking seen runs => exact asked seen (Child.runs_endOnceAsked runs) (Nat.le_add_right _ _)
  | granting seen own within runs => exact asked seen runs within
  | forcing seen own runs | collecting seen own runs =>
      exact asked seen (fun e mem => Nat.le_of_lt (runs e mem)) (Nat.le_refl _)
  | @gone now status nudges other fate =>
      rw [Child.fate_time, ← Child.fate_time c begun grace token other, fate] at ends
      exact Nat.le_of_eq (Option.some.inj ends)

def stageRank : Child.Stage → Nat
  | .watching => 5
  | .asking => 4
  | .granting _ => 3
  | .forcing => 2
  | .collecting => 1
  | .gone => 0

def dutyRank : Duty → Nat
  | .caring => 3
  | .telling _ => 2
  | .stopping => 1
  | .finished => 0

def placeRank : Place → Nat
  | .starting => 2
  | .attending => 1
  | .refused _ | .returned _ => 0

/-- What is left to do when the child is gone at `e` at the latest. -/
def rank (e : Nat) (s : Scene) : Nat :=
  (e - s.care.now) + stageRank s.care.stage + dutyRank s.duty + placeRank s.place +
    (if s.reports.ready then 0 else 1)

theorem rank_of_care {care next : Child.Care} (step : c.Step begun grace token care next) {e : Nat}
    (before : next.now ≤ e) :
    e - next.now + stageRank next.stage < e - care.now + stageRank care.stage := by
  cases step <;> simp only [stageRank] at before ⊢ <;> omega

theorem receive_ready (r : Reports) {report : Report} (other : report ≠ .ready) :
    (r.receive report).1.ready = r.ready := by
  unfold Reports.receive
  split
  · rfl
  · cases report with
    | ready => exact absurd rfl other
    | stopped | failure => rfl

theorem rank_of_own (own : Own c begun grace token limit s t) {e : Nat} (before : t.care.now ≤ e) :
    rank e t < rank e s := by
  cases own with
  | cares step =>
      have less := rank_of_care step before
      simp only [rank]
      omega
  | @collects status duty ended =>
      cases succeeds : status.isSuccess <;> simp [rank, duty, dutyRank]
  | tells duty | stops duty => simp [rank, Scene.tell, duty, dutyRank, receive_ready]
  | calledOff fired place | leaves fired place => simp [rank, place, placeRank]
  | serves free place | tooLate free place | aborts free place => simp [rank, place, placeRank]
  | stopsEarly free place | fails free place =>
      have same : s.reports.takeFailure.1.ready = s.reports.ready := rfl
      simp [rank, place, placeRank, same]

/-- Nothing goes on for ever once the child comes to an end. -/
theorem Stands.halts (stands : Stands c begun grace token limit s) {tie : Bool} {e : Nat}
    (ends : (c.fate begun grace token tie).stopped.map (·.1) = some e) :
    Acc (fun t s => Step c begun grace token limit s t) s := by
  -- what is left is bounded since the time of the end is, and each step of each task lowers it
  induction left : rank e s using Nat.strong_induction_on generalizing s with
  | _ n ih =>
      constructor
      intro t step
      have stands' := stands.step step
      refine ih (rank e t) ?_ stands' rfl
      rw [← left]
      cases step with
      | own own => exact rank_of_own own (now_le stands'.care ends)
      | ready unready =>
          simp [rank, unready, (receive_latch stands.attended.1).2]

/-! ## Courses that come to an end -/

/-- A child that is gone has ended in one way, which is one of its fates. -/
theorem Ended.fate {care : Child.Care} (ended : Ended care status)
    (stands : c.Stands begun grace token care) :
    ∃ tie, (c.fate begun grace token tie).stopped = some (care.now, status) := by
  obtain ⟨gone, there⟩ := ended
  cases stands with
  | @gone now own nudges tie fate =>
      obtain rfl : status = own := by simpa using there
      exact ⟨tie, by rw [fate]⟩
  | _ => cases gone

theorem Ended.unique {care : Child.Care} {other : ExitStatus} (ended : Ended care status)
    (ended' : Ended care other) (stands : c.Stands begun grace token care) : status = other := by
  obtain ⟨gone, there⟩ := ended
  obtain ⟨-, there'⟩ := ended'
  cases stands with
  | @gone now own nudges tie fate =>
      obtain rfl : status = own := by simpa using there
      exact (by simpa using there' : other = status).symm
  | _ => cases gone

theorem exists_ended {care : Child.Care} (stands : c.Stands begun grace token care)
    (gone : care.stage = .gone) : ∃ status, Ended care status := by
  cases stands with
  | @gone now status => exact ⟨status, rfl, by simp⟩
  | _ => cases gone

theorem exists_own (stands : Stands c begun grace token limit s)
    (open_ : s.duty ≠ .finished ∨ s.place.IsOpen) : ∃ t, Own c begun grace token limit s t := by
  cases duty : s.duty with
  | caring =>
      by_cases gone : s.care.stage = .gone
      · obtain ⟨status, ended⟩ := exists_ended stands.care gone
        exact ⟨_, .collects duty ended⟩
      · obtain ⟨care, step⟩ := Child.exists_step gone
        exact ⟨_, .cares step⟩
  | telling status => exact ⟨_, .tells duty⟩
  | stopping => exact ⟨_, .stops duty⟩
  | finished =>
      -- the stop has been fired, so that the main task has something to look at
      obtain ⟨status, tells⟩ := stands.tells
      have stopped : s.reports.stopped = true := tells.stopped.2 duty
      have on : s.place.IsOpen := open_.resolve_left (absurd duty)
      cases fired : token.isFired s.care.now with
      | true =>
          cases place : s.place with
          | starting => exact ⟨_, .calledOff fired place⟩
          | attending => exact ⟨_, .leaves fired place⟩
          | refused | returned => simp [place, Place.IsOpen] at on
      | false =>
          cases place : s.place with
          | starting =>
              cases ready : s.reports.ready with
              | true => exact ⟨_, .serves fired place ready⟩
              | false => exact ⟨_, .stopsEarly fired place ready stopped⟩
          | attending =>
              cases there : s.reports.takeFailure.2 with
              | none => exact ⟨_, .aborts fired place there stopped⟩
              | some failure => exact ⟨_, .fails fired place there⟩
          | refused | returned => simp [place, Place.IsOpen] at on

/-- Nothing but time can go on: the member may still come to serve. -/
def Rests (c : Child) (begun grace : Nat) (token : Cancellation) (limit : Option Nat) (s : Scene) :
    Prop :=
  ∀ t, ¬ Own c begun grace token limit s t

theorem Stands.rests (stands : Stands c begun grace token limit s)
    (rests : Rests c begun grace token limit s) : s.duty = .finished ∧ ¬ s.place.IsOpen := by
  by_contra open_
  rw [not_and_or, not_not] at open_
  obtain ⟨t, own⟩ := exists_own stands open_
  exact rests t own

theorem exists_rests (halts : Acc (fun t s => Step c begun grace token limit s t) s) :
    ∃ t, Relation.ReflTransGen (Own c begun grace token limit) s t ∧
      Rests c begun grace token limit t := by
  induction halts with
  | intro s _ ih =>
      by_cases rests : Rests c begun grace token limit s
      · exact ⟨s, .refl, rests⟩
      · obtain ⟨next, own⟩ : ∃ next, Own c begun grace token limit s next := by
          simpa [Rests] using rests
        obtain ⟨t, course, rests'⟩ := ih next (.own own)
        exact ⟨t, course.head own, rests'⟩

theorem own_of_cares {care next : Child.Care}
    (course : Relation.ReflTransGen (c.Step begun grace token) care next) (s : Scene) :
    Relation.ReflTransGen (Own c begun grace token limit) { s with care }
      { s with care := next } := by
  induction course with
  | refl => exact .refl
  | tail _ step ih => exact ih.tail (.cares step)

theorem Ended.own (ended : Ended s.care status) (own : Own c begun grace token limit s t) :
    t.care = s.care := by
  cases own with
  | cares step => exact absurd step ended.not_step
  | _ => rfl

theorem Ended.course (ended : Ended s.care status)
    (course : Relation.ReflTransGen (Own c begun grace token limit) s t) : t.care = s.care := by
  induction course with
  | refl => rfl
  | tail _ own ih => exact ((ih ▸ ended).own own).trans ih

/-- Each fate of the child is told in a course. -/
theorem reaches_rest {tie : Bool} {now : Nat}
    (ends : (c.fate begun grace token tie).stopped = some (now, status)) :
    ∃ s, Reaches c begun grace token limit s ∧ Rests c begun grace token limit s ∧
      s.care.now = now ∧ Ended s.care status := by
  have reached := (Child.befalls_fate c begun grace token tie).reaches ends
  have cared : Relation.ReflTransGen (Own c begun grace token limit) (.start begun)
      { Scene.start begun with care := ⟨now, .gone, (c.fate begun grace token tie).deeds⟩ } :=
    own_of_cares reached (.start begun)
  have lifted {u v : Scene} (course : Relation.ReflTransGen (Own c begun grace token limit) u v) :
      Relation.ReflTransGen (Step c begun grace token limit) u v := 
    Relation.ReflTransGen.mono (fun _ _ own => Step.own own) _ _ course
  have stands := stands_of_reaches (lifted cared)
  have gone : (c.fate begun grace token tie).stopped.map (·.1) = some now := by
    rw [ends]
    rfl
  obtain ⟨s, course, rests⟩ := exists_rests (stands.halts gone)
  have ended : Ended ⟨now, .gone, (c.fate begun grace token tie).deeds⟩ status :=
    ⟨rfl, by simp [Fate.deeds, ends]⟩
  have same := Ended.course ended course
  exact ⟨s, (lifted cared).trans (lifted course), rests, congrArg (·.now) same, same ▸ ended⟩

/-! ## The whole course -/

theorem toldBy_prefix (status : ExitStatus) (duty : Duty) :
    toldBy status duty <+: (dues status).map (·, .sent) := by
  cases duty with
  | caring | telling => exact List.nil_prefix
  | stopping => simp [toldBy, dues, Function.comp_def]
  | finished => exact List.prefix_rfl

theorem stopped_mem_toldBy (status : ExitStatus) (duty : Duty) :
    (.stopped, .sent) ∈ toldBy status duty ↔ duty = .finished := by
  cases duty <;> simp [toldBy, dues]

/-- Only a member that has come to serve is waited on. -/
theorem ready_of_attended (reached : Reaches c begun grace token limit s)
    (attended : s.place = .attending ∨ ∃ answer, s.place = .returned answer) :
    s.reports.ready = true := by
  induction reached with
  | refl => simp [Scene.start] at attended
  | @tail u v reached step ih =>
      cases step with
      | ready unready => rw [(receive_latch (stands_of_reaches reached).attended.1).2]
      | own own =>
          cases own with
          | cares | collects => exact ih attended
          | tells | stops => exact (receive_ready _ (by simp)).trans (ih attended)
          | calledOff | stopsEarly | tooLate => simp at attended
          | serves free place ready => exact ready
          | leaves fired place | fails free place | aborts free place => exact ih (Or.inl place)

/-- What the reports of a child and the answers of the main task are. -/
structure Reported (c : Child) (begun grace : Nat) (token : Cancellation) (limit : Option Nat) :
    Prop where
  /-- What has been told is told of one exit, in order, and each report has been taken in. -/
  told : ∀ s, Reaches c begun grace token limit s → s.told = [] ∨
    ∃ status, Ended s.care status ∧ s.told <+: (dues status).map (·, .sent)
  /-- Once the stop is fired all has been told. -/
  stopped : ∀ s, Reaches c begun grace token limit s → s.reports.stopped = true →
    ∃ status, Ended s.care status ∧ s.told = (dues status).map (·, .sent)
  fired : ∀ s, Reaches c begun grace token limit s →
    (s.reports.stopped = true ↔ (.stopped, .sent) ∈ s.told)
  /-- A failure stays in the queue until the main task takes it. -/
  queued : ∀ s, Reaches c begun grace token limit s → s.place.IsOpen →
    s.reports.failures.items = queued s.told
  fate : ∀ s status, Reaches c begun grace token limit s → Ended s.care status →
    ∃ tie, (c.fate begun grace token tie).stopped = some (s.care.now, status)
  answers : ∀ s, Reaches c begun grace token limit s → Answers begun token limit s.care s.place
  /-- Where nothing goes on all has been told, and the main task has ended. -/
  rests : ∀ s, Reaches c begun grace token limit s → Rests c begun grace token limit s →
    s.reports.stopped = true ∧ ¬ s.place.IsOpen
  /-- A main task that is neither cancelled nor out of time tells how the child has ended. -/
  verdict : ∀ s status, Reaches c begun grace token limit s → Ended s.care status →
    ¬ s.place.IsOpen → token.isFired s.care.now = false →
    (∀ seconds, limit = some seconds → s.care.now < begun + 1000 * seconds) →
    s.place = .refused ((failure? status).getD (.engine .stoppedEarly)) ∨
      s.reports.ready = true ∧
        s.place = .returned (.error ((failure? status).getD (.engine .aborted)))
  /-- Each fate is told, and whatever goes on before that comes to an end. -/
  comes : ∀ tie now status, (c.fate begun grace token tie).stopped = some (now, status) →
    (∃ s, Reaches c begun grace token limit s ∧ Rests c begun grace token limit s ∧
      s.care.now = now ∧ Ended s.care status) ∧
    ∀ s, Reaches c begun grace token limit s → Acc (fun t s => Step c begun grace token limit s t) s

theorem Stands.verdict (stands : Stands c begun grace token limit s) (ended : Ended s.care status)
    (off : ¬ s.place.IsOpen) (free : token.isFired s.care.now = false)
    (early : ∀ seconds, limit = some seconds → s.care.now < begun + 1000 * seconds) :
    s.place = .refused ((failure? status).getD (.engine .stoppedEarly)) ∨
      s.place = .returned (.error ((failure? status).getD (.engine .aborted))) := by
  have answers := stands.answers
  generalize s.place = place at answers off
  cases answers with
  | starting | attending => exact absurd trivial off
  | calledOff fired | left fired => rw [free] at fired; cases fired
  | tooLate limited late => exact absurd (early _ limited) (Nat.not_lt.2 late)
  | failedEarly ended' fails =>
      obtain rfl := ended.unique ended' stands.care
      rw [failure?_of_failing fails]
      exact Or.inl rfl
  | failed ended' fails =>
      obtain rfl := ended.unique ended' stands.care
      rw [failure?_of_failing fails]
      exact Or.inr rfl
  | stoppedEarly ended' succeeds =>
      obtain rfl := ended.unique ended' stands.care
      rw [failure?_of_success succeeds]
      exact Or.inl rfl
  | stopped ended' succeeds =>
      obtain rfl := ended.unique ended' stands.care
      rw [failure?_of_success succeeds]
      exact Or.inr rfl

theorem reported (c : Child) (begun grace : Nat) (token : Cancellation) (limit : Option Nat) :
    Reported c begun grace token limit := by
  constructor
  case told =>
    intro s reached
    obtain ⟨status, tells⟩ := (stands_of_reaches reached).tells
    by_cases busy : s.duty = .caring
    · refine Or.inl ?_
      rw [tells.told, busy]
      rfl
    · refine Or.inr ⟨status, tells.ended busy, ?_⟩
      rw [tells.told]
      exact toldBy_prefix status s.duty
  case stopped =>
    intro s reached stopped
    obtain ⟨status, tells⟩ := (stands_of_reaches reached).tells
    have finished := tells.stopped.1 stopped
    refine ⟨status, tells.ended (by simp [finished]), ?_⟩
    rw [tells.told, finished]
    rfl
  case fired =>
    intro s reached
    obtain ⟨status, tells⟩ := (stands_of_reaches reached).tells
    rw [tells.stopped, tells.told, stopped_mem_toldBy]
  case queued =>
    intro s reached
    exact (stands_of_reaches reached).items
  case fate =>
    intro s status reached ended
    exact ended.fate (stands_of_reaches reached).care
  case answers =>
    intro s reached
    exact (stands_of_reaches reached).answers
  case rests =>
    intro s reached rests
    have stands := stands_of_reaches reached
    obtain ⟨finished, off⟩ := stands.rests rests
    obtain ⟨status, tells⟩ := stands.tells
    exact ⟨tells.stopped.2 finished, off⟩
  case verdict =>
    intro s status reached ended off free early
    have verdict := (stands_of_reaches reached).verdict ended off free early
    refine verdict.imp_right fun returned => ⟨?_, returned⟩
    exact ready_of_attended reached (Or.inr ⟨_, returned⟩)
  case comes =>
    intro tie now status ends
    refine ⟨reaches_rest ends, fun s reached => ?_⟩
    have gone : (c.fate begun grace token tie).stopped.map (·.1) = some now := by
      rw [ends]
      rfl
    exact (stands_of_reaches reached).halts gone

end StoreWarden.Engine.ExitReport
