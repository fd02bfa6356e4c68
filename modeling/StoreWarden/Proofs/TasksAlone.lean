import StoreWarden.Lifecycle
import StoreWarden.Proofs.HandshakeLog
import StoreWarden.Proofs.Interleaving
import StoreWarden.Proofs.MemberTimes

/-!
# Each task alone

Where one task does not interfere with the other, the interleaved run is what the definitions of
the tasks say: the signal task does what `Shutdown.performAll` does, the main task asks the sidecar
as `Handshake.poll` does and waits for the member as `Life.awaitReady` does.
-/

set_option autoImplicit false

namespace StoreWarden.Interleaving

open ExitRecord (Bystander Change)
open Os (FileSystem)
open Sidecar (Asked Progress Service)
open Shutdown (Act Stage)

/-- Some schedule leads from one state of a run to another. -/
def Reaches (h : Handshake) (sys last : System) : Prop := ∃ moves, run h moves sys = some last

theorem Reaches.refl {h : Handshake} {sys : System} : Reaches h sys sys := ⟨[], rfl⟩

theorem Reaches.trans {h : Handshake} {sys next last : System} (first : Reaches h sys next)
    (second : Reaches h next last) : Reaches h sys last := by
  obtain ⟨moves, ran⟩ := first
  obtain ⟨more, ran'⟩ := second
  refine ⟨moves ++ more, ?_⟩
  rw [run_append, ran]
  exact ran'

theorem Reaches.of_step {h : Handshake} {sys next : System} (move : Move h.record)
    (done : step h sys move = some next) : Reaches h sys next :=
  ⟨[move], by simp [run, done]⟩

theorem Reaches.of_main {h : Handshake} {sys next : System} {news : News}
    (open_ : sys.position ≠ .ended) (done : main h sys news = some next) :
    Reaches h sys next := by
  refine .of_step (.main news) ?_
  rw [step, if_neg open_]
  exact done

/-! ## The signal task -/

theorem Reaches.of_handle {h : Handshake} {sys next : System} (open_ : sys.position ≠ .ended)
    (done : handle h.record sys = some next) : Reaches h sys next := by
  refine .of_step .handle ?_
  rw [step, if_neg open_]
  exact done

theorem handle_of_ok {r : ExitRecord} {sys : System} {signal : Signal} {s : ExitRecord.Step}
    {rest : List Deed} {files : FileSystem} (pending : sys.deeds = .write signal s :: rest)
    (wrote : r.step (Bytes.ofString signal.name) sys.moment.files s = .ok files) :
    ∃ next, handle r sys = some next ∧ next.moment = { sys.moment with files } ∧
      next.position = sys.position ∧ next.stage = sys.stage ∧ next.deeds = rest := by
  simp only [handle, pending, wrote]
  refine ⟨_, rfl, ?_⟩
  split <;> exact ⟨rfl, rfl, rfl, rfl⟩

/-- Writes that are left to do are done as by following their steps. -/
theorem reaches_follow {h : Handshake} {signal : Signal} (steps : List ExitRecord.Step) :
    ∀ {sys : System}, sys.position ≠ .ended →
      sys.deeds = steps.map (.write signal) ++ [.cancel] → ∃ last, Reaches h sys last ∧
        last.moment = { sys.moment with
          files := (h.record.follow (Bytes.ofString signal.name) steps sys.moment.files).1 } ∧
        last.position = sys.position ∧ last.stage = sys.stage ∧ last.deeds = [.cancel] := by
  induction steps with
  | nil => intro sys _ deeds; exact ⟨sys, .refl, rfl, rfl, rfl, deeds⟩
  | cons s rest ih =>
      intro sys open_ deeds
      cases wrote : h.record.step (Bytes.ofString signal.name) sys.moment.files s with
      | error fault =>
          have done : handle h.record sys = some { sys with deeds := [.cancel] } := by
            simp [handle, deeds, wrote, giveUp_writes]
          refine ⟨_, .of_handle open_ done, ?_, rfl, rfl, rfl⟩
          rw [ExitRecord.follow_of_error wrote]
      | ok files =>
          obtain ⟨next, done, moment, position, stage, left⟩ := handle_of_ok deeds wrote
          obtain ⟨last, reached, moment', position', stage', left'⟩ :=
            ih (position ▸ open_) left
          refine ⟨last, (Reaches.of_handle open_ done).trans reached, ?_, ?_, ?_, left'⟩
          · rw [moment', moment, ExitRecord.follow_of_ok wrote]
          · exact position'.trans position
          · exact stage'.trans stage

theorem capture_fst (r : ExitRecord) (signal : Signal) (fs : FileSystem) :
    (r.capture signal fs).1 =
      (r.follow (Bytes.ofString signal.name) ExitRecord.Step.all fs).1 := by
  unfold ExitRecord.capture ExitRecord.write
  cases r.follow (Bytes.ofString signal.name) ExitRecord.Step.all fs with
  | mk files fault => cases fault <;> rfl

/-- The first signal leads to what its acts come to. -/
theorem reaches_performAll {h : Handshake} {sys : System} (signal : Signal)
    (open_ : sys.position ≠ .ended) (idle : sys.deeds = []) (watching : sys.stage = .watching) :
    ∃ last, Reaches h sys last ∧
      last.moment = (Shutdown.performAll h.record sys.moment (sys.stage.take signal).2).1 ∧
      last.position = sys.position ∧ last.stage = (sys.stage.take signal).1 ∧ last.deeds = [] := by
  have deeds : (sys.stage.take signal).2.flatMap deedsOf =
      ExitRecord.Step.all.map (.write signal) ++ [.cancel] := by rw [watching]; rfl
  let signalled : System := { sys with
    stage := (sys.stage.take signal).1
    deeds := ExitRecord.Step.all.map (.write signal) ++ [.cancel] }
  have taken : step h sys (.signal signal) = some signalled := by
    simp only [step, if_neg open_, if_pos idle, deeds, signalled]
  have pending : signalled.deeds = ExitRecord.Step.all.map (.write signal) ++ [.cancel] := rfl
  have open' : signalled.position ≠ .ended := open_
  obtain ⟨written, reached, moment, position, stage, left⟩ := reaches_follow _ open' pending
  have cancelled : handle h.record written =
      some { written with moment := written.moment.cancel, deeds := [] } := by
    simp only [handle, left]
  have still : written.position ≠ .ended := position ▸ open_
  refine ⟨_, ((Reaches.of_step _ taken).trans reached).trans (.of_handle still cancelled), ?_,
    position, stage, rfl⟩
  rw [watching]
  simp only [Stage.take, Shutdown.performAll, Shutdown.perform, moment, capture_fst, signalled]

/-! ## Time and calls -/

theorem Reaches.later {h : Handshake} {sys : System} (open_ : sys.position ≠ .ended) (t : Nat)
    (after : sys.moment.now ≤ t) :
    Reaches h sys { sys with moment := sys.moment.moveTo t } := by
  refine .of_step (.meanwhile (t - sys.moment.now) ⟨id, fun _ => rfl, fun _ => rfl⟩) ?_
  have reached : sys.moment.now + (t - sys.moment.now) = t := by omega
  simp only [step, if_neg open_, Moment.after, Moment.moveTo, reached, id]

/-- A call that leaves the record and its temporary file alone. -/
def Quiet {α : Type} (r : ExitRecord) (c : Call α) : Prop :=
  ∀ fs, (c.effect fs).1.named? r.path = fs.named? r.path ∧
    (c.effect fs).1.named? r.temporary = fs.named? r.temporary

/-- While a quiet call is under way, the rest of the run goes to the moment of its answer. -/
theorem Reaches.call {α : Type} {h : Handshake} {sys : System} {c : Call α} {m : Moment}
    {answer : Except Failure α} (open_ : sys.position ≠ .ended) (quiet : Quiet h.record c)
    (answered : c.run sys.moment = some (m, answer)) :
    Reaches h sys { sys with moment := m } := by
  obtain ⟨⟨t, seen, rfl⟩, -⟩ | ⟨d, -, rfl, -⟩ := Call.run_cases answered
  · exact .later open_ t (Cancellation.le_of_seenFrom seen)
  · let bystander : Bystander h.record :=
      ⟨fun fs => (c.effect fs).1, fun fs => (quiet fs).1, fun fs => (quiet fs).2⟩
    have passed : step h sys (.meanwhile d bystander) = some { sys with
        moment := { sys.moment.after d with files := (c.effect sys.moment.files).1 } } := by
      simp only [step, if_neg open_, bystander]
    unfold Call.concluded
    cases cancels : c.cancels with
    | false => exact .of_step _ passed
    | true =>
        refine (Reaches.of_step _ passed).trans (.of_step .stop ?_)
        simp only [step, if_neg open_, if_true]

/-! ## The handshake -/

/-- The requests in a log, the first one first. -/
def asksOf : List Happening → List Asked
  | [] => []
  | .asked asked :: earlier => asksOf earlier ++ [asked]
  | _ :: earlier => asksOf earlier

/-- Where the verdict of a turn leaves the main task. -/
def Leaves (h : Handshake) (sys : System) : Handshake.Verdict → Prop
  | .pending => True
  | .ready m => sys.moment = m ∧ sys.position = .preparing
  | .cancelled m => sys.moment = m ∧ sys.position = .ended
  | .again m => sys.moment = m ∧ sys.position = .pausing (m.now + h.pollInterval)

/-- A service whose calls before the document leave the record alone. -/
structure QuietService (r : ExitRecord) (s : Service) : Prop where
  status : ∀ n t, Quiet r (s.status n t)
  trigger : ∀ n t depth, Quiet r (s.trigger n t depth)

theorem reaches_trigger (h : Handshake) {s : Service} (quiet : QuietService h.record s) (k : Nat)
    {sys : System} (choosing : sys.position = .choosing) :
    ∃ last, Reaches h sys last ∧
      asksOf last.log = asksOf sys.log ++
        [⟨sys.moment.now, .trigger (h.record.depth sys.moment.files)⟩] ∧
      Leaves h last
        (match (s.trigger k sys.moment.now (h.record.depth sys.moment.files)).run sys.moment with
        | none => .pending
        | some (m, answer) => if Handshake.isFinal answer then .cancelled m else .again m) := by
  let depth := h.record.depth sys.moment.files
  let chosen := (sys.tell (.chosen depth)).go (.triggering depth)
  let called := (chosen.tell (.asked ⟨sys.moment.now, .trigger depth⟩)).go .awaitingTrigger
  have chose : main h sys .nothing = some chosen := by simp only [main, choosing, chosen, depth]
  have calls : main h chosen .nothing = some called := rfl
  have reached : Reaches h sys called :=
    (Reaches.of_main (by simp [choosing]) chose).trans
      (.of_main (by simp [chosen, System.go]) calls)
  have asked : asksOf called.log = asksOf sys.log ++ [⟨sys.moment.now, .trigger depth⟩] := rfl
  cases answered : (s.trigger k sys.moment.now depth).run sys.moment with
  | none => exact ⟨called, reached, asked, trivial⟩
  | some result =>
      obtain ⟨m, answer⟩ := result
      have waiting : called.position ≠ .ended := by simp [called, System.go]
      have heard := reached.trans (.call waiting (quiet.trigger k sys.moment.now depth) answered)
      let now : System := { called with moment := m }
      by_cases final : Handshake.isFinal answer = true
      · have ends : main h now (.trigger answer) = some (now.go .ended) := by
          simp only [main, now, called, System.go, if_pos final]
        simp only [if_pos final]
        exact ⟨_, heard.trans (.of_main waiting ends), asked, rfl, rfl⟩
      · have pauses : main h now (.trigger answer) =
            some (now.go (.pausing (m.now + h.pollInterval))) := by
          simp only [main, now, called, System.go, if_neg final]
        simp only [if_neg final]
        exact ⟨_, heard.trans (.of_main waiting pauses), asked, rfl, rfl⟩

theorem reaches_turn (h : Handshake) {s : Service} (quiet : QuietService h.record s) (n k : Nat)
    {sys : System} (asking : sys.position = .asking) (free : sys.isCancelled = false) :
    ∃ last, Reaches h sys last ∧
      asksOf last.log = asksOf sys.log ++ (h.turn s n k sys.moment).asked ∧
      Leaves h last (h.turn s n k sys.moment).verdict := by
  let called := (sys.tell (.asked ⟨sys.moment.now, .status⟩)).go .awaitingStatus
  have calls : main h sys .nothing = some called := by
    simp only [main, asking, free, Bool.false_eq_true, if_false, called]
  have reached : Reaches h sys called := .of_main (by simp [asking]) calls
  have asked : asksOf called.log = asksOf sys.log ++ [⟨sys.moment.now, .status⟩] := rfl
  have waiting : called.position ≠ .ended := by simp [called, System.go]
  unfold Handshake.turn Handshake.Turn.verdict Handshake.Turn.asked Exchange.of
  cases answered : (s.status n sys.moment.now).run sys.moment with
  | none => exact ⟨called, reached, asked, trivial⟩
  | some result =>
      obtain ⟨m, answer⟩ := result
      have heard := reached.trans (.call waiting (quiet.status n sys.moment.now) answered)
      let now : System := { called with moment := m }
      by_cases final : Handshake.isFinal answer = true
      · have ends : main h now (.status answer) = some (now.go .ended) := by
          simp only [main, now, called, System.go, if_pos final]
        simp only [if_pos final]
        obtain rfl := (Handshake.isFinal_iff answer).1 final
        exact ⟨_, heard.trans (.of_main waiting ends), asked, rfl, rfl⟩
      simp only [if_neg final]
      have pausing (waits : Handshake.progressOf answer = .unknown ∨
          Handshake.progressOf answer = .inProgress) : main h now (.status answer) =
          some (now.go (.pausing (m.now + h.pollInterval))) := by
        rcases waits with same | same <;>
          simp only [main, now, called, System.go, if_neg final, same]
      cases answer with
      | error failure =>
          exact ⟨_, heard.trans (.of_main waiting (pausing (Or.inl rfl))), asked, rfl, rfl⟩
      | ok progress =>
          cases progress with
          | unknown =>
              exact ⟨_, heard.trans (.of_main waiting (pausing (Or.inl rfl))), asked, rfl, rfl⟩
          | inProgress =>
              exact ⟨_, heard.trans (.of_main waiting (pausing (Or.inr rfl))), asked, rfl, rfl⟩
          | successful =>
              have ready : main h now (.status (.ok .successful)) = some (now.go .preparing) := rfl
              exact ⟨_, heard.trans (.of_main waiting ready), asked, rfl, rfl⟩
          | new =>
              have chooses : main h now (.status (.ok .new)) = some (now.go .choosing) := rfl
              have chosen := heard.trans (.of_main waiting chooses)
              obtain ⟨last, triggered, more, leaves⟩ := reaches_trigger h quiet k
                (rfl : (now.go .choosing).position = .choosing)
              refine ⟨last, chosen.trans triggered, ?_, leaves⟩
              rw [more]
              simp [now, System.go, asked]

/-- For a service that leaves the record alone there is a schedule in which the main task makes the
requests of `Handshake.poll` and, if that ends, gets to the end of it. -/
theorem reaches_poll (h : Handshake) {s : Service} (quiet : QuietService h.record s)
    (rounds : Nat) :
    ∀ (n k : Nat) {sys : System}, sys.position = .asking → ∃ last, Reaches h sys last ∧
      asksOf last.log = asksOf sys.log ++ (h.poll s rounds n k sys.moment).asked ∧
      ∀ m answer, (h.poll s rounds n k sys.moment).ending = some (m, answer) →
        last.moment = m ∧
          last.position = match answer with | .ok _ => .preparing | .error _ => .ended := by
  induction rounds with
  | zero =>
      intro n k sys _
      refine ⟨sys, .refl, by simp [Handshake.poll, Course.silent], ?_⟩
      intro m answer ended
      cases ended
  | succ rounds ih =>
      intro n k sys asking
      rw [Handshake.poll_succ]
      by_cases cancelled : sys.moment.isCancelled = true
      · have ends : main h sys .nothing = some (sys.go .ended) := by
          simp only [main, asking, System.isCancelled, cancelled, if_true]
        simp only [if_pos cancelled]
        refine ⟨_, .of_main (by simp [asking]) ends, by simp [Course.silent, System.go], ?_⟩
        rintro m answer ⟨⟩
        exact ⟨rfl, rfl⟩
      simp only [if_neg cancelled]
      have free : sys.isCancelled = false := by simpa [System.isCancelled] using cancelled
      obtain ⟨next, reached, asked, leaves⟩ := reaches_turn h quiet n k asking free
      cases verdict : (h.turn s n k sys.moment).verdict with
      | pending =>
          refine ⟨next, reached, asked, ?_⟩
          intro m answer ended
          cases ended
      | ready m =>
          rw [verdict] at leaves
          refine ⟨next, reached, asked, ?_⟩
          rintro m' answer ⟨⟩
          exact leaves
      | cancelled m =>
          rw [verdict] at leaves
          refine ⟨next, reached, asked, ?_⟩
          rintro m' answer ⟨⟩
          exact leaves
      | again m =>
          rw [verdict] at leaves
          obtain ⟨rfl, pausing⟩ := leaves
          have open_ : next.position ≠ .ended := by simp [pausing]
          cases waited : next.moment.wait h.pollInterval false with
          | mk later wake =>
              cases wake with
              | cancelled =>
                  simp only [waited]
                  obtain ⟨t, seen, rfl⟩ := Moment.moveTo_of_wait_cancelled waited
                  have fired := Moment.isCancelled_of_wait_cancelled waited
                  let now : System := { next with moment := next.moment.moveTo t }
                  have ends : main h now .nothing = some (now.go .ended) := by
                    simp only [main, now, pausing, System.isCancelled, fired, if_true]
                  have passed := reached.trans (.later open_ t (Cancellation.le_of_seenFrom seen))
                  refine ⟨_, passed.trans (.of_main open_ ends), asked, ?_⟩
                  rintro m' answer ⟨⟩
                  exact ⟨rfl, rfl⟩
              | elapsed =>
                  simp only [waited]
                  obtain rfl := Moment.after_of_wait_elapsed waited
                  have unfired := Moment.isCancelled_of_wait_elapsed waited
                  let now : System := { next with moment := next.moment.after h.pollInterval }
                  have goes : main h now .nothing = some (now.go .asking) := by
                    have due : next.moment.now + h.pollInterval ≤ now.moment.now := Nat.le_refl _
                    simp only [main, now, pausing, System.isCancelled, unfired]
                    exact if_pos due
                  have passed := reached.trans (.later open_ _ (Nat.le_add_right _ h.pollInterval))
                  obtain ⟨last, reached', asked', ends⟩ := ih (n + 1)
                    (k + (h.turn s n k sys.moment).trigger.toList.length)
                    (rfl : (now.go .asking).position = .asking)
                  refine ⟨last, (passed.trans (.of_main open_ goes)).trans reached', ?_, ends⟩
                  rw [asked']
                  simp [now, System.go, asked]

/-! ## The wait for the member -/

/-- There is a schedule in which the main task waits for the member as `Life.awaitReady` does. -/
theorem reaches_awaitReady {h : Handshake} {p : Parts} {life : Life} {member : Engine.Member}
    (record : h.record = ⟨p.settings.recordPath⟩) {t : Nat} {event : Life.Startup}
    (ends : Life.startup p life.moment member = some (t, event)) {sys : System}
    (looking : sys.position = .looking) (moment : sys.moment = life.moment) :
    ∃ last, Reaches h sys last ∧ last.moment = (life.awaitReady p member).life.moment ∧
      last.position = if event = .ready then .serving else .ended := by
  have open_ : sys.position ≠ .ended := by simp [looking]
  obtain ⟨after, stops⟩ := Life.isCancelled_startup ends
  rw [← moment] at after stops
  let now : System := { sys with moment := sys.moment.moveTo t }
  have here : now.position = .looking := looking
  have passed : Reaches h sys now := .later open_ t after
  have waited (quiet : event ≠ .ready) :
      (life.awaitReady p member).life.moment = sys.moment.moveTo t := by
    simp only [Life.awaitReady, ends, moment]
    cases event with
    | ready => exact absurd rfl quiet
    | cancelled | stopped | tooLate _ => rfl
  by_cases cancelled : event = .cancelled
  · subst cancelled
    have fired : now.isCancelled = true := stops.2 rfl
    have looks : main h now .nothing = some (now.go .ended) := by
      simp only [main, here, fired, if_true]
    exact ⟨_, passed.trans (.of_main open_ looks), (waited (by simp)).symm, rfl⟩
  have unfired : now.isCancelled = false := by
    simpa [System.isCancelled, now] using fun fired => cancelled (stops.1 fired)
  have looks : main h now .nothing = some (now.go .listening) := by
    simp only [main, here, unfired, Bool.false_eq_true, if_false]
  have heard := passed.trans (.of_main open_ looks)
  have listens : (now.go .listening).position ≠ .ended := by simp [System.go]
  by_cases ready : event = .ready
  · subst ready
    have hears : main h (now.go .listening) .ready = some (now.go .clearing) := rfl
    have clears : (now.go .clearing).position ≠ .ended := by simp [System.go]
    have served := heard.trans (.of_main listens hears)
    have gone : (life.awaitReady p member).life.moment =
        { now.moment with files := (h.record.discard now.moment.files).1 } := by
      simp only [Life.awaitReady, ends, record, now, moment]
      rfl
    cases removed : now.moment.files.remove h.record.path with
    | ok files =>
        have done : main h (now.go .clearing) .nothing =
            some ((((now.go .clearing).withFiles (h.record.discard now.moment.files).1).tell
              (.changed .removed)).go .serving) := by
          simp only [main, System.go, removed]
        exact ⟨_, served.trans (.of_main clears done), gone.symm, rfl⟩
    | error fault =>
        have done : main h (now.go .clearing) .nothing = some ((now.go .clearing).go .serving) := by
          simp only [main, System.go, removed]
        refine ⟨_, served.trans (.of_main clears done), ?_, rfl⟩
        rw [gone, ExitRecord.discard_fst_of_error removed]
        rfl
  · have fails : main h (now.go .listening) .fault = some (now.go .ended) := rfl
    refine ⟨_, heard.trans (.of_main listens fails), (waited ready).symm, ?_⟩
    rw [if_neg ready]
    rfl

end StoreWarden.Interleaving
