import Mathlib.Logic.Relation
import StoreWarden.Proofs.HonestParts
import StoreWarden.Proofs.RetryLaw

/-!
# The watch for a member that serves

While a child runs a second task pauses, checks whether the member serves, and pauses again, until
a check succeeds; then it fires that the member is ready.  It goes here one step at a time, and at
any moment the run may be cancelled or the member may stop.

Both are looked for only in the pauses.  So a check is never begun afterwards, but one that is in
flight is waited for, and if it succeeds the member is reported ready although it is dead or about
to be ended.  The log keeps for every entry what an onlooker would have seen of the two latches.
-/

set_option autoImplicit false

namespace StoreWarden.Engine.ReadyWatch

inductive Phase where
  | pausing (due : Nat)
  | checking (since : Nat)
  | left
deriving DecidableEq, Repr

inductive Deed where
  | begins (number : Nat)
  | passes (number : Nat)
  | misses (number : Nat)
  | fires
deriving DecidableEq, Repr

structure Entry where
  now : Nat
  cancelled : Bool
  stopped : Bool
  deed : Deed
deriving DecidableEq, Repr

structure Point where
  now : Nat
  token : Cancellation
  stopped : Cancellation
  /-- How many checks have failed. -/
  number : Nat
  phase : Phase
  log : List Entry

namespace Point

def isOff (p : Point) : Bool := p.token.isFired p.now || p.stopped.isFired p.now

def entry (p : Point) (deed : Deed) : Entry :=
  ⟨p.now, p.token.isFired p.now, p.stopped.isFired p.now, deed⟩

def start (poll begun : Nat) (token stopped : Cancellation) : Point :=
  ⟨begun, token, stopped, 0, .pausing (begun + poll), []⟩

end Point

inductive Does (poll : Nat) (checks : Nat → Readiness.Check) : Point → Point → Prop
  | leaves {p : Point} {due : Nat} (off : p.isOff = true) (phase : p.phase = .pausing due) :
      Does poll checks p { p with phase := .left }
  | pauses {p : Point} {due : Nat} (on : p.isOff = false) (phase : p.phase = .pausing due)
      (early : p.now < due) : Does poll checks p { p with now := p.now + 1 }
  | begins {p : Point} {due : Nat} (on : p.isOff = false) (phase : p.phase = .pausing due)
      (past : due ≤ p.now) : Does poll checks p { p with
        phase := .checking p.now, log := p.log ++ [p.entry (.begins p.number)] }
  | waits {p : Point} {since : Nat} (phase : p.phase = .checking since)
      (silent : ∀ d ∈ (checks p.number).takes, p.now < since + d) :
      Does poll checks p { p with now := p.now + 1 }
  | fires {p : Point} {since d : Nat} (phase : p.phase = .checking since)
      (takes : (checks p.number).takes = some d) (past : since + d ≤ p.now)
      (serves : (checks p.number).serves = true) : Does poll checks p { p with
        phase := .left, log := p.log ++ [p.entry (.passes p.number), p.entry .fires] }
  | misses {p : Point} {since d : Nat} (phase : p.phase = .checking since)
      (takes : (checks p.number).takes = some d) (past : since + d ≤ p.now)
      (serves : (checks p.number).serves = false) : Does poll checks p { p with
        number := p.number + 1, phase := .pausing (p.now + poll),
        log := p.log ++ [p.entry (.misses p.number)] }
  | rests {p : Point} (phase : p.phase = .left) : Does poll checks p { p with now := p.now + 1 }

inductive Step (poll : Nat) (checks : Nat → Readiness.Check) : Point → Point → Prop
  | own {p q : Point} (does : Does poll checks p q) : Step poll checks p q
  | cancelled {p : Point} : Step poll checks p { p with token := p.token.cancel p.now }
  | stopped {p : Point} : Step poll checks p { p with stopped := p.stopped.cancel p.now }

variable {poll begun since d : Nat} {checks : Nat → Readiness.Check} {token stopped : Cancellation}
  {p q : Point}

/-- Where the watch may get to, whatever happens meanwhile. -/
def Passes (poll : Nat) (checks : Nat → Readiness.Check) (begun : Nat)
    (token stopped : Cancellation) : Point → Prop :=
  Relation.ReflTransGen (Step poll checks) (.start poll begun token stopped)

/-- Where it gets to if the two latches fire when they are foreseen to. -/
def Reaches (poll : Nat) (checks : Nat → Readiness.Check) (begun : Nat)
    (token stopped : Cancellation) : Point → Prop :=
  Relation.ReflTransGen (Does poll checks) (.start poll begun token stopped)

theorem exists_does (p : Point) : ∃ q, Does poll checks p q := by
  cases phase : p.phase with
  | left => exact ⟨_, .rests phase⟩
  | pausing due =>
      cases off : p.isOff with
      | true => exact ⟨_, .leaves off phase⟩
      | false =>
          rcases Nat.lt_or_ge p.now due with early | past
          · exact ⟨_, .pauses off phase early⟩
          · exact ⟨_, .begins off phase past⟩
  | checking since =>
      by_cases silent : ∀ d ∈ (checks p.number).takes, p.now < since + d
      · exact ⟨_, .waits phase silent⟩
      · push Not at silent
        obtain ⟨d, takes, past⟩ := silent
        cases serves : (checks p.number).serves with
        | true => exact ⟨_, .fires phase takes past serves⟩
        | false => exact ⟨_, .misses phase takes past serves⟩

/-! ## What the log holds -/

/-- The checks that have failed, each begun with both latches open. -/
inductive Missed : Nat → List Entry → Prop
  | none : Missed 0 []
  | another {n since now : Nat} {cancelled stopped : Bool} {log : List Entry}
      (before : Missed n log) : Missed (n + 1)
        (log ++ [⟨since, false, false, .begins n⟩, ⟨now, cancelled, stopped, .misses n⟩])

theorem Missed.not_fires {n : Nat} {log : List Entry} (missed : Missed n log) :
    ∀ e ∈ log, e.deed ≠ .fires := by
  induction missed with
  | none => simp
  | another _ ih =>
      intro e there
      rcases List.mem_append.1 there with earlier | last
      · exact ih e earlier
      · simp only [List.mem_cons, List.not_mem_nil, or_false] at last
        rcases last with rfl | rfl <;> simp

inductive Stands (checks : Nat → Readiness.Check) : Point → Prop
  | pausing {now n due : Nat} {token stopped : Cancellation} {log : List Entry}
      (missed : Missed n log) : Stands checks ⟨now, token, stopped, n, .pausing due, log⟩
  | checking {now n since : Nat} {token stopped : Cancellation} {log : List Entry}
      (missed : Missed n log) (silent : ∀ d ∈ (checks n).takes, now ≤ since + d) :
      Stands checks ⟨now, token, stopped, n, .checking since,
        log ++ [⟨since, false, false, .begins n⟩]⟩
  | left {now n : Nat} {token stopped : Cancellation} {log : List Entry} (missed : Missed n log) :
      Stands checks ⟨now, token, stopped, n, .left, log⟩
  | fired {now n since d : Nat} {token stopped : Cancellation} {cancelled ended : Bool}
      {log : List Entry} (missed : Missed n log) (takes : (checks n).takes = some d)
      (serves : (checks n).serves = true) :
      Stands checks ⟨now, token, stopped, n, .left, log ++ [⟨since, false, false, .begins n⟩,
        ⟨since + d, cancelled, ended, .passes n⟩, ⟨since + d, cancelled, ended, .fires⟩]⟩

theorem Stands.does (stands : Stands checks p) (does : Does poll checks p q) :
    Stands checks q := by
  cases stands with
  | pausing missed =>
      cases does with
      | leaves off phase => exact .left missed
      | pauses on phase early => exact .pausing missed
      | begins on phase past =>
          obtain ⟨free, running⟩ := Bool.or_eq_false_iff.1 on
          simp only [Point.entry, free, running]
          exact .checking missed fun d _ => Nat.le_add_right _ d
      | waits phase | fires phase | misses phase | rests phase => cases phase
  | checking missed silent =>
      cases does with
      | leaves _ phase | pauses _ phase | begins _ phase | rests phase => cases phase
      | waits phase silent' =>
          cases phase
          exact .checking missed silent'
      | fires phase takes past serves =>
          cases phase
          obtain rfl := Nat.le_antisymm (silent _ takes) past
          simp only [Point.entry, List.append_assoc, List.cons_append, List.nil_append]
          exact .fired missed takes serves
      | misses phase takes past serves =>
          cases phase
          simp only [Point.entry, List.append_assoc, List.cons_append, List.nil_append]
          exact .pausing missed.another
  | left missed =>
      cases does with
      | leaves _ phase | pauses _ phase | begins _ phase | waits phase | fires phase
      | misses phase => cases phase
      | rests => exact .left missed
  | fired missed takes serves =>
      cases does with
      | leaves _ phase | pauses _ phase | begins _ phase | waits phase | fires phase
      | misses phase => cases phase
      | rests => exact .fired missed takes serves

theorem Stands.step (stands : Stands checks p) (step : Step poll checks p q) :
    Stands checks q := by
  cases step with
  | own does => exact stands.does does
  | cancelled | stopped =>
      cases stands with
      | pausing missed => exact .pausing missed
      | checking missed silent => exact .checking missed silent
      | left missed => exact .left missed
      | fired missed takes serves => exact .fired missed takes serves

theorem stands_of_passes (passes : Passes poll checks begun token stopped p) :
    Stands checks p := by
  induction passes with
  | refl => exact .pausing .none
  | tail _ step ih => exact ih.step step

/-! ## A check in flight -/

/-- What has come of a successful check that was in flight at `p`: it still is, or it has ended in
the member being ready.  What had fired by then an onlooker has seen. -/
inductive Ripens (p : Point) (since d : Nat) : Point → Prop
  | going {q : Point} (phase : q.phase = .checking since) (number : q.number = p.number)
      (log : q.log = p.log) (past : p.now ≤ q.now)
      (token : p.token.isFired p.now = true → q.token.isFired q.now = true)
      (stopped : p.stopped.isFired p.now = true → q.stopped.isFired q.now = true) :
      Ripens p since d q
  | ready {q : Point} {e : Entry} (deed : e.deed = .fires) (now : e.now = since + d)
      (phase : q.phase = .left)
      (log : q.log = p.log ++ [{ e with deed := .passes p.number }, e])
      (token : p.token.isFired p.now = true → e.cancelled = true)
      (stopped : p.stopped.isFired p.now = true → e.stopped = true) :
      Ripens p since d q

theorem Stands.silent {since : Nat} (stands : Stands checks p) (phase : p.phase = .checking since) :
    ∀ d ∈ (checks p.number).takes, p.now ≤ since + d := by
  cases stands with
  | checking _ silent =>
      cases phase
      exact silent
  | pausing | left | fired => cases phase

theorem Ripens.step {b c : Point} (ripens : Ripens p since d b)
    (takes : (checks p.number).takes = some d) (serves : (checks p.number).serves = true)
    (stands : Stands checks b) (step : Step poll checks b c) : Ripens p since d c := by
  cases ripens with
  | ready deed now left log token stopped =>
      cases step with
      | cancelled | stopped => exact .ready deed now left log token stopped
      | own does =>
          cases does with
          | leaves _ other | pauses _ other | begins _ other | waits other | fires other
          | misses other =>
              rw [left] at other
              cases other
          | rests => exact .ready deed now left log token stopped
  | going checking number log past token stopped =>
      cases step with
      | cancelled =>
          refine .going checking number log past (fun _ => ?_) stopped
          simp [Cancellation.isFired_cancel]
      | stopped =>
          refine .going checking number log past token fun _ => ?_
          simp [Cancellation.isFired_cancel]
      | own does =>
          cases does with
          | leaves _ other | pauses _ other | begins _ other | rests other =>
              rw [checking] at other
              cases other
          | waits =>
              exact .going checking number log (Nat.le_succ_of_le past)
                (fun fired => Cancellation.isFired_mono (Nat.le_succ _) (token fired))
                fun fired => Cancellation.isFired_mono (Nat.le_succ _) (stopped fired)
          | misses _ _ _ fails =>
              rw [number, serves] at fails
              cases fails
          | fires other takes' past' _ =>
              have silent := stands.silent checking
              rw [checking] at other
              cases other
              rw [number, takes] at takes' silent
              cases takes'
              refine .ready (e := b.entry .fires) rfl (Nat.le_antisymm (silent d rfl) past') rfl ?_
                token stopped
              rw [number, log]
              rfl

theorem ripens_of_checking (stands : Stands checks p) (phase : p.phase = .checking since)
    (takes : (checks p.number).takes = some d) (serves : (checks p.number).serves = true)
    (course : Relation.ReflTransGen (Step poll checks) p q) : Ripens p since d q := by
  have kept : Stands checks q ∧ Ripens p since d q := by
    induction course with
    | refl => exact ⟨stands, .going phase rfl rfl (Nat.le_refl _) id id⟩
    | tail _ step ih => exact ⟨ih.1.step step, ih.2.step takes serves ih.1 step⟩
  exact kept.2

/-! ## With the latches foreseen -/

/-- A pause of the watch ends in a check if neither latch fires up to its end. -/
theorem readyAt_succ (s : Supervisor) (checks : Nat → Readiness.Check)
    (token stopped : Cancellation) (rounds n now : Nat) :
    s.readyAt checks token stopped.firesAt (rounds + 1) n now =
      if token.isFired (now + s.readyPoll) || stopped.isFired (now + s.readyPoll) then none
      else (checks n).takes.bind fun d =>
        if (checks n).serves then some (now + s.readyPoll + d)
        else s.readyAt checks token stopped.firesAt rounds (n + 1) (now + s.readyPoll + d) := by
  have off : (earliest (token.seenFrom now) stopped.firesAt).any (· ≤ now + s.readyPoll) =
      (token.isFired (now + s.readyPoll) || stopped.isFired (now + s.readyPoll)) := by
    unfold Cancellation.seenFrom Cancellation.isFired
    cases token.firesAt <;> cases stopped.firesAt <;>
      simp only [Option.map_none, Option.map_some, earliest, Option.any_none, Option.any_some,
        Bool.or_false, Bool.false_or, decide_eq_decide, ← Bool.decide_or] <;> omega
  simp only [Supervisor.readyAt, off]
  split
  · rfl
  · cases (checks n).takes <;> rfl

variable {s : Supervisor}

/-- That the member is found to serve from some check on makes it found so from the first one. -/
def Leads (s : Supervisor) (checks : Nat → Readiness.Check) (begun : Nat)
    (token stopped : Cancellation) (n base : Nat) : Prop :=
  ∀ t, (∃ rounds, s.readyAt checks token stopped.firesAt rounds n base = some t) →
    ∃ rounds, s.readyAt checks token stopped.firesAt rounds 0 begun = some t

structure Tracks (s : Supervisor) (checks : Nat → Readiness.Check) (begun : Nat)
    (token stopped : Cancellation) (p : Point) : Prop where
  latches : p.token = token ∧ p.stopped = stopped
  pausing : ∀ due, p.phase = .pausing due → ∃ base, due = base + s.readyPoll ∧ p.now ≤ due ∧
    Leads s checks begun token stopped p.number base
  checking : ∀ since, p.phase = .checking since → ∃ base, since = base + s.readyPoll ∧
    (token.isFired since || stopped.isFired since) = false ∧
      Leads s checks begun token stopped p.number base
  fired : ∀ e ∈ p.log, e.deed = .fires →
    ∃ rounds, s.readyAt checks token stopped.firesAt rounds 0 begun = some e.now
  seen : ∀ e ∈ p.log, e.cancelled = token.isFired e.now ∧ e.stopped = stopped.isFired e.now

theorem tracks_start : Tracks s checks begun token stopped
    (.start s.readyPoll begun token stopped) where
  latches := ⟨rfl, rfl⟩
  pausing due phase := by
    cases phase
    exact ⟨begun, rfl, Nat.le_add_right _ _, fun _ found => found⟩
  checking since phase := by cases phase
  fired := by simp [Point.start]
  seen := by simp [Point.start]

theorem Tracks.seen_append (tracks : Tracks s checks begun token stopped p) (deeds : List Deed) :
    ∀ e ∈ p.log ++ deeds.map p.entry,
      e.cancelled = token.isFired e.now ∧ e.stopped = stopped.isFired e.now := by
  intro e there
  rcases List.mem_append.1 there with earlier | here
  · exact tracks.seen e earlier
  · obtain ⟨deed, -, rfl⟩ := List.mem_map.1 here
    simp only [Point.entry, tracks.latches, and_self]

theorem Tracks.fired_append (tracks : Tracks s checks begun token stopped p) (deeds : List Deed)
    (found : .fires ∈ deeds →
      ∃ rounds, s.readyAt checks token stopped.firesAt rounds 0 begun = some p.now) :
    ∀ e ∈ p.log ++ deeds.map p.entry, e.deed = .fires →
      ∃ rounds, s.readyAt checks token stopped.firesAt rounds 0 begun = some e.now := by
  intro e there fires
  rcases List.mem_append.1 there with earlier | here
  · exact tracks.fired e earlier fires
  · obtain ⟨deed, mem, rfl⟩ := List.mem_map.1 here
    obtain rfl : deed = .fires := fires
    exact found mem

theorem Tracks.does (tracks : Tracks s checks begun token stopped p) (stands : Stands checks p)
    (does : Does s.readyPoll checks p q) : Tracks s checks begun token stopped q := by
  cases does with
  | leaves off phase => exact ⟨tracks.latches, by simp, by simp, tracks.fired, tracks.seen⟩
  | pauses on phase early =>
      obtain ⟨base, due, -, leads⟩ := tracks.pausing _ phase
      refine ⟨tracks.latches, ?_, tracks.checking, tracks.fired, tracks.seen⟩
      intro other phase'
      rw [phase] at phase'
      cases phase'
      exact ⟨base, due, early, leads⟩
  | begins on phase past =>
      obtain ⟨base, due, early, leads⟩ := tracks.pausing _ phase
      rw [Point.isOff, tracks.latches.1, tracks.latches.2] at on
      refine ⟨tracks.latches, by simp, ?_, tracks.fired_append [_] (by simp),
        tracks.seen_append [_]⟩
      intro since phase'
      cases phase'
      exact ⟨base, (Nat.le_antisymm early past).trans due, on, leads⟩
  | waits phase silent =>
      refine ⟨tracks.latches, ?_, tracks.checking, tracks.fired, tracks.seen⟩
      intro due other
      rw [phase] at other
      cases other
  | fires phase takes past serves =>
      refine ⟨tracks.latches, by simp, by simp, tracks.fired_append [_, _] fun _ => ?_,
        tracks.seen_append [_, _]⟩
      obtain ⟨base, rfl, on, leads⟩ := tracks.checking _ phase
      have punctual := Nat.le_antisymm (stands.silent phase _ takes) past
      refine leads p.now ⟨1, ?_⟩
      rw [readyAt_succ, if_neg (by simp [on]), takes, Option.bind_some, if_pos serves, punctual]
  | misses phase takes past serves =>
      refine ⟨tracks.latches, ?_, by simp, tracks.fired_append [_] (by simp),
        tracks.seen_append [_]⟩
      intro due phase'
      cases phase'
      obtain ⟨base, rfl, on, leads⟩ := tracks.checking _ phase
      have punctual := Nat.le_antisymm (stands.silent phase _ takes) past
      refine ⟨p.now, rfl, Nat.le_add_right _ _, fun t ⟨rounds, found⟩ => leads t ⟨rounds + 1, ?_⟩⟩
      rw [readyAt_succ, if_neg (by simp [on]), takes, Option.bind_some, if_neg (by simp [serves]),
        ← punctual]
      exact found
  | rests phase =>
      refine ⟨tracks.latches, ?_, ?_, tracks.fired, tracks.seen⟩
      · intro due other
        rw [phase] at other
        cases other
      · intro since other
        rw [phase] at other
        cases other

theorem passes_of_reaches (reached : Reaches poll checks begun token stopped p) :
    Passes poll checks begun token stopped p :=
  Relation.ReflTransGen.mono (fun _ _ does => Step.own does) _ _ reached

theorem tracks_of_reaches (reached : Reaches s.readyPoll checks begun token stopped p) :
    Tracks s checks begun token stopped p := by
  induction reached with
  | refl => exact tracks_start
  | tail before does ih => exact ih.does (stands_of_passes (passes_of_reaches before)) does

/-! ## The watch gets there -/

variable (poll checks) in
theorem reaches_paused (now n k : Nat) (log : List Entry) {due : Nat} (early : now + k ≤ due)
    (on : (token.isFired due || stopped.isFired due) = false) :
    Relation.ReflTransGen (Does poll checks) ⟨now, token, stopped, n, .pausing due, log⟩
      ⟨now + k, token, stopped, n, .pausing due, log⟩ := by
  obtain ⟨free, running⟩ := Bool.or_eq_false_iff.1 on
  induction k with
  | zero => exact .refl
  | succ k ih =>
      have sooner : now + k ≤ due := by omega
      refine (ih sooner).tail (.pauses ?_ rfl (by simp only; omega))
      simp only [Point.isOff, Cancellation.isFired_eq_false_of_le sooner free,
        Cancellation.isFired_eq_false_of_le sooner running, Bool.or_self]

theorem reaches_waited (since n k d : Nat) (log : List Entry) (takes : (checks n).takes = some d)
    (early : k ≤ d) :
    Relation.ReflTransGen (Does poll checks) ⟨since, token, stopped, n, .checking since, log⟩
      ⟨since + k, token, stopped, n, .checking since, log⟩ := by
  induction k with
  | zero => exact .refl
  | succ k ih =>
      refine (ih (by omega)).tail (.waits rfl ?_)
      simp only [takes, Option.mem_def, Option.some.injEq]
      omega

/-- A pause and a check that ends, successful or not. -/
theorem reaches_checked (now n : Nat) (log : List Entry) (takes : (checks n).takes = some d)
    (on : (token.isFired (now + poll) || stopped.isFired (now + poll)) = false) :
    ∃ log', Relation.ReflTransGen (Does poll checks)
      ⟨now, token, stopped, n, .pausing (now + poll), log⟩
      ⟨now + poll + d, token, stopped, n, .checking (now + poll), log'⟩ := by
  have paused := reaches_paused poll checks now n poll log (Nat.le_refl _) on
  have begun := paused.tail (.begins on rfl (Nat.le_refl _))
  exact ⟨_, begun.trans (reaches_waited (now + poll) n d d _ takes (Nat.le_refl d))⟩

theorem reaches_fired {rounds t : Nat} : ∀ {n now : Nat} {log : List Entry},
    s.readyAt checks token stopped.firesAt rounds n now = some t →
      ∃ p, Relation.ReflTransGen (Does s.readyPoll checks)
          ⟨now, token, stopped, n, .pausing (now + s.readyPoll), log⟩ p ∧
        ∃ e ∈ p.log, e.deed = .fires ∧ e.now = t := by
  -- on the checks that may still be made: one that fails leads to a later pause with one less
  induction rounds with
  | zero => intro n now log found; cases found
  | succ rounds ih =>
      intro n now log found
      rw [readyAt_succ] at found
      split at found
      · cases found
      · rename_i off
        obtain ⟨d, takes, found⟩ := Option.bind_eq_some_iff.1 found
        obtain ⟨log', checked⟩ := reaches_checked now n log takes (Bool.eq_false_iff.2 off)
        split at found
        · rename_i serves
          refine ⟨_, checked.tail (.fires rfl takes (Nat.le_refl _) serves), ?_⟩
          exact ⟨_, List.mem_append_right _ (List.mem_cons_of_mem _ (List.mem_singleton_self _)),
            rfl, Option.some.inj found⟩
        · rename_i fails
          obtain ⟨p, later, fired⟩ := ih found
          refine ⟨p, (checked.tail (.misses rfl takes (Nat.le_refl _) ?_)).trans later, fired⟩
          exact Bool.eq_false_iff.2 fails

theorem readyAt_iff {t : Nat} :
    (∃ rounds, s.readyAt checks token stopped.firesAt rounds 0 begun = some t) ↔
      ∃ p, Reaches s.readyPoll checks begun token stopped p ∧
        ∃ e ∈ p.log, e.deed = .fires ∧ e.now = t := by
  constructor
  · rintro ⟨rounds, found⟩
    exact reaches_fired found
  · rintro ⟨p, reached, e, there, fires, rfl⟩
    exact (tracks_of_reaches reached).fired e there fires

/-! ## What holds of every watch -/

/-- A member that is ready has just passed a check, at whose beginning it had not stopped and the
run was not cancelled.  It is ready once, and nothing comes after. -/
structure FiresOnce (checks : Nat → Readiness.Check) (p : Point) : Prop where
  once : (p.log.filter (·.deed = .fires)).length ≤ 1
  passed : ∀ e ∈ p.log, e.deed = .fires → ∃ first n since d, Missed n first ∧
    (checks n).takes = some d ∧ (checks n).serves = true ∧ e.now = since + d ∧
      p.log = first ++ [⟨since, false, false, .begins n⟩, { e with deed := .passes n }, e]

theorem Missed.filter_eq {n : Nat} {log : List Entry} (missed : Missed n log) :
    log.filter (·.deed = .fires) = [] := by
  rw [List.filter_eq_nil_iff]
  intro e there
  simpa using missed.not_fires e there

theorem Stands.firesOnce (stands : Stands checks p) : FiresOnce checks p := by
  have quiet {log : List Entry} {n : Nat} (missed : Missed n log) (e : Entry) (there : e ∈ log)
      (fires : e.deed = .fires) : False := missed.not_fires e there fires
  cases stands with
  | pausing missed | left missed =>
      exact ⟨by simp [missed.filter_eq], fun e there fires => (quiet missed e there fires).elim⟩
  | checking missed silent =>
      refine ⟨by simp [missed.filter_eq], fun e there fires => ?_⟩
      rcases List.mem_append.1 there with earlier | last
      · exact (quiet missed e earlier fires).elim
      · obtain rfl := List.mem_singleton.1 last
        cases fires
  | @fired now n since d _ _ cancelled ended log missed takes serves =>
      refine ⟨by simp [missed.filter_eq], fun e there fires => ?_⟩
      rcases List.mem_append.1 there with earlier | last
      · exact (quiet missed e earlier fires).elim
      · simp only [List.mem_cons, List.not_mem_nil, or_false] at last
        rcases last with rfl | rfl | rfl
        · cases fires
        · cases fires
        · exact ⟨log, n, since, d, missed, takes, serves, rfl, rfl⟩

end StoreWarden.Engine.ReadyWatch

namespace StoreWarden.Engine

theorem Timeline.insert_perm (t : Nat) (event : Event) (timeline : Timeline) :
    (timeline.insert t event).Perm ((t, event) :: timeline) := by
  induction timeline with
  | nil => exact .refl _
  | cons first rest ih =>
      obtain ⟨u, other⟩ := first
      simp only [insert]
      split
      · exact .refl _
      · exact (ih.cons _).trans (.swap _ _ _)

namespace Supervisor

open ReadyWatch

variable (s : Supervisor) (checks : Nat → Readiness.Check) (start : Nat)
  (token stopped : Cancellation)

/-- Of a child it is reported at most once that it serves. -/
theorem ready_of_timeline (child : Child) (rounds : Nat) (tie : Bool) :
    (s.timeline child checks rounds start tie token).filter (·.2 = .reported .ready) =
      (s.readyAt checks token ((child.fate start s.grace token tie).stopped.map (·.1)) rounds 0
        start).toList.map fun t => (t, .reported .ready) := by
  have unready (ending : Option (Nat × ExitStatus)) :
      ((ending.map fun ending => farewell ending.1 ending.2).getD []).filter
        (·.2 = .reported .ready) = [] := by
    cases ending with
    | none => rfl
    | some ending =>
        simp only [Option.map_some, Option.getD_some, farewell]
        split <;> simp
  simp only [timeline]
  split
  · rename_i t found
    have all := (Timeline.insert_perm t (.reported .ready) (((child.fate start s.grace token
      tie).stopped.map fun ending => farewell ending.1 ending.2).getD [])).filter
        fun e => decide (e.2 = .reported .ready)
    rw [List.filter_cons_of_pos (by simp), unready] at all
    rw [found]
    exact List.perm_singleton.1 all
  · rename_i never
    rw [never, unready]
    rfl

/-- What holds of the watch for a member that serves.  A member is reported ready that is dead or
about to be ended if and only if its stop or the cancellation falls into the check that found it to
serve: such a check is always waited for, and none is begun later. -/
structure Watched : Prop where
  fires : ∀ p, Passes s.readyPoll checks start token stopped p → FiresOnce checks p
  paused : ∀ p due, Passes s.readyPoll checks start token stopped p → p.phase = .pausing due →
    p.isOff = true → ∀ q, Does s.readyPoll checks p q → q = { p with phase := .left }
  inFlight : ∀ p since d, Passes s.readyPoll checks start token stopped p →
    p.phase = .checking since → (checks p.number).takes = some d →
      (checks p.number).serves = true →
        ∀ q, Relation.ReflTransGen (Step s.readyPoll checks) p q → Ripens p since d q
  goes : ∀ p, ∃ q, Does s.readyPoll checks p q
  found : ∀ t, (∃ rounds, s.readyAt checks token stopped.firesAt rounds 0 start = some t) ↔
    ∃ p, Reaches s.readyPoll checks start token stopped p ∧
      ∃ e ∈ p.log, e.deed = .fires ∧ e.now = t
  seen : ∀ p, Reaches s.readyPoll checks start token stopped p → ∀ e ∈ p.log,
    e.cancelled = token.isFired e.now ∧ e.stopped = stopped.isFired e.now
  late : ∀ rounds t, s.readyAt checks token stopped.firesAt rounds 0 start = some t →
    ∃ n since d, (checks n).takes = some d ∧ (checks n).serves = true ∧ t = since + d ∧
      ∀ f, token.firesAt = some f ∨ stopped.firesAt = some f → since < f
  reported : ∀ child rounds tie,
    (s.timeline child checks rounds start tie token).filter (·.2 = .reported .ready) =
      (s.readyAt checks token ((child.fate start s.grace token tie).stopped.map (·.1)) rounds 0
        start).toList.map fun t => (t, .reported .ready)

theorem ready_watched : s.Watched checks start token stopped where
  fires p passes := (stands_of_passes passes).firesOnce
  paused p due _ phase off q does := by
    cases does with
    | leaves => rfl
    | pauses on | begins on => exact absurd off (by simp [on])
    | waits other | fires other | misses other | rests other =>
        rw [phase] at other
        cases other
  inFlight p since d passes phase takes serves q course :=
    ripens_of_checking (stands_of_passes passes) phase takes serves course
  goes := exists_does
  found t := readyAt_iff
  seen p reached := (tracks_of_reaches reached).seen
  late rounds t found := by
    obtain ⟨p, reached, e, there, deed, rfl⟩ := readyAt_iff.1 ⟨rounds, found⟩
    have stands := stands_of_passes (passes_of_reaches reached)
    obtain ⟨first, n, since, d, -, takes, serves, now, log⟩ := stands.firesOnce.passed e there deed
    refine ⟨n, since, d, takes, serves, now, ?_⟩
    have begun : ⟨since, false, false, .begins n⟩ ∈ p.log := by simp [log]
    obtain ⟨free, running⟩ := (tracks_of_reaches reached).seen _ begun
    rintro f (fires | fires)
    · simpa [Cancellation.isFired, fires, eq_comm] using free
    · simpa [Cancellation.isFired, fires, eq_comm] using running
  reported child rounds tie := s.ready_of_timeline checks start token child rounds tie

/-- A member that fails at 600, while a check that began at 500 is in flight until 700; and one
that is asked to end at 600. -/
theorem ready_though_stopped :
    let s : Supervisor := ⟨"etcd", 10000, 500⟩
    let checks : Nat → Readiness.Check := fun _ => ⟨some 200, true⟩
    s.timeline ⟨some (600, .code 1), none⟩ checks 1 0 true .never =
        [(600, .reported (.failure (.engine (.exited (.code 1))))), (600, .reported .stopped),
          (700, .reported .ready)] ∧
      s.timeline ⟨none, some (5000, .code 0)⟩ checks 1 0 true (.firingAt 600) =
        [(700, .reported .ready), (5600, .reported .stopped)] := by
  decide

end Supervisor

end StoreWarden.Engine
