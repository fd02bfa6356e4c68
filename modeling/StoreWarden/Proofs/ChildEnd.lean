import Mathlib.Logic.Relation
import StoreWarden.Engine.Supervisor
import StoreWarden.Proofs.RetryAttempts

/-!
# Looking after a child, step by step

`Child.fate` tells in one piece what comes of a child process.  Here the one who looks after it goes
one step at a time: it watches for the end of the child and for the cancellation, whichever it
notices first; it asks the child to end and grants it some time; it ends the child by force; and it
collects the exit status.  A process keeps its number until it is collected and no longer, so that
nothing may be sent to it afterwards.  Time passes only while nothing else can happen.

The courses that come to an end are the fates of the child, `reaches_gone_iff`.
-/

set_option autoImplicit false

namespace StoreWarden.Engine.Child

inductive Deed where
  | sent (nudge : Nudge)
  | collected (status : ExitStatus)
deriving DecidableEq, Repr

/-- How far the one who looks after a child has got. -/
inductive Stage where
  | watching
  | asking
  | granting (asked : Nat)
  | forcing
  | collecting
  | gone
deriving DecidableEq, Repr

structure Care where
  now : Nat
  stage : Stage
  deeds : List (Nat × Deed)

/-- How a child ends that is asked to at time `t` and not forced. -/
def endOnceAsked (c : Child) (start t : Nat) : Option (Nat × ExitStatus) :=
  earlierEnd (endFrom start c.ends) (endFrom t c.yields)

inductive Step (c : Child) (start grace : Nat) (token : Cancellation) : Care → Care → Prop
  | ended {now e : Nat} {status : ExitStatus} {deeds : List (Nat × Deed)}
      (fin : endFrom start c.ends = some (e, status)) (past : e ≤ now) :
      Step c start grace token ⟨now, .watching, deeds⟩
        ⟨now, .gone, deeds ++ [(now, .collected status)]⟩
  | noticed {now : Nat} {deeds : List (Nat × Deed)} (fired : token.isFired now = true) :
      Step c start grace token ⟨now, .watching, deeds⟩ ⟨now, .asking, deeds⟩
  | watched {now : Nat} {deeds : List (Nat × Deed)}
      (runs : ∀ e ∈ endFrom start c.ends, now < e.1) (free : token.isFired now = false) :
      Step c start grace token ⟨now, .watching, deeds⟩ ⟨now + 1, .watching, deeds⟩
  | asks {now : Nat} {deeds : List (Nat × Deed)} :
      Step c start grace token ⟨now, .asking, deeds⟩
        ⟨now, .granting now, deeds ++ [(now, .sent .ask)]⟩
  | yielded {now t e : Nat} {status : ExitStatus} {deeds : List (Nat × Deed)}
      (fin : c.endOnceAsked start t = some (e, status)) (past : e ≤ now) :
      Step c start grace token ⟨now, .granting t, deeds⟩
        ⟨now, .gone, deeds ++ [(now, .collected status)]⟩
  | granted {now t : Nat} {deeds : List (Nat × Deed)}
      (runs : ∀ e ∈ c.endOnceAsked start t, now < e.1) (early : now < t + grace) :
      Step c start grace token ⟨now, .granting t, deeds⟩ ⟨now + 1, .granting t, deeds⟩
  | timedOut {now t : Nat} {deeds : List (Nat × Deed)}
      (runs : ∀ e ∈ c.endOnceAsked start t, now < e.1) (late : t + grace ≤ now) :
      Step c start grace token ⟨now, .granting t, deeds⟩ ⟨now, .forcing, deeds⟩
  | forces {now : Nat} {deeds : List (Nat × Deed)} :
      Step c start grace token ⟨now, .forcing, deeds⟩
        ⟨now, .collecting, deeds ++ [(now, .sent .force)]⟩
  /-- A child that was ended by force is collected at once. -/
  | collects {now : Nat} {deeds : List (Nat × Deed)} :
      Step c start grace token ⟨now, .collecting, deeds⟩
        ⟨now, .gone, deeds ++ [(now, .collected (.signal 9))]⟩

/-- What a course from the start of the child gets to. -/
def Reaches (c : Child) (start grace : Nat) (token : Cancellation) : Care → Prop :=
  Relation.ReflTransGen (c.Step start grace token) ⟨start, .watching, []⟩

/-- When the child ends unless it is forced to. -/
def leaves (c : Child) (start : Nat) (token : Cancellation) : Option Nat :=
  earliest (c.ends.map (start + ·.1))
    ((token.seenFrom start).bind fun t => c.yields.map (t + ·.1))

end Child

def Fate.deeds (f : Fate) : List (Nat × Child.Deed) :=
  f.nudges.map (fun e => (e.1, .sent e.2)) ++ f.stopped.toList.map fun e => (e.1, .collected e.2)

namespace Child

variable {c : Child} {start grace : Nat} {token : Cancellation}

/-- No step is missing: only at the end of a course nothing happens any more. -/
theorem exists_step {k : Care} (open_ : k.stage ≠ .gone) :
    ∃ next, c.Step start grace token k next := by
  obtain ⟨now, stage, deeds⟩ := k
  cases stage with
  | gone => exact absurd rfl open_
  | asking => exact ⟨_, .asks⟩
  | forcing => exact ⟨_, .forces⟩
  | collecting => exact ⟨_, .collects⟩
  | watching =>
      cases fired : token.isFired now with
      | true => exact ⟨_, .noticed fired⟩
      | false =>
          by_cases runs : ∀ e ∈ endFrom start c.ends, now < e.1
          · exact ⟨_, .watched runs fired⟩
          · push Not at runs
            obtain ⟨⟨e, status⟩, fin, past⟩ := runs
            exact ⟨_, .ended fin past⟩
  | granting t =>
      by_cases runs : ∀ e ∈ c.endOnceAsked start t, now < e.1
      · rcases Nat.lt_or_ge now (t + grace) with early | late
        · exact ⟨_, .granted runs early⟩
        · exact ⟨_, .timedOut runs late⟩
      · push Not at runs
        obtain ⟨⟨e, status⟩, fin, past⟩ := runs
        exact ⟨_, .yielded fin past⟩

/-! ## Fates -/

theorem le_of_endFrom {t : Nat} {given : Option (Nat × ExitStatus)} :
    ∀ e ∈ endFrom t given, t ≤ e.1 := by
  intro e mem
  obtain ⟨⟨d, status⟩, -, rfl⟩ := Option.map_eq_some_iff.1 mem
  exact Nat.le_add_right t d

theorem stop_of_end {t e : Nat} {status : ExitStatus}
    (fin : c.endOnceAsked start t = some (e, status)) (before : e ≤ t + grace) :
    c.stop start grace t = ⟨some (e, status), [(t, .ask)]⟩ := by
  unfold endOnceAsked at fin
  simp only [stop, fin, if_pos before]

theorem stop_of_runs {t : Nat} (runs : ∀ e ∈ c.endOnceAsked start t, t + grace < e.1) :
    c.stop start grace t =
      ⟨some (t + grace, .signal 9), [(t, .ask), (t + grace, .force)]⟩ := by
  unfold endOnceAsked at runs
  cases fin : earlierEnd (endFrom start c.ends) (endFrom t c.yields) with
  | none => simp only [stop, fin]
  | some e =>
      have late : ¬ e.1 ≤ t + grace := Nat.not_le.2 (runs e fin)
      simp only [stop, fin, if_neg late]

theorem fate_of_end {e : Nat} {status : ExitStatus} (fin : endFrom start c.ends = some (e, status))
    (free : ∀ t ∈ token.seenFrom start, e ≤ t) :
    c.fate start grace token true = ⟨some (e, status), []⟩ := by
  unfold fate
  rw [fin]
  cases seen : token.seenFrom start with
  | none => rfl
  | some t =>
      rcases Nat.lt_or_eq_of_le (free t seen) with before | same
      · simp [before]
      · simp [same]

theorem fate_of_seen {t : Nat} (seen : token.seenFrom start = some t)
    (runs : ∀ e ∈ endFrom start c.ends, t ≤ e.1) :
    c.fate start grace token false = c.stop start grace t := by
  unfold fate
  rw [seen]
  cases fin : endFrom start c.ends with
  | none => rfl
  | some e =>
      have after : ¬ e.1 < t := Nat.not_lt.2 (runs e fin)
      simp [after]

inductive Befalls (c : Child) (start grace : Nat) (token : Cancellation) : Fate → Prop
  | none (own : endFrom start c.ends = none) (free : token.seenFrom start = none) :
      Befalls c start grace token ⟨none, []⟩
  | leaves {e : Nat} {status : ExitStatus} (fin : endFrom start c.ends = some (e, status))
      (free : ∀ t ∈ token.seenFrom start, e ≤ t) :
      Befalls c start grace token ⟨some (e, status), []⟩
  | yields {t e : Nat} {status : ExitStatus} (seen : token.seenFrom start = some t)
      (own : ∀ e ∈ endFrom start c.ends, t ≤ e.1)
      (fin : c.endOnceAsked start t = some (e, status)) (within : e ≤ t + grace) :
      Befalls c start grace token ⟨some (e, status), [(t, .ask)]⟩
  | forced {t : Nat} (seen : token.seenFrom start = some t)
      (own : ∀ e ∈ endFrom start c.ends, t ≤ e.1)
      (runs : ∀ e ∈ c.endOnceAsked start t, t + grace < e.1) :
      Befalls c start grace token ⟨some (t + grace, .signal 9), [(t, .ask), (t + grace, .force)]⟩

theorem befalls_stop {t : Nat} (seen : token.seenFrom start = some t)
    (own : ∀ e ∈ endFrom start c.ends, t ≤ e.1) :
    Befalls c start grace token (c.stop start grace t) := by
  by_cases runs : ∀ e ∈ c.endOnceAsked start t, t + grace < e.1
  · rw [stop_of_runs runs]
    exact .forced seen own runs
  · push Not at runs
    obtain ⟨⟨e, status⟩, fin, within⟩ := runs
    rw [stop_of_end fin within]
    exact .yields seen own fin within

theorem befalls_fate (c : Child) (start grace : Nat) (token : Cancellation) (tie : Bool) :
    Befalls c start grace token (c.fate start grace token tie) := by
  unfold fate
  cases fin : endFrom start c.ends with
  | none =>
      cases seen : token.seenFrom start with
      | none => exact .none fin seen
      | some t => exact befalls_stop seen (by simp [fin])
  | some e =>
      cases seen : token.seenFrom start with
      | none => exact .leaves fin (by simp [seen])
      | some t =>
          simp only
          split
          · next first =>
              refine .leaves fin ?_
              intro u seen'
              obtain rfl := Option.some.inj (seen.symm.trans seen')
              simp only [Bool.or_eq_true, decide_eq_true_eq, Bool.and_eq_true] at first
              omega
          · next later =>
              refine befalls_stop seen ?_
              intro other mem
              obtain rfl := Option.some.inj (fin.symm.trans mem)
              simp only [Bool.or_eq_true, decide_eq_true_eq, Bool.and_eq_true] at later
              exact Nat.le_of_not_lt fun before => later (Or.inl before)

/-! ## What is known at each stage -/

inductive Stands (c : Child) (start grace : Nat) (token : Cancellation) : Care → Prop
  | watching {now : Nat} (from_ : start ≤ now) (runs : ∀ e ∈ endFrom start c.ends, now ≤ e.1)
      (free : ∀ t ∈ token.seenFrom start, now ≤ t) :
      Stands c start grace token ⟨now, .watching, []⟩
  | asking {now : Nat} (seen : token.seenFrom start = some now)
      (runs : ∀ e ∈ endFrom start c.ends, now ≤ e.1) :
      Stands c start grace token ⟨now, .asking, []⟩
  | granting {now t : Nat} (seen : token.seenFrom start = some t)
      (own : ∀ e ∈ endFrom start c.ends, t ≤ e.1) (within : now ≤ t + grace)
      (runs : ∀ e ∈ c.endOnceAsked start t, now ≤ e.1) :
      Stands c start grace token ⟨now, .granting t, [(t, .sent .ask)]⟩
  | forcing {t : Nat} (seen : token.seenFrom start = some t)
      (own : ∀ e ∈ endFrom start c.ends, t ≤ e.1)
      (runs : ∀ e ∈ c.endOnceAsked start t, t + grace < e.1) :
      Stands c start grace token ⟨t + grace, .forcing, [(t, .sent .ask)]⟩
  | collecting {t : Nat} (seen : token.seenFrom start = some t)
      (own : ∀ e ∈ endFrom start c.ends, t ≤ e.1)
      (runs : ∀ e ∈ c.endOnceAsked start t, t + grace < e.1) :
      Stands c start grace token
        ⟨t + grace, .collecting, [(t, .sent .ask), (t + grace, .sent .force)]⟩
  | gone {now : Nat} {status : ExitStatus} {nudges : List (Nat × Nudge)} {tie : Bool}
      (fate : c.fate start grace token tie = ⟨some (now, status), nudges⟩) :
      Stands c start grace token
        ⟨now, .gone, nudges.map (fun e => (e.1, .sent e.2)) ++ [(now, .collected status)]⟩

theorem runs_endOnceAsked {t : Nat} (own : ∀ e ∈ endFrom start c.ends, t ≤ e.1) :
    ∀ e ∈ c.endOnceAsked start t, t ≤ e.1 := by
  intro e mem
  have asked : ∀ e ∈ endFrom t c.yields, t ≤ e.1 := le_of_endFrom
  unfold endOnceAsked at mem
  cases first : endFrom start c.ends with
  | none =>
      rw [first] at mem
      exact asked e mem
  | some a =>
      cases second : endFrom t c.yields with
      | none =>
          rw [first, second] at mem
          exact own e (first.trans mem)
      | some b =>
          rw [first, second] at mem
          obtain rfl := Option.some.inj mem
          split
          · exact own a first
          · exact asked b second

theorem Stands.step {k next : Care} (stands : Stands c start grace token k)
    (step : c.Step start grace token k next) : Stands c start grace token next := by
  -- time never goes past an end that is due, so that the end which is seen comes exactly now
  cases step with
  | @ended now e status deeds fin past =>
      cases stands with
      | watching from_ runs free =>
          obtain rfl : e = now := Nat.le_antisymm past (runs _ fin)
          exact .gone (fate_of_end fin free)
  | @noticed now deeds fired =>
      cases stands with
      | watching from_ runs free =>
          refine .asking ?_ runs
          unfold Cancellation.isFired at fired
          unfold Cancellation.seenFrom at free ⊢
          cases fires : token.firesAt with
          | none => simp [fires] at fired
          | some f =>
              simp only [fires, decide_eq_true_eq] at fired
              have before : now ≤ max start f := free _ (by rw [fires]; rfl)
              rw [Option.map_some, Option.some.injEq]
              omega
  | @watched now deeds later quiet =>
      cases stands with
      | watching from_ runs free =>
          refine .watching (from_.trans (Nat.le_succ now)) later ?_
          intro t seen
          rcases Nat.lt_or_eq_of_le (free t seen) with before | same
          · exact before
          · obtain ⟨f, fires, rfl⟩ := Option.map_eq_some_iff.1 seen
            have early : now < f := by simpa [Cancellation.isFired, fires] using quiet
            omega
  | asks =>
      cases stands with
      | asking seen runs =>
          exact .granting seen runs (Nat.le_add_right _ _) (runs_endOnceAsked runs)
  | @yielded now t e status deeds fin past =>
      cases stands with
      | granting seen own within runs =>
          obtain rfl : e = now := Nat.le_antisymm past (runs _ fin)
          exact .gone ((fate_of_seen seen own).trans (stop_of_end fin within))
  | granted later early =>
      cases stands with
      | granting seen own within runs => exact .granting seen own early later
  | @timedOut now t deeds later late =>
      cases stands with
      | granting seen own within runs =>
          obtain rfl : now = t + grace := Nat.le_antisymm within late
          exact .forcing seen own later
  | forces =>
      cases stands with
      | forcing seen own runs => exact .collecting seen own runs
  | collects =>
      cases stands with
      | collecting seen own runs =>
          exact .gone ((fate_of_seen seen own).trans (stop_of_runs runs))

theorem stands_of_reaches {k : Care} (reached : c.Reaches start grace token k) :
    Stands c start grace token k := by
  induction reached with
  | refl =>
      refine .watching (Nat.le_refl _) le_of_endFrom ?_
      intro t seen
      exact Cancellation.le_of_seenFrom seen
  | tail _ step ih => exact ih.step step

/-! ## Courses that come to an end -/

theorem reaches_watching (n : Nat) (runs : ∀ e ∈ endFrom start c.ends, start + n ≤ e.1)
    (free : ∀ t ∈ token.seenFrom start, start + n ≤ t) :
    c.Reaches start grace token ⟨start + n, .watching, []⟩ := by
  induction n with
  | zero => exact .refl
  | succ n ih =>
      refine .tail (ih (fun e mem => ?_) fun t seen => ?_) (.watched (fun e mem => ?_) ?_)
      · exact (Nat.le_succ _).trans (runs e mem)
      · exact (Nat.le_succ _).trans (free t seen)
      · exact runs e mem
      · unfold Cancellation.isFired
        cases fires : token.firesAt with
        | none => rfl
        | some f =>
            have before : start + (n + 1) ≤ max start f :=
              free _ (by simp [Cancellation.seenFrom, fires])
            simp only [decide_eq_false_iff_not]
            omega

theorem reaches_granting {t : Nat} {deeds : List (Nat × Deed)} (n : Nat) (within : n ≤ grace)
    (reached : c.Reaches start grace token ⟨t, .granting t, deeds⟩)
    (runs : ∀ e ∈ c.endOnceAsked start t, t + n ≤ e.1) :
    c.Reaches start grace token ⟨t + n, .granting t, deeds⟩ := by
  induction n with
  | zero => exact reached
  | succ n ih =>
      refine .tail (ih (Nat.le_of_succ_le within) fun e mem => ?_) (.granted (fun e mem => ?_) ?_)
      · exact (Nat.le_succ _).trans (runs e mem)
      · exact runs e mem
      · omega

theorem reaches_of_end {e : Nat} {status : ExitStatus}
    (fin : endFrom start c.ends = some (e, status)) (free : ∀ t ∈ token.seenFrom start, e ≤ t) :
    c.Reaches start grace token ⟨e, .gone, [(e, .collected status)]⟩ := by
  obtain ⟨n, rfl⟩ := Nat.exists_eq_add_of_le (le_of_endFrom _ fin)
  refine .tail (reaches_watching n ?_ free) (.ended fin (Nat.le_refl _))
  intro other mem
  obtain rfl := Option.some.inj (fin.symm.trans mem)
  exact Nat.le_refl _

theorem reaches_asked {t : Nat} (seen : token.seenFrom start = some t)
    (own : ∀ e ∈ endFrom start c.ends, t ≤ e.1) :
    c.Reaches start grace token ⟨t, .granting t, [(t, .sent .ask)]⟩ := by
  obtain ⟨n, rfl⟩ := Nat.exists_eq_add_of_le (Cancellation.le_of_seenFrom seen)
  have fired : token.isFired (start + n) = true := by
    obtain ⟨f, fires, same⟩ := Option.map_eq_some_iff.1 seen
    simp only [Cancellation.isFired, fires, decide_eq_true_eq]
    omega
  have watching : c.Reaches start grace token ⟨start + n, .watching, []⟩ := by
    refine reaches_watching n own ?_
    intro t seen'
    exact Nat.le_of_eq (Option.some.inj (seen.symm.trans seen'))
  exact (watching.tail (.noticed fired)).tail .asks

theorem Befalls.reaches {f : Fate} (way : Befalls c start grace token f) {now : Nat}
    {status : ExitStatus} (stopped : f.stopped = some (now, status)) :
    c.Reaches start grace token ⟨now, .gone, f.deeds⟩ := by
  cases way with
  | none => cases stopped
  | leaves fin free =>
      obtain ⟨rfl, rfl⟩ := Prod.mk.inj (Option.some.inj stopped)
      exact reaches_of_end fin free
  | @yields t e how seen own fin within =>
      obtain ⟨rfl, rfl⟩ := Prod.mk.inj (Option.some.inj stopped)
      obtain ⟨n, rfl⟩ := Nat.exists_eq_add_of_le (runs_endOnceAsked own _ fin)
      have asked : c.Reaches start grace token _ := reaches_asked seen own
      refine .tail (reaches_granting n (Nat.le_of_add_le_add_left within) asked ?_)
        (.yielded fin (Nat.le_refl _))
      intro other mem
      obtain rfl := Option.some.inj (fin.symm.trans mem)
      exact Nat.le_refl _
  | @forced t seen own runs =>
      obtain ⟨rfl, rfl⟩ := Prod.mk.inj (Option.some.inj stopped)
      have granted := reaches_granting grace (Nat.le_refl _) (reaches_asked seen own)
        fun e mem => Nat.le_of_lt (runs e mem)
      have forcing : c.Reaches start grace token _ :=
        granted.tail (.timedOut runs (Nat.le_refl _))
      exact (forcing.tail .forces).tail .collects

/-- The courses that come to an end are the fates of the child. -/
theorem reaches_gone_iff {now : Nat} {deeds : List (Nat × Deed)} :
    c.Reaches start grace token ⟨now, .gone, deeds⟩ ↔ ∃ tie,
      (c.fate start grace token tie).stopped.map (·.1) = some now ∧
        deeds = (c.fate start grace token tie).deeds := by
  constructor
  · intro reached
    cases stands_of_reaches reached with
    | @gone _ status nudges tie fate =>
        exact ⟨tie, by rw [fate]; rfl, by rw [fate]; rfl⟩
  · rintro ⟨tie, stopped, rfl⟩
    obtain ⟨⟨now, status⟩, at_, rfl⟩ := Option.map_eq_some_iff.1 stopped
    exact (befalls_fate c start grace token tie).reaches at_

/-! ## When a child ends, and what it is sent -/

theorem earlierEnd_time (a b : Option (Nat × ExitStatus)) :
    (earlierEnd a b).map (·.1) = earliest (a.map (·.1)) (b.map (·.1)) := by
  cases a with
  | none => cases b <;> rfl
  | some a =>
      cases b with
      | none => rfl
      | some b =>
          simp only [earlierEnd, earliest, Option.map_some, Option.some.injEq]
          split
          · next first => exact (Nat.min_eq_left first).symm
          · next last => exact (Nat.min_eq_right (Nat.le_of_not_le last)).symm

theorem endFrom_time (t : Nat) (given : Option (Nat × ExitStatus)) :
    (endFrom t given).map (·.1) = given.map (t + ·.1) := by
  simp [endFrom, Function.comp_def]

theorem leaves_of_seen {t : Nat} (seen : token.seenFrom start = some t) :
    c.leaves start token = (c.endOnceAsked start t).map (·.1) := by
  rw [endOnceAsked, earlierEnd_time, endFrom_time, endFrom_time, leaves, seen]
  rfl

theorem runs_iff_of_seen {t u : Nat} (seen : token.seenFrom start = some t) :
    (∀ e ∈ c.leaves start token, u < e) ↔ ∀ e ∈ c.endOnceAsked start t, u < e.1 := by
  rw [leaves_of_seen seen]
  simp

theorem le_of_fate {tie : Bool} {now : Nat} {status : ExitStatus}
    (stopped : (c.fate start grace token tie).stopped = some (now, status)) : start ≤ now := by
  have way := befalls_fate c start grace token tie
  generalize c.fate start grace token tie = f at way stopped
  cases way with
  | none => cases stopped
  | leaves fin free =>
      obtain ⟨rfl, rfl⟩ := Prod.mk.inj (Option.some.inj stopped)
      exact le_of_endFrom _ fin
  | yields seen own fin within =>
      obtain ⟨rfl, rfl⟩ := Prod.mk.inj (Option.some.inj stopped)
      exact (Cancellation.le_of_seenFrom seen).trans (runs_endOnceAsked own _ fin)
  | forced seen own runs =>
      obtain ⟨rfl, rfl⟩ := Prod.mk.inj (Option.some.inj stopped)
      exact (Cancellation.le_of_seenFrom seen).trans (Nat.le_add_right _ _)

theorem leaves_of_end {e : Nat} {status : ExitStatus}
    (fin : endFrom start c.ends = some (e, status)) (free : ∀ t ∈ token.seenFrom start, e ≤ t) :
    c.leaves start token = some e := by
  have own : c.ends.map (start + ·.1) = some e := by rw [← endFrom_time, fin]; rfl
  rw [leaves, own]
  cases asked : (token.seenFrom start).bind fun t => c.yields.map (t + ·.1) with
  | none => rfl
  | some y =>
      obtain ⟨t, seen, later⟩ := Option.bind_eq_some_iff.1 asked
      obtain ⟨given, -, rfl⟩ := Option.map_eq_some_iff.1 later
      exact congrArg some (Nat.min_eq_left ((free t seen).trans (Nat.le_add_right _ _)))

/-- A child ends when it does by itself or yields, or when its time is over. -/
theorem fate_time (c : Child) (start grace : Nat) (token : Cancellation) (tie : Bool) :
    (c.fate start grace token tie).stopped.map (·.1) =
      earliest (c.leaves start token) ((token.seenFrom start).map (· + grace)) := by
  have way := befalls_fate c start grace token tie
  generalize c.fate start grace token tie = f at way
  cases way with
  | none own free =>
      have never : c.leaves start token = none := by
        rw [leaves, ← endFrom_time, own, free]
        rfl
      rw [never, free]
      rfl
  | leaves fin free =>
      rw [leaves_of_end fin free]
      cases seen : token.seenFrom start with
      | none => rfl
      | some t =>
          have before := (free t seen).trans (Nat.le_add_right t grace)
          exact congrArg some (Nat.min_eq_left before).symm
  | yields seen own fin within =>
      rw [leaves_of_seen seen, fin, seen]
      exact congrArg some (Nat.min_eq_left within).symm
  | @forced t seen own runs =>
      rw [leaves_of_seen seen, seen]
      cases fin : c.endOnceAsked start t with
      | none => rfl
      | some e => exact congrArg some (Nat.min_eq_right (Nat.le_of_lt (runs e fin))).symm

theorem force_mem_iff {tie : Bool} {u : Nat} :
    (u, .force) ∈ (c.fate start grace token tie).nudges ↔
      ∃ t, token.seenFrom start = some t ∧ u = t + grace ∧
        ∀ e ∈ c.leaves start token, u < e := by
  have way := befalls_fate c start grace token tie
  generalize c.fate start grace token tie = f at way
  constructor
  · intro mem
    cases way with
    | none | leaves | yields => simp at mem
    | @forced t seen own runs =>
        obtain rfl : u = t + grace := by simpa using mem
        exact ⟨t, seen, rfl, (runs_iff_of_seen seen).2 runs⟩
  · rintro ⟨t, seen, rfl, runs⟩
    cases way with
    | none own free => cases free.symm.trans seen
    | @leaves e status fin free =>
        have late := runs e (leaves_of_end fin free)
        have early := free t seen
        omega
    | @yields t' e status seen' own fin within =>
        obtain rfl := Option.some.inj (seen'.symm.trans seen)
        have late := (runs_iff_of_seen seen).1 runs (e, status) fin
        exact absurd within (Nat.not_le.2 late)
    | @forced t' seen' own runs' =>
        obtain rfl := Option.some.inj (seen'.symm.trans seen)
        simp

/-! ## What is done to a child in the course of time -/

def CollectedLast (deeds : List (Nat × Deed)) : Prop :=
  deeds.Pairwise fun d _ => ∀ status, d.2 ≠ .collected status

theorem collectedLast_sent (nudges : List (Nat × Nudge)) (last : Nat × Deed) :
    CollectedLast (nudges.map (fun e => (e.1, .sent e.2)) ++ [last]) := by
  apply List.pairwise_append.2
  refine ⟨?_, List.pairwise_singleton _ _, ?_⟩
  · apply List.pairwise_map.2
    exact List.pairwise_of_forall fun e f status => by simp
  · intro d mem _ _ status
    obtain ⟨e, -, rfl⟩ := List.mem_map.1 mem
    simp

theorem Stands.collectedLast {k : Care} (stands : Stands c start grace token k) :
    CollectedLast k.deeds := by
  cases stands with
  | watching | asking => exact .nil
  | granting | forcing | collecting => simp [CollectedLast]
  | gone fate => exact collectedLast_sent _ _

theorem Stands.force_mem {k : Care} (stands : Stands c start grace token k) {u : Nat}
    (mem : (u, .sent .force) ∈ k.deeds) :
    ∃ t, token.seenFrom start = some t ∧ u = t + grace ∧ ∀ e ∈ c.leaves start token, u < e := by
  cases stands with
  | watching | asking | granting | forcing => simp at mem
  | @collecting t seen own runs =>
      obtain rfl : u = t + grace := by simpa using mem
      exact ⟨t, seen, rfl, (runs_iff_of_seen seen).2 runs⟩
  | @gone now status nudges tie fate =>
      have sent : (u, .force) ∈ (c.fate start grace token tie).nudges := by
        rw [fate]
        simpa using mem
      exact force_mem_iff.1 sent

end StoreWarden.Engine.Child
