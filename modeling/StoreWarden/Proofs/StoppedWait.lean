import StoreWarden.Proofs.HonestParts
import StoreWarden.Proofs.RunCourse

/-!
# A wait that is cancelled outlasts its child

A member that is a child process and is granted less time than a cancelled wait has, stops before
that wait is over.  So a wait ends well only once the child is gone, at the time of its stop or as
soon as the cancellation is seen, and what bounds the wait never ends it.
-/

set_option autoImplicit false

namespace StoreWarden.Life

open Engine (Child Member Supervisor lasting_stopped)

variable {s : Life} {b : Member} {grace launched : Nat}

def StopsWithin (b : Member) (token : Cancellation) (launched grace : Nat) : Prop :=
  ∀ seen, token.seenFrom launched = some seen →
    ∃ t, b.stoppedFrom token launched = some t ∧ t ≤ seen + grace

/-- How a wait that has ended well has ended. -/
structure Outlasts (b : Member) (launched : Nat) (s : Life) (o : Outcome Unit × Member) : Prop where
  ends : ∃ seen t, s.moment.token.seenFrom s.moment.now = some seen ∧
    b.stoppedFrom s.moment.token launched = some t ∧ o.1.life.moment.now = max seen t ∧
      o.1.life.moment.now < seen + stopLimit
  stopped : o.2.reports.stopped = true

theorem seenFrom_later {token : Cancellation} {now later t : Nat} (after : now ≤ later)
    (seen : token.seenFrom later = some t) :
    ∃ u ≤ t, token.seenFrom now = some u := by
  unfold Cancellation.seenFrom at seen ⊢
  obtain ⟨f, fires, rfl⟩ := Option.map_eq_some_iff.1 seen
  exact ⟨max now f, by omega, by rw [fires]; rfl⟩

theorem lastFrom_advance (ordered : b.InOrder) {token : Cancellation} {u t : Nat}
    (after : launched ≤ u) (stops : b.stoppedFrom token launched = some t)
    (soon : t < u + stopLimit) : lastFrom (b.advance token u) token u = max u t := by
  have time : (b.advance token u).stoppedFrom token u = some (max u t) :=
    (Member.timeOf_advance_self ordered u).trans
      (Member.timeOf_later ordered lasting_stopped after stops)
  have bounded : max u t ≤ u + stopLimit := by omega
  rw [lastFrom, time]
  exact Nat.min_eq_left bounded

theorem wait_of_cancelled {u : Nat} (ends : ending s.moment b = some (u, .cancelled)) :
    s.wait b =
      ((s.moveTo (lastFrom (b.advance s.moment.token u) s.moment.token u)).finish (.ok ()),
        (b.advance s.moment.token u).advance s.moment.token
          (lastFrom (b.advance s.moment.token u) s.moment.token u)) := by
  simp only [wait, ends]
  rfl

theorem ending_of_wait_ok (ended : (s.wait b).1.answer = some (.ok ())) :
    ∃ u, ending s.moment b = some (u, .cancelled) := by
  unfold wait at ended
  cases ends : ending s.moment b with
  | none =>
      rw [ends] at ended
      cases ended
  | some found =>
      obtain ⟨u, event⟩ := found
      cases event with
      | cancelled => exact ⟨u, rfl⟩
      | failed | stopped =>
          rw [ends] at ended
          cases ended

theorem outlasts_of_cancelled (ordered : b.InOrder)
    (within : StopsWithin b s.moment.token launched grace) (short : grace < stopLimit)
    (after : launched ≤ s.moment.now) {known u : Nat} (past : known ≤ s.moment.now)
    (ends : ending s.moment (b.advance s.moment.token known) = some (u, .cancelled)) :
    Outlasts b launched s (s.wait (b.advance s.moment.token known)) := by
  have seen : s.moment.token.seenFrom s.moment.now = some u := (ending_eq_cancelled_iff.1 ends).1
  have later : s.moment.now ≤ u := Cancellation.le_of_seenFrom seen
  -- the supervisor has seen the cancellation no later than the wait does
  obtain ⟨first, before, seen'⟩ := seenFrom_later after seen
  obtain ⟨t, stops, soon⟩ := within first seen'
  have intime : t < u + stopLimit := by omega
  have same : (b.advance s.moment.token known).advance s.moment.token u =
      b.advance s.moment.token u := Member.advance_advance ordered (past.trans later)
  have last : lastFrom (b.advance s.moment.token u) s.moment.token u = max u t :=
    lastFrom_advance ordered (after.trans later) stops intime
  rw [wait_of_cancelled ends, same, last]
  constructor
  case ends =>
    refine ⟨u, t, seen, stops, rfl, ?_⟩
    have positive : 0 < stopLimit := Nat.zero_lt_of_lt short
    change max u t < u + stopLimit
    omega
  case stopped =>
    change ((b.advance _ u).advance _ (max u t)).reports.stopped = true
    rw [Member.advance_advance ordered (Nat.le_max_left u t)]
    have time := Member.timeOf_later ordered lasting_stopped (after.trans later) stops
    exact ((Member.timeOf_eq_some_iff ordered lasting_stopped).1 time).2.1

theorem wait_answer_ne_none {f : Nat} (fires : s.moment.token.firesAt = some f) :
    (s.wait b).1.answer ≠ none := by
  unfold wait
  cases ends : ending s.moment b with
  | none =>
      have never := firstOf_eq_none_iff.1 ends
        (s.moment.token.seenFrom s.moment.now, .cancelled) (by simp)
      simp [Cancellation.seenFrom, fires] at never
  | some found =>
      obtain ⟨u, event⟩ := found
      cases event <;> simp [finish]

/-! ## Child processes -/

/-- What holds of a child that was started as a member at `launched`. -/
structure LooksAfter (s : Supervisor) (child : Child) (tie : Bool) (m : Moment) (b : Member) :
    Prop where
  /-- The stop is reported when the child ends, or when its time is over. -/
  stops : b.stoppedFrom m.token m.now =
    earliest (child.leaves m.now m.token) ((m.token.seenFrom m.now).map (· + s.grace))
  /-- It is reported at the end of every course that comes to an end. -/
  gone : ∀ now deeds, child.Reaches m.now s.grace m.token ⟨now, .gone, deeds⟩ →
    b.stoppedFrom m.token m.now = some now
  collectedLast : ∀ k, child.Reaches m.now s.grace m.token k → Child.CollectedLast k.deeds
  forced : ∀ k u, child.Reaches m.now s.grace m.token k → (u, .sent .force) ∈ k.deeds →
    ∃ t, m.token.seenFrom m.now = some t ∧ u = t + s.grace ∧
      ∀ e ∈ child.leaves m.now m.token, u < e
  /-- What came of the child is the outcome of a course. -/
  fate : ∀ now, b.stoppedFrom m.token m.now = some now →
    child.Reaches m.now s.grace m.token
      ⟨now, .gone, (child.fate m.now s.grace m.token tie).deeds⟩
  /-- A wait on it, entered at any time, outlasts the child if it ends well. -/
  outlasts : ∀ (life : Life) (known : Nat), life.moment.token = m.token →
    m.now ≤ life.moment.now → known ≤ life.moment.now →
    (life.wait (b.advance m.token known)).1.answer = some (.ok ()) →
    Outlasts b m.now life (life.wait (b.advance m.token known))
  returns : ∀ (life : Life) (known f : Nat), life.moment.token = m.token →
    m.token.firesAt = some f → (life.wait (b.advance m.token known)).1.answer ≠ none

theorem start_looksAfter {s : Supervisor} {spawn : String → List Bytes → Except Os.Fault Child}
    {checks : Nat → Readiness.Check} {rounds : Nat} {tie : Bool} {document : Path}
    {m next : Moment} {b : Member} {child : Child}
    (launched : s.start spawn checks rounds tie document m = some (next, .ok b))
    (spawned : spawn s.program (Supervisor.arguments document) = .ok child)
    (short : s.grace < stopLimit) : LooksAfter s child tie next b := by
  have ordered : b.InOrder := (Supervisor.honest_member launched).1
  have fate := Supervisor.stoppedFrom_eq_fate launched spawned
  have stops : b.stoppedFrom next.token next.now =
      earliest (child.leaves next.now next.token)
        ((next.token.seenFrom next.now).map (· + s.grace)) := by
    rw [fate, Child.fate_time]
  constructor
  case stops => exact stops
  case gone =>
    intro now deeds reached
    obtain ⟨other, time, -⟩ := Child.reaches_gone_iff.1 reached
    rw [stops, ← time, Child.fate_time]
  case collectedLast =>
    intro k reached
    exact (Child.stands_of_reaches reached).collectedLast
  case forced =>
    intro k u reached mem
    exact (Child.stands_of_reaches reached).force_mem mem
  case fate =>
    intro now stopped
    exact Child.reaches_gone_iff.2 ⟨tie, fate.symm.trans stopped, rfl⟩
  case outlasts =>
    intro life known same after past ended
    have within : StopsWithin b life.moment.token next.now s.grace := by
      intro seen at_
      rw [same] at at_ ⊢
      rw [stops, at_]
      cases child.leaves next.now next.token with
      | none => exact ⟨_, rfl, Nat.le_refl _⟩
      | some e => exact ⟨_, rfl, Nat.min_le_right _ _⟩
    rw [← same] at ended ⊢
    obtain ⟨u, ends⟩ := ending_of_wait_ok ended
    exact outlasts_of_cancelled ordered within short after past ends
  case returns =>
    intro life known f same fires
    exact wait_answer_ne_none (same.symm ▸ fires)

def stubborn : Child := ⟨none, none⟩

def keeper : Supervisor := { program := "etcd" }

def stubbornMember : Member :=
  .launched 0 (keeper.timeline stubborn (fun _ => ⟨some 20, true⟩) 1 0 false) (.firingAt 5000)

/-- A run that waits on a member that serves, to be cancelled at 5000. -/
def attending : Life := ⟨⟨600, .firingAt 5000, .empty⟩, some .empty, some ⟨none⟩, []⟩

/-- The child is forced to end at 15000, and the wait ends with it. -/
theorem start_looksAfter_stubborn :
    stubbornMember.stoppedFrom (.firingAt 5000) 0 = some 15000 ∧
      (attending.wait (stubbornMember.advance (.firingAt 5000) 520)).1.life.moment.now = 15000 ∧
      (attending.wait (stubbornMember.advance (.firingAt 5000) 520)).2.reports.stopped = true := by
  have launched : keeper.start (fun _ _ => .ok stubborn) (fun _ => ⟨some 20, true⟩) 1 false ⟨[]⟩
      ⟨0, .firingAt 5000, .empty⟩ = some (⟨0, .firingAt 5000, .empty⟩, .ok stubbornMember) := by rfl
  have laws := start_looksAfter launched rfl (by decide)
  have stops : stubbornMember.stoppedFrom (.firingAt 5000) 0 = some 15000 := laws.stops
  have outlasts := laws.outlasts attending 520 rfl (Nat.zero_le _) (by decide) (by rfl)
  obtain ⟨seen, t, at_, stops', last, -⟩ := outlasts.ends
  have stop : 15000 = t := Option.some.inj (stops.symm.trans stops')
  have notice : 5000 = seen := Option.some.inj at_
  have latest : max seen t = 15000 := by omega
  exact ⟨stops, last.trans latest, outlasts.stopped⟩

end StoreWarden.Life
