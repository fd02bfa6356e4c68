/-!
# Time and cancellation

Time is counted in whole milliseconds from the start of a run.  The shared cancellation is known
by the time at which it fires, if it ever does: a holder at time `t` sees it fired exactly if that
time is not after `t`.  Cancelling again never moves it later.
-/

namespace StoreWarden

/-- The shared cancellation of a run, by the time at which it fires. -/
structure Cancellation where
  firesAt : Option Nat
deriving DecidableEq, Repr

namespace Cancellation

def never : Cancellation := ⟨none⟩

def firingAt (t : Nat) : Cancellation := ⟨some t⟩

/-- Whether the cancellation has fired at time `t`. -/
def isFired (c : Cancellation) (t : Nat) : Bool :=
  match c.firesAt with
  | none => false
  | some f => f ≤ t

/-- The cancellation after somebody also cancels at time `t`. -/
def cancel (c : Cancellation) (t : Nat) : Cancellation :=
  match c.firesAt with
  | none => ⟨some t⟩
  | some f => ⟨some (min f t)⟩

/-- When somebody who starts to watch at `now` sees the cancellation. -/
def seenFrom (c : Cancellation) (now : Nat) : Option Nat := c.firesAt.map (max now)

@[simp] theorem isFired_never (t : Nat) : never.isFired t = false := rfl

theorem isFired_cancel (c : Cancellation) (t u : Nat) :
    (c.cancel t).isFired u = (c.isFired u || decide (t ≤ u)) := by
  unfold cancel isFired
  cases c.firesAt with
  | none => simp
  | some f =>
    have : min f t ≤ u ↔ f ≤ u ∨ t ≤ u := by omega
    simp [this]

theorem isFired_mono {c : Cancellation} {t u : Nat} (h : t ≤ u) (fired : c.isFired t = true) :
    c.isFired u = true := by
  unfold isFired at *
  cases hf : c.firesAt with
  | none => simp [hf] at fired
  | some f => simp [hf] at fired ⊢; omega

theorem isFired_eq_false_of_le {c : Cancellation} {t u : Nat} (h : t ≤ u)
    (free : c.isFired u = false) : c.isFired t = false := by
  rw [Bool.eq_false_iff]
  intro fired
  rw [isFired_mono h fired] at free
  cases free

end Cancellation

def earliest : Option Nat → Option Nat → Option Nat
  | none, b => b
  | a, none => a
  | some a, some b => some (min a b)

/-- The first of several things to happen, each at an optional time.  Of things that happen
together the one that is named first counts. -/
def firstOf {α : Type} : List (Option Nat × α) → Option (Nat × α)
  | [] => none
  | (none, _) :: rest => firstOf rest
  | (some t, a) :: rest =>
    match firstOf rest with
    | none => some (t, a)
    | some (u, b) => if t ≤ u then some (t, a) else some (u, b)

end StoreWarden
