import StoreWarden.Failure
import StoreWarden.Readiness.Flag

/-!
# Watching the member

The member is checked again and again, and the flag is set to the outcome of every check.  Checks
are due at a steady pace.  One that is due while the check before it is still going starts as soon
as that ends; if it is then more than `tolerance` late, the pace begins anew from there.  A check
that takes too long counts as failed, and no two checks are ever in flight together.

The watch ends with the run: a check that has not finished when the run is cancelled has no effect.
-/

namespace StoreWarden.Readiness

/-- One check of the member, as it turns out. -/
structure Check where
  /-- How long it takes to answer, if it ever does. -/
  takes : Option Nat
  /-- Whether the answer is that the member serves. -/
  serves : Bool

structure Watch where
  /-- The pace of the checks. -/
  interval : Nat := 2000
  /-- The longest that a check may take. -/
  limit : Nat := 5000

/-- The lateness up to which a check counts as on time. -/
def tolerance : Nat := 5

structure Round where
  /-- How many rounds came before. -/
  number : Nat
  /-- When the check was due. -/
  due : Nat
  /-- When it began. -/
  start : Nat
  /-- When it answered or was given up. -/
  finish : Nat
  /-- What the flag is then set to. -/
  ready : Bool
deriving DecidableEq, Repr

namespace Watch

/-- The round with this number that is due at one time, if the one before ended at another. -/
def round (w : Watch) (checks : Nat → Check) (number due free : Nat) : Round :=
  let start := max due free
  match (checks number).takes with
  | some d =>
    if d ≤ w.limit then ⟨number, due, start, start + d, (checks number).serves⟩
    else ⟨number, due, start, start + w.limit, false⟩
  | none => ⟨number, due, start, start + w.limit, false⟩

def first (w : Watch) (checks : Nat → Check) : Round := w.round checks 0 0 0

def dueAfter (w : Watch) (r : Round) : Nat :=
  if r.start > r.due + tolerance then r.start + w.interval else r.due + w.interval

def next (w : Watch) (checks : Nat → Check) (r : Round) : Round :=
  w.round checks (r.number + 1) (w.dueAfter r) r.finish

/-- Up to `count` rounds, from this one on, that begin before the end of the watch. -/
def roundsFrom (w : Watch) (checks : Nat → Check) (stop : Nat) : (count : Nat) → Round → List Round
  | 0, _ => []
  | count + 1, r =>
    if r.start < stop then r :: w.roundsFrom checks stop count (w.next checks r) else []

/-- All rounds of a watch that ends at `stop`.  A pace of zero cannot be kept.  Every round is due
later than the one before, so there are no more than `stop` of them. -/
def rounds (w : Watch) (checks : Nat → Check) (stop : Nat) : Except Defect (List Round) :=
  if w.interval = 0 then .error .zeroPeriod
  else .ok (w.roundsFrom checks stop stop (w.first checks))

end Watch

/-- What is written to the flag in a watch that ends at `stop`, and when. -/
def writes (rounds : List Round) (stop : Nat) : List (Nat × Bool) :=
  (rounds.filter (·.finish < stop)).map fun r => (r.finish, r.ready)

/-- The flag at time `t`, in a watch that ends at `stop`: after all that has been written. -/
def flagAt (initial : Flag) (rounds : List Round) (stop t : Nat) : Flag :=
  ((writes rounds stop).filter (·.1 ≤ t)).foldl (fun f w => (f.set w.2).1) initial

end StoreWarden.Readiness
