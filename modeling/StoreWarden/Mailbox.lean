/-!
# Mailboxes

A mailbox hands items from senders to one receiver in the order in which they were accepted.  It
holds no more than its capacity, and accepts nothing once the receiver has left.  Items accepted
before the last sender left are still handed out.
-/

namespace StoreWarden

structure Mailbox (α : Type) (capacity : Nat) where
  /-- The accepted items that have not been taken, the oldest first. -/
  items : List α
  /-- Whether no sender is left. -/
  unattended : Bool
  /-- Whether the receiver has left. -/
  closed : Bool
  fits : items.length ≤ capacity

/-- What becomes of an attempt to send. -/
inductive Delivery where
  | sent
  /-- No place is free. -/
  | full
  /-- The receiver has left. -/
  | closed
  /-- The sender itself has left. -/
  | dropped
deriving DecidableEq, Repr

def Delivery.name : Delivery → String
  | .sent => "sent"
  | .full => "full"
  | .closed => "closed"
  | .dropped => "dropped"

namespace Mailbox

variable {α : Type} {capacity : Nat}

def empty : Mailbox α capacity := ⟨[], false, false, Nat.zero_le _⟩

/-- Attempts to send, without waiting for a place. -/
def send (b : Mailbox α capacity) (item : α) : Mailbox α capacity × Delivery :=
  if b.unattended then (b, .dropped)
  else if b.closed then (b, .closed)
  else if h : b.items.length < capacity then
    ({ b with items := b.items ++ [item], fits := by rw [List.length_append]; exact h }, .sent)
  else (b, .full)

def take (b : Mailbox α capacity) : Mailbox α capacity × Option α :=
  match h : b.items with
  | [] => (b, none)
  | item :: rest =>
    ({ b with items := rest, fits := Nat.le_of_succ_le (by have := b.fits; rwa [h] at this) },
      some item)

/-- The last sender leaves. -/
def abandon (b : Mailbox α capacity) : Mailbox α capacity := { b with unattended := true }

/-- The receiver leaves, and what was accepted is lost. -/
def close (b : Mailbox α capacity) : Mailbox α capacity :=
  { b with items := [], closed := true, fits := Nat.zero_le _ }

def takeAll (b : Mailbox α capacity) : Mailbox α capacity × List α :=
  ({ b with items := [], fits := Nat.zero_le _ }, b.items)

/-! ## What sending and taking come to -/

/-- All ways in which an attempt to send ends. -/
inductive Sends (b : Mailbox α capacity) (item : α) : Mailbox α capacity × Delivery → Prop
  | dropped (gone : b.unattended = true) : Sends b item (b, .dropped)
  | closed (here : b.unattended = false) (left : b.closed = true) : Sends b item (b, .closed)
  | full (here : b.unattended = false) (open_ : b.closed = false)
      (taken : b.items.length = capacity) : Sends b item (b, .full)
  | sent (here : b.unattended = false) (open_ : b.closed = false)
      (room : b.items.length < capacity) {next : Mailbox α capacity}
      (items : next.items = b.items ++ [item])
      (same : next.unattended = b.unattended ∧ next.closed = b.closed) :
      Sends b item (next, .sent)

theorem sends (b : Mailbox α capacity) (item : α) : Sends b item (b.send item) := by
  unfold send
  split
  case isTrue gone => exact .dropped gone
  case isFalse here =>
    have here := Bool.eq_false_iff.2 here
    split
    case isTrue left => exact .closed here left
    case isFalse open_ =>
      have open_ := Bool.eq_false_iff.2 open_
      split
      case isTrue room => exact .sent here open_ room rfl ⟨rfl, rfl⟩
      case isFalse taken =>
        exact .full here open_ (Nat.le_antisymm b.fits (Nat.not_lt.1 taken))

theorem send_same (b : Mailbox α capacity) (item : α) :
    (b.send item).1.unattended = b.unattended ∧ (b.send item).1.closed = b.closed := by
  have way := b.sends item
  generalize b.send item = result at way
  cases way with
  | dropped | closed | full => exact ⟨rfl, rfl⟩
  | sent here open_ room items same => exact same

theorem send_items (b : Mailbox α capacity) (item : α) : (b.send item).1.items =
    b.items ++ if (b.send item).2 = .sent then [item] else [] := by
  have way := b.sends item
  generalize b.send item = result at way
  cases way with
  | dropped | closed | full => simp
  | sent here open_ room items same => simpa using items

inductive Takes (b : Mailbox α capacity) : Mailbox α capacity × Option α → Prop
  | none (empty : b.items = []) : Takes b (b, none)
  | some {item : α} {next : Mailbox α capacity} (items : b.items = item :: next.items)
      (same : next.unattended = b.unattended ∧ next.closed = b.closed) :
      Takes b (next, some item)

theorem takes (b : Mailbox α capacity) : Takes b b.take := by
  obtain ⟨items, unattended, closed, fits⟩ := b
  cases items with
  | nil => exact .none rfl
  | cons item rest => exact .some rfl ⟨rfl, rfl⟩

theorem take_snd (b : Mailbox α capacity) : b.take.2 = b.items.head? := by
  have way := b.takes
  generalize b.take = result at way
  cases way with
  | none empty => rw [empty, List.head?_nil]
  | some items same => rw [items, List.head?_cons]

end Mailbox

end StoreWarden
