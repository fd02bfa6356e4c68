import StoreWarden.Settings.Print

/-!
# Settings that have a text

Settings can be printed just if all their paths are UTF-8 and the number among them is in the signed
range, `isOk_toToml`.
-/

set_option autoImplicit false

namespace StoreWarden.Settings

def isPrintable (s : Settings) : Bool :=
  s.pathsReadable && decide (s.waitReadySeconds.toNat ≤ maxNumber)

theorem isOk_bind {ε α β : Type} {x : Except ε α} {f : α → Except ε β} {b : Bool}
    (same : ∀ a, (f a).isOk = b) : (x >>= f).isOk = (x.isOk && b) := by
  cases x with
  | error e => rfl
  | ok a => exact same a

theorem isOk_numberValue (n : Nat) : (numberValue n).isOk = decide (n ≤ maxNumber) := by
  unfold numberValue
  split <;> simp_all [Except.isOk, Except.toBool]

theorem isOk_pathValue (p : Path) : (pathValue p).isOk = p.toString?.isSome := by
  unfold pathValue
  cases p.toString? <;> rfl

theorem isOk_optionField {α : Type} (name : String) (f : α → Except PrintFault Toml.Value)
    (value : Option α) :
    (optionField name f value).isOk = value.toList.all fun a => (f a).isOk := by
  cases value with
  | none => rfl
  | some a =>
      rw [optionField, isOk_bind (b := true) fun _ => rfl]
      simp

theorem isOk_sidecarFields (s : SidecarSettings) :
    (sidecarFields s).isOk = s.bundle.toList.all fun p => p.toString?.isSome := by
  rw [sidecarFields, isOk_bind (b := true) fun _ => rfl, isOk_optionField, Bool.and_true]
  simp only [isOk_pathValue]

theorem isOk_clientFields (c : ClientSettings) : (clientFields c).isOk =
    ((c.ca.toList ++ c.cert.toList ++ c.key.toList).all fun p => p.toString?.isSome) := by
  rw [clientFields, isOk_bind fun _ => isOk_bind fun _ => isOk_bind fun _ =>
    isOk_bind (b := true) fun _ => rfl]
  have name : (optionField "server_name" (fun s => .ok (.string s)) c.serverName).isOk = true := by
    rw [isOk_optionField]
    simp [Except.isOk, Except.toBool]
  rw [name]
  simp only [isOk_optionField, isOk_pathValue, Bool.true_and, Bool.and_true, List.all_append,
    Bool.and_assoc]

theorem isOk_table (s : Settings) : s.table.isOk = s.isPrintable := by
  rw [table, isOk_bind fun _ => isOk_bind fun _ => isOk_bind fun _ => isOk_bind fun _ =>
    isOk_bind (b := true) fun _ => rfl]
  simp only [isOk_numberValue, isOk_pathValue, isOk_sidecarFields, isOk_clientFields]
  rw [isPrintable, pathsReadable, Bool.and_comm]
  simp only [List.all_append, List.all_cons, List.all_nil, Bool.and_true, Bool.and_assoc]

theorem isOk_toToml (s : Settings) : s.toToml.isOk = s.isPrintable := by
  rw [toToml, isOk_bind (b := true) fun _ => rfl, isOk_table, Bool.and_true]

end StoreWarden.Settings
