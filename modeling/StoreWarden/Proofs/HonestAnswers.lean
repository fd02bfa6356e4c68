import StoreWarden.Command
import StoreWarden.Proofs.CancelledHandshake
import StoreWarden.Proofs.MemberTimes

/-!
# Who answers that it was cancelled

What only looks at files and texts never answers that it was cancelled, whatever it finds.  So the
parts of a run answer that only once the cancellation has fired, and a member that runs as a child
process never does.  But for the reading of a document, none of it breaks an assumption either.
-/

set_option autoImplicit false

namespace StoreWarden

/-- An answer other than that something was cancelled. -/
def Uncancelled {α : Type} (answer : Except Failure α) : Prop := answer ≠ .error .cancelled

namespace Uncancelled

variable {α β : Type}

@[simp] theorem ok (a : α) : Uncancelled (.ok a : Except Failure α) := by simp [Uncancelled]

@[simp] theorem error_iff {failure : Failure} :
    Uncancelled (.error failure : Except Failure α) ↔ failure ≠ .cancelled := by simp [Uncancelled]

theorem passed_on {x : Except Failure α} {failure : Failure} (own : Uncancelled x)
    (failed : x = .error failure) : Uncancelled (.error failure : Except Failure β) := by
  rw [failed] at own
  exact error_iff.2 (error_iff.1 own)

theorem bind {x : Except Failure α} {f : α → Except Failure β} (first : Uncancelled x)
    (next : ∀ a, Uncancelled (f a)) : Uncancelled (x >>= f) := by
  cases x with
  | error failure => exact first.passed_on rfl
  | ok a => exact next a

theorem foldlM {f : β → α → Except Failure β} (step : ∀ b a, Uncancelled (f b a)) (xs : List α) :
    ∀ b, Uncancelled (xs.foldlM f b) := by
  induction xs with
  | nil => intro b; exact ok b
  | cons x rest ih => intro b; exact bind (step b x) ih

end Uncancelled

/-- A failure of its own kind: nothing was cancelled, and no assumption is broken. -/
def Failure.isOrdinary : Failure → Bool
  | .cancelled | .defect _ => false
  | _ => true

/-- An answer that, if it is a failure, is an ordinary one. -/
def Ordinary {α : Type} (answer : Except Failure α) : Prop :=
  ∀ failure, answer = .error failure → failure.isOrdinary = true

namespace Ordinary

variable {α β : Type} {x : Except Failure α}

theorem ok (a : α) : Ordinary (.ok a : Except Failure α) := by simp [Ordinary]

@[simp] theorem error_iff {failure : Failure} :
    Ordinary (.error failure : Except Failure α) ↔ failure.isOrdinary = true := by simp [Ordinary]

theorem bind {f : α → Except Failure β} (first : Ordinary x) (next : ∀ a, Ordinary (f a)) :
    Ordinary (x >>= f) := by
  cases x with
  | error failure => exact error_iff.2 (error_iff.1 first)
  | ok a => exact next a

/-- A check that fails in its own way, and what comes after it. -/
theorem check {c : Prop} [Decidable c] {failure : Failure} {next : Unit → Except Failure β}
    (own : failure.isOrdinary = true) (after : ∀ a, Ordinary (next a)) :
    Ordinary (if c then .error failure >>= next else next ()) := by
  split
  · exact error_iff.2 own
  · exact after ()

theorem uncancelled (own : Ordinary x) : Uncancelled x := by
  intro cancelled
  cases own _ cancelled

theorem unbroken (own : Ordinary x) (d : Defect) : x ≠ .error (.defect d) := by
  intro broken
  cases own _ broken

end Ordinary

/-! ## TLS material -/

namespace Tls

variable (fs : Os.FileSystem) (path cert key : Path)

theorem ordinary_failAt {α : Type} (fault : Fault) :
    Ordinary (failAt path fault : Except Failure α) := Ordinary.error_iff.2 rfl

theorem ordinary_readFile : Ordinary (readFile fs path) := by
  unfold readFile
  cases fs.read path with
  | ok content => exact .ok content
  | error fault => exact ordinary_failAt path _

theorem ordinary_loadBundle : Ordinary (loadBundle fs path) := by
  refine (ordinary_readFile fs path).bind ?_
  intro text
  split
  · exact ordinary_failAt path _
  · exact ordinary_failAt path _
  · exact .ok _

theorem ordinary_loadIdentity : Ordinary (loadIdentity fs cert key) := by
  refine (ordinary_readFile fs cert).bind fun chain => ?_
  refine (ordinary_readFile fs key).bind fun secret => ?_
  split
  · exact .ok _
  · exact ordinary_failAt cert _

theorem ordinary_buildClient (roots : List Bytes) (identity : Option Identity) :
    Ordinary (buildClient roots identity) := by
  unfold buildClient
  split
  · exact .ok ()
  · exact Ordinary.error_iff.2 rfl

theorem ordinary_loadServed : Ordinary (loadServed fs cert key) := by
  unfold loadServed
  split
  · exact ordinary_failAt cert _
  · split
    · exact ordinary_failAt cert _
    · split
      · exact .ok ()
      · exact ordinary_failAt cert _

end Tls

namespace Readiness

variable (fs : Os.FileSystem)

theorem Server.ordinary_bind (portFault : Option Os.Fault) (credential : Option Credential) :
    Ordinary (Server.bind fs portFault credential) := by
  unfold Server.bind
  cases portFault with
  | some fault =>
      have refused : Ordinary (throw (.io fault) : Except Failure Server) :=
        Ordinary.error_iff.2 rfl
      cases credential with
      | none => exact refused
      | some c => exact (Tls.ordinary_loadServed fs c.cert c.key).bind fun _ => refused
  | none =>
      cases credential with
      | none => exact .ok _
      | some c => exact (Tls.ordinary_loadServed fs c.cert c.key).bind fun _ => .ok _

theorem Probe.ordinary_build (port : UInt16) (material : Option Tls.Material) :
    Ordinary (Probe.build fs port material) := by
  cases material with
  | none => exact .ok _
  | some material =>
      refine (Tls.ordinary_loadIdentity fs _ _).bind fun identity => ?_
      refine (Tls.ordinary_loadBundle fs _).bind fun roots => ?_
      exact (Tls.ordinary_buildClient roots _).bind fun _ => .ok _

end Readiness

theorem Life.ordinary_prepare (p : Parts) (fs : Os.FileSystem) (document : Engine.Settings) :
    Ordinary (prepare p fs document) := by
  unfold prepare
  cases p.checkGiven with
  | true => exact (Readiness.Server.ordinary_bind fs _ _).bind fun _ => .ok ()
  | false =>
      refine (Readiness.Probe.ordinary_build fs _ _).bind fun _ => ?_
      exact (Readiness.Server.ordinary_bind fs _ _).bind fun _ => .ok ()

theorem Sidecar.Client.ordinary_build (fs : Os.FileSystem) (s : SidecarSettings)
    (document : Path) : Ordinary (build fs s document) := by
  unfold build
  cases s.tlsEnabled with
  | false => exact .ok _
  | true =>
      cases s.bundle with
      | none => exact Ordinary.error_iff.2 rfl
      | some bundle =>
          refine (Tls.ordinary_loadBundle fs bundle).bind fun roots => ?_
          exact (Tls.ordinary_buildClient roots none).bind fun _ => .ok _

theorem Parts.ordinary_assemble (w : World) (fs : Os.FileSystem) (s : Settings) :
    Ordinary (assemble w fs s) :=
  (Sidecar.Client.ordinary_build fs s.sidecar s.documentPath).bind fun _ => .ok _

/-! ## The document -/

namespace Document

mutual

theorem uncancelled_ofNode (file : String) (node : Yaml.Node) :
    Uncancelled (ofNode file node) := by
  cases node with
  | void | null | boolean _ | integer _ | string _ => simp [ofNode]
  | real text =>
      simp only [ofNode]
      split <;> simp
  | sequence items =>
      simp only [ofNode]
      exact (uncancelled_ofNodes file items).bind fun _ => .ok _
  | mapping pairs =>
      simp only [ofNode]
      exact (uncancelled_ofPairs file pairs []).bind fun _ => .ok _

theorem uncancelled_ofNodes (file : String) (nodes : List Yaml.Node) :
    Uncancelled (ofNodes file nodes) := by
  cases nodes with
  | nil => simp [ofNodes]
  | cons node rest =>
      simp only [ofNodes]
      refine (uncancelled_ofNode file node).bind fun _ => ?_
      exact (uncancelled_ofNodes file rest).bind fun _ => .ok _

theorem uncancelled_ofPairs (file : String) (pairs : List (Yaml.Node × Yaml.Node))
    (es : List (String × Value)) : Uncancelled (ofPairs file pairs es) := by
  cases pairs with
  | nil => simp [ofPairs]
  | cons pair rest =>
      obtain ⟨key, node⟩ := pair
      cases key with
      | string key =>
          simp only [ofPairs]
          exact (uncancelled_ofNode file node).bind fun _ => uncancelled_ofPairs file rest _
      | integer n =>
          simp only [ofPairs]
          exact (uncancelled_ofNode file node).bind fun _ => uncancelled_ofPairs file rest _
      | void | null | boolean _ | real _ | sequence _ | mapping _ => simp [ofPairs]

end

theorem uncancelled_settle (es : List (String × Value)) :
    ∀ target, Uncancelled (settle target es) := by
  induction es with
  | nil => intro target; exact .ok target
  | cons e rest ih =>
      intro target
      simp only [settle]
      split
      · exact ih _
      · simp

theorem uncancelled_entriesOf (file : String) (text : List Char) :
    Uncancelled (entriesOf file text) := by
  unfold entriesOf
  split
  · simp
  · simp
  · rename_i node _
    have value := uncancelled_ofNode file node
    split
    · rename_i failed
      exact value.passed_on failed
    · simp
    · simp
  · simp

theorem uncancelled_read (fs : Os.FileSystem) (path : Path) : Uncancelled (read fs path) := by
  unfold read
  split
  · simp
  · split
    · simp
    · split
      · rename_i failed
        exact (uncancelled_entriesOf _ _).passed_on failed
      · exact uncancelled_settle _ _

end Document

namespace Engine

open Document (Value)

theorem uncancelled_textOf (key : String) (value : Value) : Uncancelled (textOf key value) := by
  cases value <;> simp [textOf, mismatch]

theorem uncancelled_flagOf (key : String) (value : Value) : Uncancelled (flagOf key value) := by
  cases value with
  | text s origin =>
      simp only [flagOf]
      split
      · simp
      · split <;> simp [mismatch]
  | boolean _ _ | integer _ _ | float _ _ | nil _ | list _ _ | table _ _ =>
      simp [flagOf, mismatch]

theorem TransportSecurity.uncancelled_set (t : TransportSecurity) (shownKey key : String)
    (value : Value) : Uncancelled (t.set shownKey key value) := by
  have text := uncancelled_textOf shownKey value
  unfold TransportSecurity.set
  split
  · exact text.bind fun _ => .ok _
  · split
    · exact text.bind fun _ => .ok _
    · split
      · exact text.bind fun _ => .ok _
      · split
        · exact (uncancelled_flagOf shownKey value).bind fun _ => .ok _
        · exact .ok t

theorem TransportSecurity.uncancelled_ofValue (group : String) (value : Value) :
    Uncancelled (TransportSecurity.ofValue group value) := by
  cases value with
  | table es _ => exact Uncancelled.foldlM (fun t e => t.uncancelled_set _ e.1 e.2) es _
  | list items _ => exact Uncancelled.foldlM (fun t e => t.uncancelled_set _ e.1.1 e.1.2) _ _
  | nil _ | boolean _ _ | integer _ _ | float _ _ | text _ _ => simp [TransportSecurity.ofValue]

theorem Settings.uncancelled_set (s : Settings) (key : String) (value : Value) :
    Uncancelled (s.set key value) := by
  have text := uncancelled_textOf key value
  unfold Settings.set
  split
  · exact text.bind fun _ => .ok _
  · split
    · exact text.bind fun _ => .ok _
    · split
      · exact text.bind fun _ => .ok _
      · split
        · exact text.bind fun _ => .ok _
        · split
          · exact (TransportSecurity.uncancelled_ofValue key value).bind fun _ => .ok _
          · exact .ok s

theorem Settings.uncancelled_load (fs : Os.FileSystem) (path : Path) :
    Uncancelled (Settings.load fs path) := by
  have settings (root : Value) : Uncancelled (Settings.ofValue root) :=
    Uncancelled.foldlM (fun s e => s.uncancelled_set e.1 e.2) _ _
  have valid (s : Settings) : Uncancelled s.validate := by
    unfold Settings.validate
    split <;> simp
  unfold Settings.load
  split
  · rename_i failed
    exact (Document.uncancelled_read fs path).passed_on failed
  · split
    · rename_i failed
      exact (settings _).passed_on failed
    · split
      · rename_i failed
        exact (valid _).passed_on failed
      · exact .ok _

end Engine

end StoreWarden
