import StoreWarden.Document.Fault
import StoreWarden.Engine.Fault
import StoreWarden.Http.Fault
import StoreWarden.Http.Status
import StoreWarden.Os.Fault
import StoreWarden.Settings.Fault
import StoreWarden.Tls.Fault

/-!
# Failures of a run

Every operation of the library that can fail does so with a `Failure`.  A failure is known by its
cause; its text is `Failure.message`.  Being cancelled is one of the failures, so that a cancelled
operation ends like any other that has no result.
-/

namespace StoreWarden

inductive ProbeFault where
  /-- The member answered with this code. -/
  | refused (status : Http.Status)
  /-- A fault known by its text. -/
  | described (text : String)
deriving DecidableEq, Repr

def ProbeFault.message : ProbeFault → String
  | .refused status => "range request returned " ++ status.text
  | .described text => text

inductive Misuse where
  /-- The member was to be launched before its document had been obtained. -/
  | setupMissing
  /-- An operation was to be attempted zero times. -/
  | zeroAttempts (name : String)
  /-- A fault known by its text. -/
  | described (text : String)
deriving DecidableEq, Repr

def Misuse.message : Misuse → String
  | .setupMissing => "etcd configuration missing, setup has not completed"
  | .zeroAttempts name => name ++ " was attempted zero times"
  | .described text => text

/-- A broken assumption, which ends the run at once. -/
inductive Defect where
  /-- A mapping of the document has a key that is neither text nor integer. -/
  | documentKey
  /-- An index counts from the end of a list that is too short. -/
  | documentIndex
  /-- A period of zero. -/
  | zeroPeriod
deriving DecidableEq, Repr

def Defect.message : Defect → String
  | .documentKey => "internal error: entered unreachable code"
  | .documentIndex => "attempt to subtract with overflow"
  | .zeroPeriod => "`period` must be non-zero."

inductive Failure where
  | document (fault : Document.Fault)
  | io (fault : Os.Fault)
  | http (fault : Http.Fault)
  | sidecar (operation : String) (status : Http.Status)
  | tls (path : String) (fault : Tls.Fault)
  | settings (fault : Settings.Fault)
  | engine (fault : Engine.Fault)
  | probe (fault : ProbeFault)
  | cancelled
  | misuse (fault : Misuse)
  | defect (fault : Defect)
deriving DecidableEq, Repr

namespace Failure

def message : Failure → String
  | .document fault => "Configuration error: " ++ fault.message
  | .io fault => "IO error: " ++ fault.message
  | .http fault => "HTTP error: " ++ fault.message
  | .sidecar operation status =>
    "Sidecar returned " ++ status.text ++ " when attempting to " ++ operation
  | .tls path fault => "TLS error for " ++ path ++ ": " ++ fault.message
  | .settings fault => "Invalid configuration: " ++ fault.message
  | .engine fault => "Store engine error: " ++ fault.message
  | .probe fault => "Store probe failed: " ++ fault.message
  | .cancelled => "Operation cancelled"
  | .misuse fault => "System error: " ++ fault.message
  | .defect fault => fault.message

/-- The text of what lies behind a failure, where the failure only passes it on. -/
def source? : Failure → Option String
  | .document fault => some fault.message
  | .io fault => some fault.message
  | .http fault => some fault.message
  | _ => none

/-- Being cancelled is final but nothing to report as a fault. -/
def isCancelled : Failure → Bool
  | .cancelled => true
  | _ => false

theorem isCancelled_iff (f : Failure) : f.isCancelled = true ↔ f = .cancelled := by
  cases f <;> simp [isCancelled]

end Failure

end StoreWarden
