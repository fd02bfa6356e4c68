import StoreWarden.Call
import StoreWarden.Http.Status
import StoreWarden.Http.Target
import StoreWarden.Readiness.Flag

/-!
# The control endpoint

Two resources: one shows the readiness flag, the other cancels the run.  Only a `POST` of the
second has any effect; nothing that is asked ever changes the flag.
-/

namespace StoreWarden.Readiness

inductive Resource where
  | readiness
  | stop
deriving DecidableEq, Repr

namespace Resource

def path : Resource → String
  | .readiness => "/readyz"
  | .stop => "/stop"

def at? (p : String) : Option Resource :=
  if p = Resource.readiness.path then some .readiness
  else if p = Resource.stop.path then some .stop
  else none

def methods : Resource → List String
  | .readiness => ["GET", "HEAD"]
  | .stop => ["POST"]

end Resource

/-- A request: the method and the path it names. -/
structure Request where
  method : String
  path : String
deriving DecidableEq, Repr

/-- Reads the method and the target of a request. -/
def Request.ofParts? (method target : String) : Option Request :=
  if Http.isMethod method then (Http.Target.path? target).map (⟨method, ·⟩) else none

structure Reply where
  status : Http.Status
  body : String
  contentType : Option String
  /-- The announced length, which is that of the body before it is left out. -/
  contentLength : Nat
  /-- The methods that would have been taken. -/
  allow : Option String
deriving DecidableEq, Repr

namespace Reply

/-- An answer that is only a code. -/
def bare (status : Http.Status) : Reply := ⟨status, "", none, 0, none⟩

def ofFlag (flag : Flag) : Reply :=
  let body := if flag.isReady then "true" else "false"
  ⟨if flag.isReady then .ok else .serviceUnavailable, body, some "application/json",
    body.utf8ByteSize, none⟩

/-- The answer to a method that the resource does not take. -/
def refusal (r : Resource) : Reply :=
  { bare .methodNotAllowed with allow := some (",".intercalate r.methods) }

def withoutBody (r : Reply) : Reply := { r with body := "" }

end Reply

def respond (flag : Flag) (m : Moment) (request : Request) : Moment × Reply :=
  match Resource.at? request.path with
  | none => (m, .bare .notFound)
  | some .readiness =>
    if request.method = "GET" then (m, .ofFlag flag)
    else if request.method = "HEAD" then (m, (Reply.ofFlag flag).withoutBody)
    else (m, .refusal .readiness)
  | some .stop =>
    if request.method = "POST" then (m.cancel, .bare .ok) else (m, .refusal .stop)

end StoreWarden.Readiness
