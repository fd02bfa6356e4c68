import StoreWarden.Text.Utf8

/-!
# The state of initialization

The sidecar answers with one word how far it has brought the data directory.  Two words are taken
at their letter and every other answer means that work goes on.
-/

namespace StoreWarden.Sidecar

/-- How far the sidecar has brought the data directory. -/
inductive Progress where
  /-- It could not be found out. -/
  | unknown
  /-- Nobody has asked for initialization yet. -/
  | new
  | inProgress
  | successful
deriving DecidableEq, Repr

namespace Progress

def name : Progress → String
  | .unknown => "Unknown"
  | .new => "New"
  | .inProgress => "InProgress"
  | .successful => "Successful"

def ofText (body : String) : Progress :=
  if body = "New" then .new else if body = "Successful" then .successful else .inProgress

def ofBody (body : Bytes) : Progress := ofText body.toStringLossy

end Progress

/-- How thoroughly the sidecar is asked to validate the data directory. -/
inductive Depth where
  /-- A quick check, after an orderly end. -/
  | sanity
  /-- Everything. -/
  | full
deriving DecidableEq, Repr

/-- The name of a depth, as the sidecar is sent it. -/
def Depth.name : Depth → String
  | .sanity => "sanity"
  | .full => "full"

end StoreWarden.Sidecar
