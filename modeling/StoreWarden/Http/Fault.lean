/-!
# Failed requests

The stages at which a request fails without a response, and the text of each.
-/

namespace StoreWarden.Http

inductive Fault where
  /-- The request took longer than its limit. -/
  | timeout
  /-- The peer sent the client round too many addresses. -/
  | redirect
  /-- The client could not be built. -/
  | builder
  /-- Nothing answered at the address. -/
  | connect
  /-- The body broke off or was shorter than announced. -/
  | body
  /-- Sending the request or reading the head of the response failed. -/
  | request
  /-- Anything else. -/
  | other
deriving DecidableEq, Repr

def Fault.message : Fault → String
  | .timeout => "operation timed out"
  | .redirect => "error following redirect"
  | .builder => "builder error"
  | .connect => "error trying to connect"
  | .body => "request or response body error"
  | .request => "error sending request"
  | .other => "error"

end StoreWarden.Http
