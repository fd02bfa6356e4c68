import StoreWarden.Http.Fault
import StoreWarden.Http.Status
import StoreWarden.Text.Utf8

/-!
# Requests and what comes back

Nothing is assumed about the other side: for a request made at some time there comes, after some
time or never, the head of a response or a fault, and later its body or a fault.  A client follows
redirects, to a bounded number of addresses, and gives up when its time limit has passed, which
runs from the first request to the end of the body.
-/

namespace StoreWarden.Http

structure Request where
  method : String
  address : String
  /-- The body and what it is, if there is one. -/
  content : Option (String × Bytes)
deriving DecidableEq, Repr

def Request.get (address : String) : Request := ⟨"GET", address, none⟩

def Request.postJson (address : String) (json : String) : Request :=
  ⟨"POST", address, some ("application/json", Bytes.ofString json)⟩

/-- Something awaited: how long until it comes, if it ever does, and whether it is a fault. -/
structure Arrival (α : Type) where
  after : Option Nat
  what : Except Fault α

/-- What is had of something awaited for less than `limit`, and how long that takes. -/
def Arrival.within {α : Type} (a : Arrival α) (limit : Nat) : Nat × Except Fault α :=
  match a.after with
  | some d => if d < limit then (d, a.what) else (limit, .error .timeout)
  | none => (limit, .error .timeout)

/-- A response, of which the head has come. -/
structure Response where
  status : Status
  /-- Where else to look. -/
  location : Option String
  /-- The body, counted from when the head came. -/
  body : Arrival Bytes

/-- The other side: what comes back for a request that is made at time `t`. -/
abbrev Peer := (t : Nat) → Request → Arrival Response

/-- A peer at whose address nothing listens. -/
def Peer.absent : Peer := fun _ _ => ⟨some 0, .error .connect⟩

/-! ## Redirects -/

/-- The part of an address before its path. -/
def origin (address : String) : String :=
  let cs := address.toList
  let scheme := cs.takeWhile (· ≠ '/') ++ ['/', '/']
  String.ofList (scheme ++ (cs.drop scheme.length).takeWhile (· ≠ '/'))

/-- The address that a location names, seen from another address: a whole address, a path from the
root, or a path beside the present one. -/
def resolve (address location : String) : String :=
  let cs := location.toList
  if "http://".toList.isPrefixOf cs || "https://".toList.isPrefixOf cs then location
  else if cs.head? = some '/' then origin address ++ location
  else
    let path := (address.toList.drop (origin address).length).takeWhile (· ≠ '?')
    let directory := (path.reverse.dropWhile (· ≠ '/')).reverse
    origin address ++ (if directory = [] then "/" else String.ofList directory) ++ location

/-- The request that follows a redirect.  After some codes the same is asked elsewhere, after
others only what is there. -/
def Response.next? (r : Response) (request : Request) : Option Request :=
  r.location.bind fun location =>
    let address := resolve request.address location
    if r.status.code ∈ [307, 308] then some { request with address }
    else if r.status.code ∈ [301, 302, 303] then
      some ⟨if request.method = "HEAD" then "HEAD" else "GET", address, none⟩
    else none

/-- The most addresses that are asked for one response. -/
def maxAddresses : Nat := 10

structure Sent (ε α : Type) where
  /-- The requests made, and when. -/
  asked : List (Nat × Request)
  /-- How long it took to the answer. -/
  elapsed : Nat
  answer : Except ε α

/-- Sends a request at time `now`, when `spent` of the limit has passed, and follows redirects to
at most `addresses` addresses. -/
def follow (peer : Peer) (limit : Nat) : (addresses now spent : Nat) → Request → Sent Fault Response
  | 0, _, spent, _ => ⟨[], spent, .error .redirect⟩
  | addresses + 1, now, spent, request =>
    let (d, answer) := (peer now request).within (limit - spent)
    match answer with
    | .error fault => ⟨[(now, request)], spent + d, .error fault⟩
    | .ok response =>
      match response.next? request with
      | none => ⟨[(now, request)], spent + d, .ok response⟩
      | some next =>
        let rest := follow peer limit addresses (now + d) (spent + d) next
        { rest with asked := (now, request) :: rest.asked }

def send (peer : Peer) (limit now : Nat) (request : Request) : Sent Fault Response :=
  follow peer limit maxAddresses now 0 request

end StoreWarden.Http
