/-!
# Request targets

A target is the resource that a request names: a path with an optional query, a host alone, or an
absolute address.  What follows a number sign is not part of it.  `Target.path?` reads a target and
gives the path on which requests are told apart.
-/

namespace StoreWarden.Http

/-- A letter, digit or mark that a method may hold. -/
def isTokenChar (c : Char) : Bool :=
  c.isAlphanum || "!#$%&'*+-.^_`|~".toList.contains c

/-- A method is any non-empty word. -/
def isMethod (method : String) : Bool :=
  !method.isEmpty && method.toList.all isTokenChar

namespace Target

def maxLength : Nat := 65534

def maxSchemeLength : Nat := 64

/-- A character that a path may hold as it is.  Quotes and braces are tolerated. -/
def isPathChar (c : Char) : Bool :=
  let n := c.toNat
  n = 0x21 || n = 0x22 || (0x24 ≤ n && n ≤ 0x3B) || n = 0x3D || (0x40 ≤ n && n ≤ 0x5F) ||
    (0x61 ≤ n && n ≤ 0x7E) || 0x7F ≤ n

/-- A character that a query may hold as it is. -/
def isQueryChar (c : Char) : Bool :=
  let n := c.toNat
  n = 0x21 || (0x24 ≤ n && n ≤ 0x3B) || n = 0x3D || 0x3F ≤ n

/-- Reads a path with its query, and gives the path. -/
def pathWithQuery? (cs : List Char) : Option (List Char) :=
  let cs := cs.takeWhile (· ≠ '#')
  let (path, query) := cs.span (· ≠ '?')
  if path.all isPathChar && (query.drop 1).all isQueryChar then some path else none

/-- A character without a meaning of its own in a host. -/
def isHostChar (c : Char) : Bool :=
  c.isAlphanum || "!$&'()*+,-.;=_~".toList.contains c

/-- What has been seen of a host. -/
structure Host where
  /-- Colons since the last at sign or closing bracket. -/
  colons : Nat
  opened : Bool
  closed : Bool
  /-- Whether a percent sign has come since the last at sign or closing bracket. -/
  escaped : Bool
  /-- Whether the last character is an at sign. -/
  afterAt : Bool

namespace Host

def start : Host := ⟨0, false, false, false, false⟩

def next (h : Host) (c : Char) : Option Host :=
  let h := { h with afterAt := false }
  match c with
  | ':' => if h.colons ≥ 8 then none else some { h with colons := h.colons + 1 }
  | '[' => if h.escaped || h.opened then none else some { h with opened := true }
  | ']' =>
    if !h.opened || h.closed then none
    else some { h with closed := true, colons := 0, escaped := false }
  | '@' => some { h with colons := 0, escaped := false, afterAt := true }
  | '%' => some { h with escaped := true }
  | c => if isHostChar c then some h else none

/-- Whether what has been seen is a whole host. -/
def isComplete (h : Host) : Bool :=
  h.opened = h.closed && h.colons ≤ 1 && !h.afterAt && !h.escaped

end Host

/-- Reads a host up to the path, query or number sign, and gives the host and the rest. -/
def host? (cs : List Char) : Option (List Char × List Char) :=
  let (host, rest) := cs.span fun c => c ≠ '/' && c ≠ '?' && c ≠ '#'
  match host.foldlM Host.next Host.start with
  | some seen => if seen.isComplete then some (host, rest) else none
  | none => none

/-- A character that the name of a scheme may hold. -/
def isSchemeChar (c : Char) : Bool :=
  c.isAlphanum || "+-.~".toList.contains c

/-- What follows the scheme of an absolute address. -/
inductive Scheme where
  | missing
  | tooLong
  | before (rest : List Char)

/-- Looks for a scheme. -/
def scheme (cs : List Char) : Scheme :=
  let (name, rest) := cs.span isSchemeChar
  match rest with
  | ':' :: '/' :: '/' :: rest => if name.length > maxSchemeLength then .tooLong else .before rest
  | _ => .missing

/-- Reads a target, and gives its path.  A host alone has the empty path; an address without a
path has the path of the root. -/
def path? (target : String) : Option String :=
  let cs := target.toList
  if cs.isEmpty || target.utf8ByteSize > maxLength then none
  else if cs = ['*'] then some "*"
  else if cs.head? = some '/' then (pathWithQuery? cs).map String.ofList
  else
    match scheme cs with
    | .tooLong => none
    | .missing =>
      match host? cs with
      | some (_, []) => some ""
      | _ => none
    | .before rest =>
      match host? rest with
      | none | some ([], _) => none
      | some (_, rest) =>
        (pathWithQuery? rest).map fun path => if path.isEmpty then "/" else String.ofList path

end Target

end StoreWarden.Http
