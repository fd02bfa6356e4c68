import StoreWarden.CommandLine.Refusal

/-!
# What a command line gives

Arguments are taken from left to right.  An option whose value is the next argument is kept in
suspense until something else comes; only then is its value read, so that an argument that cannot
be placed is refused before a value that cannot be read.  What the arguments leave out is then
looked up in the environment, one option after the other, and what they give hides it.
-/

namespace StoreWarden.CommandLine

structure Entry where
  key : Key
  value : key.form.Value

/-- The options given, the latest first. -/
abbrev Given := List Entry

namespace Given

def get? : Given → (k : Key) → Option k.form.Value
  | [], _ => none
  | e :: rest, k => if h : e.key = k then some (h ▸ e.value) else get? rest k

def has (g : Given) (k : Key) : Bool := g.any (·.key = k)

end Given

def readValue (k : Key) (raw : Bytes) : Except Refusal k.form.Value :=
  match k.form with
  | .flag =>
    if raw = Bytes.ofString "true" then .ok true
    else if raw = Bytes.ofString "false" then .ok false
    else if raw = [] then .error (.valueMissing k)
    else .error (.notFlag k (shownText raw))
  | .text =>
    match raw.toString? with
    | some s => .ok s
    | none => .error .notUtf8
  | .path => if raw = [] then .error (.valueMissing k) else .ok ⟨raw⟩
  | .port =>
    match raw.toString? with
    | none => .error .notUtf8
    | some s => (Decimal.readUInt16 s).mapError (.notNumber k (shownText raw))
  | .seconds =>
    match raw.toString? with
    | none => .error .notUtf8
    | some s => (Decimal.readUInt64 s).mapError (.notNumber k (shownText raw))

/-- Takes in an option with its value as it stands.  No option is taken twice. -/
def Given.add (g : Given) (k : Key) (raw : Bytes) : Except Refusal Given :=
  if g.has k then .error (.repeated k) else (readValue k raw).map fun value => ⟨k, value⟩ :: g

/-- What has been made of the arguments so far. -/
structure Reading where
  given : Given
  /-- An option in suspense, with its value if that has come. -/
  pending : Option (Key × Option Bytes)
  /-- Whether the arguments that follow are no options. -/
  literal : Bool

namespace Reading

def start : Reading := ⟨[], none, false⟩

def settle (r : Reading) : Except Refusal Reading :=
  match r.pending with
  | none => .ok r
  | some (k, none) => .error (.valueMissing k)
  | some (k, some raw) => (r.given.add k raw).map fun given => { r with given, pending := none }

def place (r : Reading) (k : Key) (raw : Bytes) : Except Refusal Reading := do
  let r ← r.settle
  let given ← r.given.add k raw
  return { r with given }

/-- Takes in a flag.  Help and version are answered where they stand. -/
def raise (r : Reading) (k : Key) : Except Refusal Reading := do
  let r ← r.settle
  match k with
  | .help => .error .help
  | .version => .error .version
  | _ => r.place k (Bytes.ofString "true")

/-- Takes in an argument that starts with two hyphens, without these. -/
def long (r : Reading) (arg : Bytes) : Except Refusal Reading :=
  let name := arg.takeWhile (· ≠ '='.toUInt8)
  let value := (arg.drop name.length).tail?
  match (Bytes.toString? name).bind Key.ofLong? with
  | none => .error (.unknown ("--" ++ shownText name))
  | some k =>
    match k.form, value with
    | .flag, none => r.raise k
    | .flag, some raw => .error (.unwanted k (shownText raw))
    | _, some raw => r.place k raw
    | _, none => r.settle.map fun r => { r with pending := some (k, none) }

/-- Takes in letters.  Only flags have one. -/
def letters (r : Reading) : List Char → Except Refusal Reading
  | [] => .ok r
  | c :: rest =>
    match Key.ofShort? c with
    | none => .error (.unknown ("-" ++ shownText (Bytes.ofString c.toString)))
    | some k => do (← r.raise k).letters rest

/-- Takes in an argument that starts with one hyphen, without it.  Letters count as far as the
bytes are characters. -/
def short (r : Reading) (arg : Bytes) : Except Refusal Reading := do
  let whole := Text.Utf8.decodeStart arg
  let r ← r.letters whole
  match arg.drop (Text.Utf8.encode whole).length with
  | [] => return r
  | rest => .error (.unknown ("-" ++ shownText rest))

def step (r : Reading) (arg : Bytes) : Except Refusal Reading :=
  let hyphen := '-'.toUInt8
  if r.literal then .error (.unknown (shownText arg))
  else if arg = [hyphen, hyphen] then .ok { r with literal := true }
  else
    match arg with
    | 45 :: 45 :: rest => r.long rest
    | 45 :: c :: rest => r.short (c :: rest)
    | _ =>
      match r.pending with
      | some (k, none) => .ok { r with pending := some (k, some arg) }
      | _ => .error (.unknown (shownText arg))

end Reading

abbrev Environment := List (String × Bytes)

/-- Takes in the variables of options that are not given. -/
def Given.complete (env : Environment) : List Key → Given → Except Refusal Given
  | [], g => .ok g
  | k :: rest, g => do
    match k.environmentName?.bind fun name => env.lookup name with
    | some raw => if g.has k then complete env rest g else complete env rest (← g.add k raw)
    | none => complete env rest g

def read (args : List Bytes) (env : Environment) : Except Refusal Given := do
  let r ← args.foldlM Reading.step .start
  let r ← r.settle
  Given.complete env Key.all r.given

end StoreWarden.CommandLine
