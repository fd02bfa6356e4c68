import StoreWarden.Os.Fault
import StoreWarden.Os.Path

/-!
# Files and directories

A file system is a finite map from locations to nodes, with a working directory.  Paths are
followed part by part, as the operating system follows them, and each operation fails with the
number the operating system gives.  There are no links, so every location has one name.
-/

namespace StoreWarden.Os

/-- The names from the root to a node. -/
abbrev Location := List Bytes

/-- A directory, or a file with its content and permission bits. -/
inductive Node where
  | directory
  | file (content : Bytes) (mode : Nat)
deriving DecidableEq, Repr

namespace Node

def isFile : Node → Bool
  | .file .. => true
  | .directory => false

def content? : Node → Option Bytes
  | .file content _ => some content
  | .directory => none

def mode : Node → Nat
  | .file _ mode => mode
  | .directory => 0o755

end Node

/-- Permission bits of a file that is created without a wish of its own. -/
def defaultMode : Nat := 0o644

/-- Files and directories, and the directory from which relative paths start. -/
structure FileSystem where
  nodes : List (Location × Node)
  home : Location

namespace FileSystem

def node? (fs : FileSystem) (loc : Location) : Option Node :=
  if loc = [] then some .directory else fs.nodes.lookup loc

/-- The file system with a node put at a location. -/
def put (fs : FileSystem) (loc : Location) (node : Node) : FileSystem :=
  { fs with nodes := (loc, node) :: fs.nodes.filter (·.1 ≠ loc) }

/-- The file system without the node at a location. -/
def erase (fs : FileSystem) (loc : Location) : FileSystem :=
  { fs with nodes := fs.nodes.filter (·.1 ≠ loc) }

/-- The file system without a location and everything below it. -/
def eraseTree (fs : FileSystem) (loc : Location) : FileSystem :=
  { fs with nodes := fs.nodes.filter (fun entry => !loc.isPrefixOf entry.1) }

def maxName : Nat := 255
def maxPath : Nat := 4095

/-- Follows one part out of a directory, into another directory. -/
def enter (fs : FileSystem) (dir : Location) (part : Bytes) : Except Fault Location :=
  if part = Path.dot then .ok dir
  else if part = Path.dotDot then .ok dir.dropLast
  else if maxName < part.length then .error .nameTooLong
  else
    match fs.node? (dir ++ [part]) with
    | none => .error .missing
    | some (.file ..) => .error .notDirectory
    | some .directory => .ok (dir ++ [part])

/-- Follows parts from a directory, each into a directory. -/
def walk (fs : FileSystem) : Location → List Bytes → Except Fault Location
  | dir, [] => .ok dir
  | dir, part :: rest =>
    match fs.enter dir part with
    | .error fault => .error fault
    | .ok next => fs.walk next rest

/-- What the last part of a path says: a name in the directory reached so far, or a directory
reached through dots or by the root alone. -/
inductive Last where
  | name (part : Bytes)
  | dots (loc : Location)

/-- A path followed up to its last part. -/
structure Reached where
  dir : Location
  last : Last
  endsInSlash : Bool

def reach (fs : FileSystem) (p : Path) : Except Fault Reached :=
  if p.bytes.contains 0 then .error .zeroByteInName
  else if p.bytes = [] then .error .missing
  else if maxPath < p.bytes.length then .error .nameTooLong
  else
    let start := if p.isAbsolute then [] else fs.home
    match p.parts.getLast? with
    | none => .ok ⟨start, .dots start, true⟩
    | some part =>
      match fs.walk start p.parts.dropLast with
      | .error fault => .error fault
      | .ok dir =>
        if part = Path.dot then .ok ⟨dir, .dots dir, p.endsInSlash⟩
        else if part = Path.dotDot then .ok ⟨dir, .dots dir.dropLast, p.endsInSlash⟩
        else .ok ⟨dir, .name part, p.endsInSlash⟩

def find (fs : FileSystem) (p : Path) : Except Fault (Location × Node) :=
  match fs.reach p with
  | .error fault => .error fault
  | .ok reached =>
    match reached.last with
    | .dots loc => .ok (loc, .directory)
    | .name part =>
      if maxName < part.length then .error .nameTooLong
      else
        match fs.node? (reached.dir ++ [part]) with
        | none => .error .missing
        | some node =>
          if node.isFile && reached.endsInSlash then .error .notDirectory
          else .ok (reached.dir ++ [part], node)

def isFile (fs : FileSystem) (p : Path) : Bool :=
  match fs.find p with
  | .ok (_, node) => node.isFile
  | .error _ => false

def read (fs : FileSystem) (p : Path) : Except Fault Bytes :=
  match fs.find p with
  | .error fault => .error fault
  | .ok (_, .directory) => .error .isDirectory
  | .ok (_, .file content mode) =>
    if mode &&& 0o400 = 0 then .error .denied else .ok content

def readText (fs : FileSystem) (p : Path) : Except Fault (List Char) :=
  match fs.read p with
  | .error fault => .error fault
  | .ok content =>
    match Text.Utf8.decode? content with
    | some text => .ok text
    | none => .error .notUtf8

/-- Opens a file for writing from its start: a new one gets `mode`, an old one loses its content
and keeps its bits. -/
def create (fs : FileSystem) (p : Path) (mode : Nat) : Except Fault (Location × FileSystem) :=
  match fs.reach p with
  | .error fault => .error fault
  | .ok reached =>
    match reached.last with
    | .dots _ => .error .isDirectory
    | .name part =>
      let loc := reached.dir ++ [part]
      if reached.endsInSlash then .error .isDirectory
      else if maxName < part.length then .error .nameTooLong
      else
        match fs.node? loc with
        | none => .ok (loc, fs.put loc (.file [] mode))
        | some .directory => .error .isDirectory
        | some (.file _ old) =>
          if old &&& 0o200 = 0 then .error .denied else .ok (loc, fs.put loc (.file [] old))

def append (fs : FileSystem) (loc : Location) (content : Bytes) : FileSystem :=
  match fs.node? loc with
  | some (.file old mode) => fs.put loc (.file (old ++ content) mode)
  | _ => fs

def setMode (fs : FileSystem) (loc : Location) (mode : Nat) : FileSystem :=
  match fs.node? loc with
  | some (.file content _) => fs.put loc (.file content mode)
  | _ => fs

/-- Moves the file at one path to another, in one step.  A file that was there is replaced. -/
def rename (fs : FileSystem) (source target : Path) : Except Fault FileSystem :=
  match fs.reach source, fs.reach target with
  | .error fault, _ => .error fault
  | _, .error fault => .error fault
  | .ok ⟨fromDir, .name fromPart, _⟩, .ok ⟨toDir, .name toPart, slash⟩ =>
    if maxName < fromPart.length then .error .nameTooLong
    else
      match fs.node? (fromDir ++ [fromPart]) with
      | none => .error .missing
      | some node =>
        if maxName < toPart.length then .error .nameTooLong
        else if node.isFile && slash then .error .notDirectory
        else
          match fs.node? (toDir ++ [toPart]) with
          | some .directory => .error .isDirectory
          | _ => .ok ((fs.erase (fromDir ++ [fromPart])).put (toDir ++ [toPart]) node)
  | _, _ => .error .busy

def remove (fs : FileSystem) (p : Path) : Except Fault FileSystem :=
  match fs.reach p with
  | .error fault => .error fault
  | .ok reached =>
    match reached.last with
    | .dots _ => .error .isDirectory
    | .name part =>
      if maxName < part.length then .error .nameTooLong
      else
        match fs.node? (reached.dir ++ [part]) with
        | none => .error .missing
        | some .directory => .error .isDirectory
        | some (.file ..) =>
          if reached.endsInSlash then .error .notDirectory
          else .ok (fs.erase (reached.dir ++ [part]))

/-- Makes the directories on the way to a location. -/
def makeDirs (fs : FileSystem) (loc : Location) : FileSystem :=
  (List.range loc.length).foldl
    (fun fs n =>
      let dir := loc.take (n + 1)
      match fs.node? dir with
      | none => fs.put dir .directory
      | some _ => fs)
    fs

/-- Puts a node below the working directory, with the directories on the way. -/
def plant (fs : FileSystem) (name : Path) (node : Node) : FileSystem :=
  let loc := fs.home ++ name.parts.filter (· ≠ Path.dot)
  (fs.makeDirs loc.dropLast).put loc node

/-- Removes a file or a directory with all it holds, below the working directory. -/
def uproot (fs : FileSystem) (name : Path) : FileSystem :=
  fs.eraseTree (fs.home ++ name.parts)

/-- An empty working directory. -/
def empty : FileSystem :=
  let outer := Bytes.ofString "run"
  let inner := Bytes.ofString "home"
  ⟨[([outer], .directory), ([outer, inner], .directory)], [outer, inner]⟩

/-- Everything below the working directory, by its path from there; a directory has no content. -/
def listing (fs : FileSystem) : List (Path × Option Bytes) :=
  fs.nodes.filterMap fun (loc, node) =>
    if fs.home.isPrefixOf loc && loc ≠ fs.home then
      some (⟨List.intercalate [Path.slash] (loc.drop fs.home.length)⟩, node.content?)
    else none

@[simp] theorem node?_put_self (fs : FileSystem) {loc : Location} (h : loc ≠ []) (node : Node) :
    (fs.put loc node).node? loc = some node := by
  simp [node?, put, h]

/-- Leaving out entries by their locations leaves out exactly what is looked up there. -/
theorem lookup_filter (keep : Location → Bool) (loc : Location) (nodes : List (Location × Node)) :
    (nodes.filter (keep ·.1)).lookup loc = if keep loc then nodes.lookup loc else none := by
  induction nodes with
  | nil => simp
  | cons entry rest ih =>
    obtain ⟨key, node⟩ := entry
    by_cases h : loc = key
    · subst h
      cases hk : keep loc <;> simp [hk, ih]
    · have hb : (loc == key) = false := beq_eq_false_iff_ne.2 h
      cases hk : keep key <;> simp [hk, hb, ih, List.lookup_cons]

theorem node?_put_of_ne (fs : FileSystem) {loc other : Location} (h : other ≠ loc)
    (node : Node) : (fs.put loc node).node? other = fs.node? other := by
  have hb : (other == loc) = false := beq_eq_false_iff_ne.2 h
  by_cases ho : other = []
  · simp [node?, ho]
  · simp only [node?, put, ho, if_false]
    rw [List.lookup_cons, hb]
    exact (lookup_filter (· ≠ loc) other fs.nodes).trans (by simp [h])

theorem node?_erase_self (fs : FileSystem) {loc : Location} (h : loc ≠ []) :
    (fs.erase loc).node? loc = none := by
  simp only [node?, erase, h, if_false]
  exact (lookup_filter (· ≠ loc) loc fs.nodes).trans (by simp)

theorem node?_erase_of_ne (fs : FileSystem) {loc other : Location} (h : other ≠ loc) :
    (fs.erase loc).node? other = fs.node? other := by
  by_cases ho : other = []
  · simp [node?, ho]
  · simp only [node?, erase, ho, if_false]
    exact (lookup_filter (· ≠ loc) other fs.nodes).trans (by simp [h])

end FileSystem

end StoreWarden.Os
