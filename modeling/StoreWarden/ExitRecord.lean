import StoreWarden.Failure
import StoreWarden.Os.FileSystem
import StoreWarden.Sidecar.Progress
import StoreWarden.Text.Blank

/-!
# The exit record

A file of one word that says which signal ended the previous run.  It is written through a
temporary file that is moved into place, so that it is there as a whole or not at all, and it
decides how thoroughly the next run has the data directory validated.
-/

namespace StoreWarden

inductive Signal where
  | interrupt
  | terminate
deriving DecidableEq, Repr

/-- The name of a signal, as the record holds it. -/
def Signal.name : Signal → String
  | .interrupt => "interrupt"
  | .terminate => "terminated"

def Signal.all : List Signal := [.interrupt, .terminate]

structure ExitRecord where
  path : Path
deriving DecidableEq, Repr

namespace ExitRecord

open Os (FileSystem Fault)

/-- The ending of the temporary file's name. -/
def temporaryEnding : Bytes := Bytes.ofString ".tmp"

def temporary (r : ExitRecord) : Path :=
  r.path.withFileName (r.path.fileName?.getD [] ++ temporaryEnding)

/-- The steps of writing a record: make the temporary file, fill it, have it stored, move it. -/
inductive Step where
  | create
  | fill
  | store
  | move
deriving DecidableEq, Repr

def Step.all : List Step := [.create, .fill, .store, .move]

def step (r : ExitRecord) (word : Bytes) (fs : FileSystem) : Step → Except Fault FileSystem
  | .create => (fs.create r.temporary Os.defaultMode).map (·.2)
  | .fill => (fs.find r.temporary).map fun (loc, _) => fs.append loc word
  | .store => .ok fs
  | .move => fs.rename r.temporary r.path

/-- Goes through steps until one fails.  Gives the files as they then are and the fault, if any. -/
def follow (r : ExitRecord) (word : Bytes) : List Step → FileSystem → FileSystem × Option Fault
  | [], fs => (fs, none)
  | s :: rest, fs =>
    match r.step word fs s with
    | .ok next => r.follow word rest next
    | .error fault => (fs, some fault)

def write (r : ExitRecord) (word : Bytes) (fs : FileSystem) : FileSystem × Except Failure Unit :=
  match r.follow word Step.all fs with
  | (fs, none) => (fs, .ok ())
  | (fs, some fault) => (fs, .error (.io fault))

/-- Writes the name of a signal as the record. -/
def capture (r : ExitRecord) (signal : Signal) (fs : FileSystem) :
    FileSystem × Except Failure Unit :=
  r.write (Bytes.ofString signal.name) fs

/-- The word of the record without blanks around it; there may be no record. -/
def read (r : ExitRecord) (fs : FileSystem) : Except Failure (Option String) :=
  match fs.readText r.path with
  | .ok text => .ok (some (String.ofList (Text.trim text)))
  | .error fault => if fault.isNotFound then .ok none else .error (.io fault)

/-- A record of a signal calls for a quick check; no record, another word or an unreadable file
calls for a full one. -/
def depth (r : ExitRecord) (fs : FileSystem) : Sidecar.Depth :=
  match r.read fs with
  | .ok (some word) => if Signal.all.any (·.name = word) then .sanity else .full
  | _ => .full

/-- Removes the record.  That there is none is no failure. -/
def discard (r : ExitRecord) (fs : FileSystem) : FileSystem × Except Failure Unit :=
  match fs.remove r.path with
  | .ok next => (next, .ok ())
  | .error fault => if fault.isNotFound then (fs, .ok ()) else (fs, .error (.io fault))

end ExitRecord

end StoreWarden
