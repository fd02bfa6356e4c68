import StoreWarden.Command

/-!
# The program

Reads the arguments and the environment and carries out what they ask for.  This build has neither
a network nor child processes: nothing answers for the sidecar, and no program can be started.
-/

namespace StoreWarden.Main

def emptyWorld : World where
  sidecar := .absent
  spawn := fun _ _ => .error .missing
  checks := fun _ => ⟨none, false⟩
  portFault := none
  signals := []
  rounds := 5
  tie := fun _ => true

/-- The variables of the environment that options are given by. -/
def environment : List CommandLine.Key → IO CommandLine.Environment
  | [] => return []
  | k :: rest => do
    let more ← environment rest
    match k.environmentName? with
    | none => return more
    | some name =>
      match ← IO.getEnv name with
      | some value => return (name, Bytes.ofString value) :: more
      | none => return more

/-- The trusted certificates, as far as the settings name some that are there. -/
def certificates (s : Settings) : IO Os.FileSystem := do
  match s.sidecar.bundle with
  | none => return .empty
  | some path =>
    try
      let content ← IO.FS.readBinFile path.display
      return Os.FileSystem.empty.plant path (.file content.toList Os.defaultMode)
    catch _ => return .empty

def filesFor : Plan → IO Os.FileSystem
  | .run settings => certificates settings
  | _ => return .empty

end StoreWarden.Main

open StoreWarden in
/-- Carries out what the command line asks for. -/
def main (args : List String) : IO UInt32 := do
  let args := args.map Bytes.ofString
  let env ← Main.environment CommandLine.Key.all
  let files ← Main.filesFor (Plan.ofArguments args env)
  match (Main.emptyWorld.command args env files).1 with
  | some report =>
    (← IO.getStdout).putStr report.out
    (← IO.getStderr).putStr report.err
    return UInt32.ofNat report.code
  | none =>
    (← IO.getStderr).putStr "Error: the sidecar did not answer\n"
    return 1
