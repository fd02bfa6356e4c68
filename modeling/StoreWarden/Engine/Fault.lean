import StoreWarden.Os.Fault

/-!
# Engine failures

How a child process ends, and the failures of the etcd member that a run reports.
-/

namespace StoreWarden.Engine

inductive ExitStatus where
  /-- It returned this code. -/
  | code (n : Nat)
  /-- It was ended by the signal with this number. -/
  | signal (n : Nat)
deriving DecidableEq, Repr

def signalName? : Nat → Option String
  | 1 => some "SIGHUP"
  | 2 => some "SIGINT"
  | 3 => some "SIGQUIT"
  | 4 => some "SIGILL"
  | 5 => some "SIGTRAP"
  | 6 => some "SIGABRT"
  | 7 => some "SIGBUS"
  | 8 => some "SIGFPE"
  | 9 => some "SIGKILL"
  | 10 => some "SIGUSR1"
  | 11 => some "SIGSEGV"
  | 12 => some "SIGUSR2"
  | 13 => some "SIGPIPE"
  | 14 => some "SIGALRM"
  | 15 => some "SIGTERM"
  | 16 => some "SIGSTKFLT"
  | 17 => some "SIGCHLD"
  | 18 => some "SIGCONT"
  | 19 => some "SIGSTOP"
  | 20 => some "SIGTSTP"
  | 21 => some "SIGTTIN"
  | 22 => some "SIGTTOU"
  | 23 => some "SIGURG"
  | 24 => some "SIGXCPU"
  | 25 => some "SIGXFSZ"
  | 26 => some "SIGVTALRM"
  | 27 => some "SIGPROF"
  | 28 => some "SIGWINCH"
  | 29 => some "SIGIO"
  | 30 => some "SIGPWR"
  | 31 => some "SIGSYS"
  | _ => none

namespace ExitStatus

def isSuccess : ExitStatus → Bool
  | .code n => n == 0
  | .signal _ => false

def text : ExitStatus → String
  | .code n => "exit status: " ++ toString n
  | .signal n =>
    "signal: " ++ toString n ++
      (match signalName? n with
       | some name => " (" ++ name ++ ")"
       | none => "")

end ExitStatus

inductive Fault where
  /-- It did not serve within this many seconds. -/
  | notReadyWithin (seconds : Nat)
  /-- It stopped before it served, and said no more. -/
  | stoppedEarly
  /-- It stopped after it had served, and said no more. -/
  | aborted
  /-- It could not be started. -/
  | notStarted (program : String) (fault : Os.Fault)
  /-- It ended with an exit status that is no success. -/
  | exited (status : ExitStatus)
  /-- A failure known by its text. -/
  | described (text : String)
deriving DecidableEq, Repr

def Fault.message : Fault → String
  | .notReadyWithin seconds => "etcd did not become ready within " ++ toString seconds ++ "s"
  | .stoppedEarly => "etcd stopped before becoming ready"
  | .aborted => "etcd server has been aborted"
  | .notStarted program fault => "failed to spawn " ++ program ++ ": " ++ fault.message
  | .exited status => "etcd exited with " ++ status.text
  | .described text => text

end StoreWarden.Engine
