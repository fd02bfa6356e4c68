import StoreWarden.CommandLine.Key
import StoreWarden.Decimal.Whole

/-!
# Refusals of the command line

Why arguments do not make up settings.  To ask for help or for the version is one of the ways:
nothing is run, although nothing is wrong.
-/

namespace StoreWarden.CommandLine

inductive Refusal where
  /-- There is no such option, or a value stands where none is wanted. -/
  | unknown (shown : String)
  /-- A flag is given a value. -/
  | unwanted (key : Key) (value : String)
  | repeated (key : Key)
  | valueMissing (key : Key)
  /-- A flag in the environment is neither `true` nor `false`. -/
  | notFlag (key : Key) (value : String)
  | notNumber (key : Key) (value : String) (fault : Decimal.WholeFault)
  | notUtf8
  | help
  | version
deriving DecidableEq, Repr

namespace Refusal

/-- The text of a refusal, if it is about a fault. -/
def message? : Refusal → Option String
  | .unknown shown => some ("error: unexpected argument '" ++ shown ++ "' found")
  | .unwanted key value =>
    some ("error: unexpected value '" ++ value ++ "' for '" ++ key.shown ++
      "' found; no more were expected")
  | .repeated key =>
    some ("error: the argument '" ++ key.shown ++ "' cannot be used multiple times")
  | .valueMissing key =>
    some ("error: a value is required for '" ++ key.shown ++ "' but none was supplied")
  | .notFlag key value => some ("error: invalid value '" ++ value ++ "' for '" ++ key.shown ++ "'")
  | .notNumber key value fault =>
    some ("error: invalid value '" ++ value ++ "' for '" ++ key.shown ++ "': " ++ fault.message)
  | .notUtf8 => some "error: invalid UTF-8 was detected in one or more arguments"
  | .help => none
  | .version => none

def exitCode : Refusal → Nat
  | .help => 0
  | .version => 0
  | _ => 2

end Refusal

/-- Arguments are shown without the characters that have no place in a line: all control characters
that are not blanks. -/
def shownText (bytes : Bytes) : String :=
  let keep (c : Char) : Bool :=
    let n := c.toNat
    (0x20 ≤ n && n ≠ 0x7F) || n = 0x09 || n = 0x0A || n = 0x0C || n = 0x0D
  String.ofList (bytes.toStringLossy.toList.filter keep)

end StoreWarden.CommandLine
