/-!
# Strings in TOML

A string is written in the plainest of five forms that can hold it: between quotes, between
apostrophes, and the many-line forms of both.  Between apostrophes everything stands as it is;
between quotes some characters are escaped.  A many-line form begins with a line break if the
string holds one, and that break does not belong to the string.
-/

namespace StoreWarden.Toml

inductive Form where
  | basic
  | literal
  | basicLines
  | literalLines
deriving DecidableEq, Repr

def longestRun (c : Char) : (current longest : Nat) → List Char → Nat
  | _, longest, [] => longest
  | current, longest, d :: rest =>
    if d = c then longestRun c (current + 1) (max longest (current + 1)) rest
    else longestRun c 0 longest rest

/-- A control character other than tab and line break. -/
def isControl (c : Char) : Bool :=
  (c.toNat < 0x20 && c ≠ '\t' && c ≠ '\n') || c.toNat = 0x7F

def formOf (cs : List Char) : Form :=
  let control := cs.any isControl
  let backslash := cs.contains '\\'
  let lines := cs.contains '\n'
  let quotes := longestRun '"' 0 0 cs
  let apostrophes := longestRun '\'' 0 0 cs
  if !control && !backslash && quotes = 0 && !lines then .basic
  else if !control && apostrophes = 0 && !lines then .literal
  else if !control && !backslash && quotes ≤ 2 then .basicLines
  else if !control && apostrophes ≤ 2 then .literalLines
  else if lines then .basicLines
  else .basic

def hexDigit (n : Nat) : Char := if n < 10 then Char.ofNat (48 + n) else Char.ofNat (55 + n)

/-- A character other than a quote, as it stands between quotes. -/
def escapeChar (lines : Bool) (c : Char) : List Char :=
  if c = '\x08' then ['\\', 'b']
  else if c = '\t' then ['\\', 't']
  else if c = '\x0c' then ['\\', 'f']
  else if c = '\r' then ['\\', 'r']
  else if c = '\\' then ['\\', '\\']
  else if c = '\n' then if lines then ['\n'] else ['\\', 'n']
  else if isControl c then
    ['\\', 'u', '0', '0', hexDigit (c.toNat / 16), hexDigit (c.toNat % 16)]
  else [c]

/-- A text as it stands between quotes.  Of quotes in a row every `every`-th is escaped; `run`
counts those that stand just before. -/
def escapeFrom (lines : Bool) (every : Nat) : (run : Nat) → List Char → List Char
  | _, [] => []
  | run, c :: rest =>
    if c = '"' then
      if run + 1 = every then '\\' :: '"' :: escapeFrom lines every 0 rest
      else '"' :: escapeFrom lines every (run + 1) rest
    else escapeChar lines c ++ escapeFrom lines every 0 rest

def stringText (cs : List Char) : List Char :=
  let opening := if cs.contains '\n' then ['\n'] else []
  let quotes := ['"', '"', '"']
  let apostrophes := ['\'', '\'', '\'']
  match formOf cs with
  | .basic => '"' :: escapeFrom false 1 0 cs ++ ['"']
  | .literal => '\'' :: cs ++ ['\'']
  | .basicLines => quotes ++ opening ++ escapeFrom true 3 0 cs ++ quotes
  | .literalLines => apostrophes ++ opening ++ cs ++ apostrophes

end StoreWarden.Toml
