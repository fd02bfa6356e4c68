/-!
# Binary floating-point numbers and their decimal texts

Numbers of 53 significant bits.  Reading a decimal text rounds to the nearest number, to the even
one of two nearest; writing gives the fewest digits that read back as the same number, and of
those the nearest ones.  All arithmetic is exact, on natural numbers.
-/

namespace StoreWarden

/-- A number `m · 2 ^ e` with a sign, or one of the values beyond. -/
inductive Binary64 where
  | nan
  | infinite (negative : Bool)
  | finite (negative : Bool) (m : Nat) (e : Int)
deriving DecidableEq, Repr

namespace Binary64

def minExponent : Int := -1074

def maxExponent : Int := 971

/-- The quotient rounded to the nearest integer, to the even one of two nearest. -/
def divNearest (num den : Nat) : Nat :=
  let q := num / den
  let r := num % den
  if 2 * r < den then q
  else if den < 2 * r then q + 1
  else if q % 2 = 0 then q else q + 1

/-- The least significand of 53 bits. -/
def leastFull : Nat := Nat.pow 2 52

def bitLength (n : Nat) : Nat := if n = 0 then 0 else n.log2 + 1

/-- `num / den` divided by `2 ^ e` and rounded. -/
def scaled (num den : Nat) (e : Int) : Nat :=
  if e < 0 then divNearest (num * Nat.pow 2 (-e).toNat) den
  else divNearest num (den * Nat.pow 2 e.toNat)

/-- The number nearest to `num / den`. -/
def ofRatio (negative : Bool) (num den : Nat) : Binary64 :=
  if num = 0 then .finite negative 0 minExponent
  else
    -- the quotient has between `length - 1` and `length` bits before the point
    let length : Int := (bitLength num : Int) - (bitLength den : Int) + 1
    let first := max (length - 53) minExponent
    -- one bit of the estimate may be missing
    let e := if first > minExponent && scaled num den first < leastFull then first - 1 else first
    let m := scaled num den e
    let (m, e) := if m = 2 * leastFull then (leastFull, e + 1) else (m, e)
    if e > maxExponent then .infinite negative else .finite negative m e

/-- Beyond this power of ten every number is infinite or zero. -/
def exponentBound : Nat := 400

/-- The number nearest to `digits · 10 ^ exponent`; `digits` has `count` decimal digits. -/
def ofDecimal (negative : Bool) (digits : Nat) (count : Nat) (exponent : Int) : Binary64 :=
  if digits = 0 then .finite negative 0 minExponent
  else if (count : Int) + exponent > exponentBound then .infinite negative
  else if (count : Int) + exponent < -(exponentBound : Int) then .finite negative 0 minExponent
  else if exponent < 0 then ofRatio negative digits (Nat.pow 10 (-exponent).toNat)
  else ofRatio negative (digits * Nat.pow 10 exponent.toNat) 1

def isDigit (c : Char) : Bool := '0' ≤ c && c ≤ '9'

/-- The number that digits spell, after those that spell `start`. -/
def digitsValue (start : Nat) (cs : List Char) : Nat :=
  cs.foldl (fun n c => n * 10 + (c.toNat - '0'.toNat)) start

def splitSign : List Char → Bool × List Char
  | '-' :: rest => (true, rest)
  | '+' :: rest => (false, rest)
  | cs => (false, cs)

/-- Reads an exponent part: nothing, or the letter, a sign and at least one digit. -/
def readExponent : List Char → Option Int
  | [] => some 0
  | c :: rest =>
    if c = 'e' || c = 'E' then
      let (negative, ds) := splitSign rest
      if ds = [] || !ds.all isDigit then none
      else
        let n : Int := digitsValue 0 ds
        some (if negative then -n else n)
    else none

def lowerAscii (cs : List Char) : List Char := cs.map Char.toLower

/-- Reads the decimal text of a number: an optional sign, then digits with an optional point and
an optional exponent, or a name of a value beyond. -/
def read? (cs : List Char) : Option Binary64 :=
  let (negative, body) := splitSign cs
  let name := lowerAscii body
  if name = "inf".toList || name = "infinity".toList then some (.infinite negative)
  else if name = "nan".toList then some .nan
  else
    let whole := body.takeWhile isDigit
    let rest := body.dropWhile isDigit
    let (fraction, rest) :=
      match rest with
      | '.' :: more => (more.takeWhile isDigit, more.dropWhile isDigit)
      | _ => ([], rest)
    if whole = [] && fraction = [] then none
    else
      match readExponent rest with
      | none => none
      | some exponent =>
        let ds := whole ++ fraction
        let value := digitsValue 0 ds
        let count := (ds.dropWhile (· = '0')).length
        some (ofDecimal negative value count (exponent - fraction.length))

/-- The interval of reals that round to a number, in quarters of its last bit's unit: below,
above, and whether the ends belong to it. -/
def interval (m : Nat) (e : Int) : Nat × Nat × Bool :=
  let low := if m = leastFull && e > minExponent then 4 * m - 1 else 4 * m - 2
  (low, 4 * m + 2, m % 2 == 0)

/-- A power of ten or of two as a fraction. -/
def powerRatio (base : Nat) (k : Int) : Nat × Nat :=
  if k < 0 then (1, Nat.pow base (-k).toNat) else (Nat.pow base k.toNat, 1)

/-- The multiple of `10 ^ k` that reads back as `m · 2 ^ e`, if there is one: the nearer of two,
and of two equally near the upper. -/
def onGrid? (m : Nat) (e k : Int) : Option Nat :=
  let (twoNum, twoDen) := powerRatio 2 (e - 2)
  let (tenNum, tenDen) := powerRatio 10 k
  let (low, high, closed) := interval m e
  -- `x` quarters are `x · unit / step` steps of the grid
  let unit := twoNum * tenDen
  let step := twoDen * tenNum
  let q := 4 * m * unit / step
  let inside (c : Nat) : Bool :=
    if closed then low * unit ≤ c * step && c * step ≤ high * unit
    else low * unit < c * step && c * step < high * unit
  let lowerIn := q ≠ 0 && inside q
  let upperIn := inside (q + 1)
  if lowerIn && upperIn then
    if 2 * (4 * m * unit) < (2 * q + 1) * step then some q else some (q + 1)
  else if lowerIn then some q
  else if upperIn then some (q + 1)
  else none

/-- Tries ever finer grids, `fuel` of them. -/
def searchGrid (m : Nat) (e : Int) : (fuel : Nat) → (k : Int) → Nat × Int
  | 0, k => (m, k)
  | fuel + 1, k =>
    match onGrid? m e k with
    | some q => (q, k)
    | none => searchGrid m e fuel (k - 1)

/-- The shortest digits of a positive number, and the power of ten of the last one. -/
def shortest (m : Nat) (e : Int) : Nat × Int :=
  -- a power of ten above the number, by its bits
  let bits : Int := (bitLength m : Int) + e
  let start : Int := if bits > 0 then bits * 30103 / 100000 + 1 else bits * 30102 / 100000 + 1
  searchGrid m e 400 start

/-- Drops final zeros, raising the power of ten. -/
def dropZeros : (fuel : Nat) → Nat → Int → Nat × Int
  | 0, q, k => (q, k)
  | fuel + 1, q, k => if q ≠ 0 && q % 10 = 0 then dropZeros fuel (q / 10) (k + 1) else (q, k)

def positional (q : Nat) (k : Int) : String :=
  let (q, k) := dropZeros 20 q k
  let ds := (toString q).toList
  if k ≥ 0 then String.ofList (ds ++ List.replicate k.toNat '0')
  else
    let places := (-k).toNat
    let ds := List.replicate (places + 1 - ds.length) '0' ++ ds
    String.ofList (ds.take (ds.length - places) ++ '.' :: ds.drop (ds.length - places))

/-- The text of a number in positional notation, without a point if it is whole. -/
def text : Binary64 → String
  | .nan => "NaN"
  | .infinite negative => if negative then "-inf" else "inf"
  | .finite negative m e =>
    let digits :=
      if m = 0 then "0"
      else
        let (q, k) := shortest m e
        positional q k
    if negative then "-" ++ digits else digits

/-- The text of a number with a point if it is finite. -/
def pointText (x : Binary64) : String :=
  match x with
  | .finite .. => if x.text.toList.contains '.' then x.text else x.text ++ ".0"
  | _ => x.text

def isNonzero : Binary64 → Bool
  | .finite _ m _ => m ≠ 0
  | _ => true

end Binary64

end StoreWarden
