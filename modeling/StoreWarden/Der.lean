import StoreWarden.Text.Utf8

/-!
# Tagged values

Certificates and keys are nested values, each with a tag and a length in front.  Lengths are given
in the shortest way.
-/

namespace StoreWarden.Der

structure Item where
  tag : UInt8
  content : Bytes
deriving DecidableEq, Repr

/-- The tags that certificates and keys are made of. -/
def integer : UInt8 := 0x02
/-- A sequence of bits, of which the first byte tells how many of the last are unused. -/
def bitString : UInt8 := 0x03
def octetString : UInt8 := 0x04
/-- Values one after the other. -/
def sequence : UInt8 := 0x30
/-- The tag of the optional part with this number. -/
def part (n : Nat) : UInt8 := UInt8.ofNat (0xA0 + n)

/-- A number in big bytes first. -/
def natOf (bytes : Bytes) : Nat := bytes.foldl (fun n b => n * 256 + b.toNat) 0

/-- Whether a length may be given in this many bytes: they are there, and fewer would not do. -/
def isShortest (count : Nat) (bytes : Bytes) : Bool :=
  0 < count && count ≤ 4 && count ≤ bytes.length && 0x80 ≤ natOf (bytes.take count) &&
    Nat.pow 256 (count - 1) ≤ natOf (bytes.take count)

/-- Reads a length, and gives what follows it. -/
def length? : Bytes → Option (Nat × Bytes)
  | [] => none
  | b :: rest =>
    if b.toNat < 0x80 then some (b.toNat, rest)
    else if isShortest (b.toNat - 0x80) rest then
      some (natOf (rest.take (b.toNat - 0x80)), rest.drop (b.toNat - 0x80))
    else none

/-- Reads one value, and gives what follows it. -/
def read? : Bytes → Option (Item × Bytes)
  | [] => none
  | tag :: rest =>
    match length? rest with
    | none => none
    | some (n, rest) =>
      if n ≤ rest.length then some (⟨tag, rest.take n⟩, rest.drop n) else none

theorem length_le_of_length? {bytes rest : Bytes} {n : Nat} (h : length? bytes = some (n, rest)) :
    rest.length ≤ bytes.length := by
  cases bytes with
  | nil => simp [length?] at h
  | cons b tail =>
    simp only [length?] at h
    split at h
    · simp only [Option.some.injEq, Prod.mk.injEq] at h
      simp [← h.2]
    · split at h
      · simp only [Option.some.injEq, Prod.mk.injEq] at h
        simp [← h.2]
        omega
      · simp at h

theorem length_lt_of_read? {bytes rest : Bytes} {item : Item}
    (h : read? bytes = some (item, rest)) : rest.length < bytes.length := by
  cases bytes with
  | nil => simp [read?] at h
  | cons tag tail =>
    simp only [read?] at h
    split at h
    · simp at h
    · rename_i n after hl
      have := length_le_of_length? hl
      split at h
      · simp only [Option.some.injEq, Prod.mk.injEq] at h
        simp [← h.2]
        omega
      · simp at h

/-- The bytes of a number, big bytes first, without zeros in front. -/
def bytesOf (n : Nat) : Bytes :=
  if n < 256 then [UInt8.ofNat n] else bytesOf (n / 256) ++ [UInt8.ofNat (n % 256)]

def Item.encode (item : Item) : Bytes :=
  let n := item.content.length
  let digits := bytesOf n
  let length := if n < 0x80 then digits else UInt8.ofNat (0x80 + digits.length) :: digits
  item.tag :: length ++ item.content

def readAll? (bytes : Bytes) : Option (List Item) :=
  if bytes = [] then some []
  else
    match h : read? bytes with
    | none => none
    | some (item, rest) =>
      have := length_lt_of_read? h
      (readAll? rest).map (item :: ·)
termination_by bytes.length

/-- Reads exactly one value with this tag, and gives its content. -/
def only? (tag : UInt8) (bytes : Bytes) : Option Bytes :=
  match read? bytes with
  | some (item, []) => if item.tag = tag then some item.content else none
  | _ => none

/-- The values in a sequence that is all there is. -/
def sequence? (bytes : Bytes) : Option (List Item) := (only? sequence bytes).bind readAll?

def bitLength (content : Bytes) : Nat :=
  let n := natOf content
  if n = 0 then 0 else Nat.log2 n + 1

end StoreWarden.Der
