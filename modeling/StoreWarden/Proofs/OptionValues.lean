import StoreWarden.CommandLine.Given
import StoreWarden.Proofs.DecodedText

/-!
# What a value is read as

A value is read by the form of its option alone, `Form.Tells`.  A flag is one of two words, a text
is whatever its bytes encode, and a path is any bytes but none.  A number is written in decimal
digits, leading zeros included, and may have a plus sign; a port may even be zero with a minus sign.
-/

set_option autoImplicit false

namespace StoreWarden

namespace Decimal

/-- Digits, at least one, and the number that they stand for. -/
structure Numeral (digits : List Char) (n : Nat) : Prop where
  filled : digits ≠ []
  decimal : ∀ c ∈ digits, c.isDigit = true
  value : Nat.ofDigitChars 10 digits 0 = n

inductive Unsigned : List Char → Nat → Prop
  | bare {digits : List Char} {n : Nat} (numeral : Numeral digits n) : Unsigned digits n
  | plus {digits : List Char} {n : Nat} (numeral : Numeral digits n) : Unsigned ('+' :: digits) n

/-- Zero with a minus sign. -/
def NegativeZero (text : List Char) : Prop := ∃ digits, text = '-' :: digits ∧ Numeral digits 0

variable {greatest least value n : Nat} {overflow : WholeFault} {digits : List Char}

theorem le_ofDigitChars (digits : List Char) (value : Nat) :
    value ≤ Nat.ofDigitChars 10 digits value := by
  induction digits generalizing value with
  | nil => exact Nat.le_refl value
  | cons c digits ih =>
      have rest := ih (10 * value + (c.toNat - '0'.toNat))
      rw [Nat.ofDigitChars_cons]
      omega

/-- Reading stops early only at what is no digit, and at a digit after which the number is too large
whatever follows. -/
theorem readDigits_eq_ok_iff (small : value ≤ greatest) :
    readDigits greatest overflow value digits = .ok n ↔
      (∀ c ∈ digits, c.isDigit = true) ∧ Nat.ofDigitChars 10 digits value = n ∧ n ≤ greatest := by
  induction digits generalizing value with
  | nil =>
      simp only [readDigits, Except.ok.injEq, List.not_mem_nil, false_imp_iff, implies_true,
        true_and, Nat.ofDigitChars_nil]
      constructor
      · rintro rfl
        exact ⟨rfl, small⟩
      · exact fun same => same.1
  | cons c digits ih =>
      rw [List.forall_mem_cons, Nat.ofDigitChars_cons, readDigits, digit?]
      cases digit : c.isDigit with
      | false => simp
      | true =>
          simp only [if_true, true_and]
          rw [Nat.mul_comm value 10]
          by_cases fits : 10 * value + (c.toNat - '0'.toNat) ≤ greatest
          · rw [if_neg (Nat.not_lt.2 fits), ih fits]
          · rw [if_pos (Nat.lt_of_not_le fits)]
            refine iff_of_false nofun ?_
            rintro ⟨-, rfl, within⟩
            exact fits (Nat.le_trans (le_ofDigitChars digits _) within)

theorem readDigits_eq_ok_iff_numeral (filled : digits ≠ []) :
    readDigits greatest overflow 0 digits = .ok n ↔ Numeral digits n ∧ n ≤ greatest := by
  rw [readDigits_eq_ok_iff (Nat.zero_le greatest)]
  constructor
  · rintro ⟨all, value, within⟩
    exact ⟨⟨filled, all, value⟩, within⟩
  · rintro ⟨numeral, within⟩
    exact ⟨numeral.decimal, numeral.value, within⟩

theorem unsigned_cons_iff {c : Char} (other : c ≠ '+') :
    Unsigned (c :: digits) n ↔ Numeral (c :: digits) n := by
  constructor
  · intro unsigned
    cases unsigned with
    | bare numeral => exact numeral
    | plus numeral => exact absurd rfl other
  · exact .bare

theorem unsigned_plus_iff : Unsigned ('+' :: digits) n ↔ Numeral digits n := by
  constructor
  · intro unsigned
    cases unsigned with
    | bare numeral => exact absurd (numeral.decimal '+' List.mem_cons_self) (by decide)
    | plus numeral => exact numeral
  · exact .plus

theorem readNat_eq_ok_iff {text : String} :
    readNat greatest text = .ok n ↔ Unsigned text.toList n ∧ n ≤ greatest := by
  unfold readNat
  rcases text.toList with _ | ⟨c, rest⟩
  · refine iff_of_false nofun ?_
    rintro ⟨unsigned, -⟩
    cases unsigned with
    | bare numeral => exact numeral.filled rfl
  · by_cases plus : c = '+'
    · subst plus
      rw [unsigned_plus_iff]
      cases rest with
      | nil => exact iff_of_false nofun fun both => both.1.filled rfl
      | cons d rest => exact readDigits_eq_ok_iff_numeral (List.cons_ne_nil d rest)
    · rw [unsigned_cons_iff plus]
      have plain : readDigits greatest .tooLarge 0 (c :: rest) = .ok n ↔ _ :=
        readDigits_eq_ok_iff_numeral (List.cons_ne_nil c rest)
      split <;> simp_all

theorem map_eq_ok_iff {ε α β : Type} {f : α → β} {x : Except ε α} {b : β} :
    x.map f = .ok b ↔ ∃ a, x = .ok a ∧ f a = b := by
  cases x <;> simp [Except.map]

theorem readInt_of_head {text : String} (head : text.toList.head? ≠ some '-') :
    readInt least greatest text = (readNat greatest text).map Int.ofNat := by
  unfold readInt readNat
  generalize text.toList = cs at head ⊢
  rcases cs with _ | ⟨c, rest⟩
  · rfl
  · have minus : c ≠ '-' := fun same => head (congrArg some same)
    by_cases plus : c = '+'
    · subst plus
      cases rest <;> rfl
    · split <;> simp_all

theorem readInt_of_minus {text : String} {digits : List Char} (whole : text.toList = '-' :: digits)
    {i : Int} : readInt least greatest text = .ok i ↔
      ∃ n : Nat, Numeral digits n ∧ n ≤ least ∧ -(n : Int) = i := by
  unfold readInt
  rw [whole]
  cases digits with
  | nil =>
      refine iff_of_false nofun ?_
      rintro ⟨n, numeral, -⟩
      exact numeral.filled rfl
  | cons d digits =>
      change (readDigits least .tooSmall 0 (d :: digits)).map _ = .ok i ↔ _
      rw [map_eq_ok_iff]
      simp only [readDigits_eq_ok_iff_numeral (List.cons_ne_nil d digits), and_assoc,
        Int.ofNat_eq_natCast]

theorem readUInt16_eq_ok_iff_readInt {text : String} {v : UInt16} :
    readUInt16 text = .ok v ↔
      readInt (greatestSigned + 1) greatestSigned text = .ok (v.toNat : Int) := by
  have within : v.toNat < 65536 := v.toNat_lt
  unfold readUInt16
  cases found : readInt (greatestSigned + 1) greatestSigned text with
  | error fault => exact iff_of_false nofun nofun
  | ok i =>
      simp only [Except.ok.injEq]
      constructor
      · intro read
        split at read
        · next bounds =>
            obtain rfl := Except.ok.inj read
            rw [UInt16.toNat_ofNat_of_lt' (by change i.toNat < 65536; omega)]
            omega
        · cases read
      · rintro rfl
        rw [if_pos (by omega), Int.toNat_natCast, UInt16.ofNat_toNat]

/-- A port is read as a number with a sign, so that zero may have a minus. -/
theorem readUInt16_eq_ok_iff {text : String} {v : UInt16} :
    readUInt16 text = .ok v ↔
      Unsigned text.toList v.toNat ∨ v = 0 ∧ NegativeZero text.toList := by
  rw [readUInt16_eq_ok_iff_readInt]
  by_cases head : text.toList.head? = some '-'
  · obtain ⟨digits, whole⟩ := List.head?_eq_some_iff.1 head
    have signed : ¬ Unsigned text.toList v.toNat := by
      rw [whole, unsigned_cons_iff (by decide)]
      intro numeral
      exact absurd (numeral.decimal '-' List.mem_cons_self) (by decide)
    rw [readInt_of_minus whole, or_iff_right signed]
    constructor
    · rintro ⟨n, numeral, -, same⟩
      have zero : n = 0 ∧ v.toNat = 0 := by omega
      obtain ⟨rfl, none'⟩ := zero
      exact ⟨UInt16.toNat_inj.1 none', digits, whole, numeral⟩
    · rintro ⟨rfl, other, whole', numeral⟩
      obtain rfl := (List.cons.inj (whole.symm.trans whole')).2
      exact ⟨0, numeral, Nat.zero_le _, rfl⟩
  · have unsigned : ¬ (v = 0 ∧ NegativeZero text.toList) := by
      rintro ⟨-, digits, whole, -⟩
      exact head (by rw [whole]; rfl)
    have within : v.toNat ≤ greatestSigned :=
      Nat.le_trans (Nat.le_of_lt_succ v.toNat_lt) (by decide)
    rw [readInt_of_head head, map_eq_ok_iff, or_iff_left unsigned]
    constructor
    · rintro ⟨n, found, same⟩
      obtain rfl := Int.ofNat.inj same
      exact (readNat_eq_ok_iff.1 found).1
    · exact fun unsigned => ⟨v.toNat, readNat_eq_ok_iff.2 ⟨unsigned, within⟩, rfl⟩

theorem readUInt64_eq_ok_iff {text : String} {v : UInt64} :
    readUInt64 text = .ok v ↔ Unsigned text.toList v.toNat := by
  rw [readUInt64, map_eq_ok_iff]
  constructor
  · rintro ⟨n, found, rfl⟩
    obtain ⟨unsigned, within⟩ := readNat_eq_ok_iff.1 found
    rwa [UInt64.toNat_ofNat_of_lt' (Nat.lt_of_le_pred (by decide) within)]
  · intro unsigned
    have within : v.toNat ≤ UInt64.size - 1 := Nat.le_sub_one_of_lt v.toNat_lt_size
    exact ⟨v.toNat, readNat_eq_ok_iff.2 ⟨unsigned, within⟩, UInt64.ofNat_toNat⟩

end Decimal

namespace CommandLine

/-- What the bytes of a value say, by the form of the option. -/
def Form.Tells : (f : Form) → Bytes → f.Value → Prop
  | .flag, raw, v => raw = Bytes.ofString (if v then "true" else "false")
  | .text, raw, v => raw = Bytes.ofString v
  | .path, raw, v => raw ≠ [] ∧ raw = v.bytes
  | .port, raw, v => ∃ text, raw = Bytes.ofString text ∧
      (Decimal.Unsigned text.toList v.toNat ∨ v = 0 ∧ Decimal.NegativeZero text.toList)
  | .seconds, raw, v => ∃ text, raw = Bytes.ofString text ∧ Decimal.Unsigned text.toList v.toNat

variable {raw : Bytes}

theorem ofString_eq_iff {s : String} : raw.toString? = some s ↔ raw = Bytes.ofString s := by
  constructor
  · exact fun decoded => (Bytes.ofString_of_toString? decoded).symm
  · rintro rfl
    exact Bytes.toString?_ofString s

theorem mapError_eq_ok_iff {ε ε' α : Type} {f : ε → ε'} {x : Except ε α} {a : α} :
    x.mapError f = .ok a ↔ x = .ok a := by
  cases x <;> simp [Except.mapError]

/-- Every option's value is what its form makes of the bytes. -/
theorem readValue_eq_ok_iff (k : Key) (raw : Bytes) (v : k.form.Value) :
    readValue k raw = .ok v ↔ k.form.Tells raw v := by
  unfold readValue
  revert v
  generalize k.form = f
  intro v
  cases f with
  | flag =>
      have apart : Bytes.ofString "true" ≠ Bytes.ofString "false" := by decide
      by_cases yes : raw = Bytes.ofString "true"
      · subst yes
        cases v <;> simp [Form.Tells, apart]
      · rw [if_neg yes]
        by_cases no : raw = Bytes.ofString "false"
        · subst no
          cases v <;> simp [Form.Tells, apart.symm]
        · have neither : ¬ Form.Tells .flag raw v := by cases v <;> assumption
          rw [if_neg no]
          refine iff_of_false ?_ neither
          split <;> exact nofun
  | text =>
      simp only [Form.Tells, ← ofString_eq_iff]
      cases raw.toString? <;> simp
  | path =>
      obtain ⟨bytes⟩ := v
      simp only [Form.Tells]
      split <;> simp_all
  | port =>
      simp only [Form.Tells, ← ofString_eq_iff, ← Decimal.readUInt16_eq_ok_iff]
      cases raw.toString? <;> simp [mapError_eq_ok_iff]
  | seconds =>
      simp only [Form.Tells, ← ofString_eq_iff, ← Decimal.readUInt64_eq_ok_iff]
      cases raw.toString? <;> simp [mapError_eq_ok_iff]

end CommandLine

end StoreWarden
