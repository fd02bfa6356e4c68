import Mathlib.Algebra.Ring.Nat
import Mathlib.Tactic.SplitIfs
import StoreWarden.Text.Utf8

/-!
# Plain text is decoded from itself alone

Decoding puts U+FFFD where bytes are malformed, and different byte sequences may come out as the
same text.  Not so for plain text, of ASCII without NUL: what is malformed or longer than a byte
comes out as something that is not plain, so that only the bytes of a plain text decode to it.
-/

set_option autoImplicit false

namespace StoreWarden.Text.Utf8

def IsPlain (c : Char) : Prop := 0 < c.toNat ∧ c.toNat < 0x80

instance (c : Char) : Decidable (IsPlain c) :=
  inferInstanceAs (Decidable (0 < c.toNat ∧ c.toNat < 0x80))

theorem toNat_ofNat_of_isValidChar {n : Nat} (valid : n.isValidChar) :
    (Char.ofNat n).toNat = n := by
  unfold Char.ofNat
  rw [dif_pos valid]
  rfl

theorem not_isPlain_ofNat {n : Nat} (wide : 0x80 ≤ n) : ¬ IsPlain (Char.ofNat n) := by
  unfold IsPlain
  by_cases valid : n.isValidChar
  · rw [toNat_ofNat_of_isValidChar valid]
    omega
  · -- a number that is no character stands for NUL
    unfold Char.ofNat
    rw [dif_neg valid]
    exact fun plain => absurd plain.1 (Nat.lt_irrefl 0)

theorem not_isPlain_replacement : ¬ IsPlain '\uFFFD' :=
  not_isPlain_ofNat (by omega : 0x80 ≤ 0xFFFD)

/-! ## Characters of several bytes -/

/-- However it is continued, an open character comes out beyond ASCII. -/
def Pending.Wide (p : Pending) : Prop :=
  0x80 ≤ (p.bits * 64 + (p.low - 0x80)) * 64 ^ (p.owed - 1)

theorem wide_of_first {b : UInt8} {p : Pending} (begun : first b = .start p) : p.Wide := by
  unfold first at begun
  unfold Pending.Wide
  simp only at begun
  split_ifs at begun <;> obtain rfl := First.start.inj begun <;> simp only <;> omega

theorem not_isPlain_of_last {p : Pending} {b : Nat} (wide : p.Wide) (low : p.low ≤ b)
    (last : p.owed ≤ 1) : ¬ IsPlain (Char.ofNat (p.bits * 64 + (b - 0x80))) := by
  unfold Pending.Wide at wide
  have one : p.owed - 1 = 0 := by omega
  rw [one, Nat.pow_zero] at wide
  apply not_isPlain_ofNat
  omega

theorem wide_of_continued {p : Pending} {b : Nat} (wide : p.Wide) (low : p.low ≤ b)
    (more : 1 < p.owed) :
    Pending.Wide ⟨p.owed - 1, 0x80, 0xBF, p.bits * 64 + (b - 0x80)⟩ := by
  unfold Pending.Wide at wide ⊢
  have power : 64 ^ (p.owed - 1) = 64 ^ (p.owed - 1 - 1) * 64 := by
    rw [← Nat.pow_succ]
    congr 1
    omega
  have grown : p.bits * 64 + (p.low - 0x80) ≤ p.bits * 64 + (b - 0x80) := by omega
  calc 0x80 ≤ (p.bits * 64 + (p.low - 0x80)) * 64 ^ (p.owed - 1) := wide
    _ ≤ (p.bits * 64 + (b - 0x80)) * 64 ^ (p.owed - 1) := Nat.mul_le_mul_right _ grown
    _ = ((p.bits * 64 + (b - 0x80)) * 64 + (0x80 - 0x80)) * 64 ^ (p.owed - 1 - 1) := by
      rw [power, Nat.sub_self, Nat.add_zero, Nat.mul_assoc, Nat.mul_comm 64]

/-- The first piece after an open character is not plain, whether it is completed or not. -/
theorem head_of_pending (bytes : Bytes) : ∀ {p : Pending}, p.Wide →
    ∃ x rest, piecesFrom (some p) bytes = x :: rest ∧ ¬ IsPlain (x.getD '\uFFFD') := by
  induction bytes with
  | nil => intro p _; exact ⟨none, [], rfl, not_isPlain_replacement⟩
  | cons b bytes ih =>
      intro p wide
      by_cases within : (p.low ≤ b.toNat && b.toNat ≤ p.high) = true
      · have low : p.low ≤ b.toNat := by
          simp only [Bool.and_eq_true, decide_eq_true_eq] at within
          exact within.1
        by_cases last : p.owed ≤ 1
        · simp only [piecesFrom, step, if_pos within, if_pos last]
          refine ⟨_, _, rfl, ?_⟩
          rw [Option.getD_some]
          exact not_isPlain_of_last wide low last
        · simp only [piecesFrom, step, if_pos within, if_neg last]
          exact ih (wide_of_continued wide low (Nat.lt_of_not_le last))
      · simp only [piecesFrom, step, if_neg within]
        exact ⟨none, _, rfl, not_isPlain_replacement⟩

/-! ## Plain text -/

theorem decodeLossy_cons_of_whole {b : UInt8} {c : Char} (whole : first b = .whole c)
    (bytes : Bytes) : decodeLossy (b :: bytes) = c :: decodeLossy bytes := by
  simp [decodeLossy, pieces, piecesFrom, step, afterFirst, whole]

/-- A byte that is not a character by itself does not come out as a plain one. -/
theorem decodeLossy_cons_of_not_whole {b : UInt8} (other : ∀ c, first b ≠ .whole c)
    (bytes : Bytes) : ∃ c rest, decodeLossy (b :: bytes) = c :: rest ∧ ¬ IsPlain c := by
  unfold decodeLossy pieces
  cases begun : first b with
  | whole c => exact absurd begun (other c)
  | start p =>
      obtain ⟨x, rest, pieces, foreign⟩ := head_of_pending bytes (wide_of_first begun)
      simp only [piecesFrom, step, afterFirst, begun, List.nil_append, pieces, List.map_cons]
      exact ⟨_, _, rfl, foreign⟩
  | malformed =>
      simp only [piecesFrom, step, afterFirst, begun, List.cons_append, List.map_cons]
      exact ⟨_, _, rfl, not_isPlain_replacement⟩

theorem first_eq_whole_iff {b : UInt8} {c : Char} :
    first b = .whole c ↔ b.toNat < 0x80 ∧ c = Char.ofNat b.toNat := by
  unfold first
  by_cases small : b.toNat < 0x80
  · simp [small, eq_comm]
  · simp only [if_neg small]
    split_ifs <;> simp [small]

theorem encode_cons_of_isPlain {c : Char} (plain : IsPlain c) (cs : List Char) :
    encode (c :: cs) = c.val.toUInt8 :: encode cs := by
  have small : c.val ≤ 127 := by
    have below : c.val.toNat < 0x80 := plain.2
    exact UInt32.le_iff_toNat_le.2 (by simpa using Nat.le_of_lt_succ below)
  unfold encode
  rw [List.flatMap_cons, String.utf8EncodeChar_eq_singleton (Char.utf8Size_eq_one_iff.2 small)]
  rfl

theorem toNat_toUInt8_of_isPlain {c : Char} (plain : IsPlain c) :
    c.val.toUInt8.toNat = c.toNat := by
  have below : c.val.toNat < 0x80 := plain.2
  rw [UInt32.toNat_toUInt8]
  exact Nat.mod_eq_of_lt (by omega)

theorem decodeLossy_encode {cs : List Char} (plain : ∀ c ∈ cs, IsPlain c) :
    decodeLossy (encode cs) = cs := by
  induction cs with
  | nil => rfl
  | cons c cs ih =>
      have own := plain c List.mem_cons_self
      have whole : first c.val.toUInt8 = .whole c := by
        rw [first_eq_whole_iff, toNat_toUInt8_of_isPlain own]
        exact ⟨own.2, (Char.ofNat_toNat c).symm⟩
      rw [encode_cons_of_isPlain own, decodeLossy_cons_of_whole whole,
        ih fun c mem => plain c (List.mem_cons_of_mem _ mem)]

theorem eq_encode_of_decodeLossy (bytes : Bytes) : ∀ {cs : List Char}, (∀ c ∈ cs, IsPlain c) →
    decodeLossy bytes = cs → bytes = encode cs := by
  induction bytes with
  | nil =>
      intro cs _ decoded
      obtain rfl : [] = cs := decoded
      rfl
  | cons b bytes ih =>
      rintro cs plain rfl
      by_cases whole : ∃ c, first b = .whole c
      · obtain ⟨c, whole⟩ := whole
        rw [decodeLossy_cons_of_whole whole] at plain ⊢
        have own := plain c List.mem_cons_self
        obtain ⟨small, same⟩ := first_eq_whole_iff.1 whole
        have byte : b = c.val.toUInt8 := by
          apply UInt8.toNat.inj
          have valid : b.toNat.isValidChar := Or.inl (by omega)
          rw [toNat_toUInt8_of_isPlain own, same, toNat_ofNat_of_isValidChar valid]
        rw [encode_cons_of_isPlain own, ← byte,
          ← ih (fun c mem => plain c (List.mem_cons_of_mem _ mem)) rfl]
      · have other : ∀ c, first b ≠ .whole c := fun c same => whole ⟨c, same⟩
        obtain ⟨c, rest, decoded, foreign⟩ := decodeLossy_cons_of_not_whole other bytes
        rw [decoded] at plain
        exact absurd (plain c List.mem_cons_self) foreign

theorem decodeLossy_eq_iff {bytes : Bytes} {cs : List Char} (plain : ∀ c ∈ cs, IsPlain c) :
    decodeLossy bytes = cs ↔ bytes = encode cs := by
  constructor
  · exact eq_encode_of_decodeLossy bytes plain
  · rintro rfl
    exact decodeLossy_encode plain

def IsPlainText (text : String) : Prop := ∀ c ∈ text.toList, IsPlain c

instance (text : String) : Decidable (IsPlainText text) := List.decidableBAll IsPlain text.toList

theorem toStringLossy_eq_iff {bytes : Bytes} {text : String} (plain : IsPlainText text) :
    bytes.toStringLossy = text ↔ bytes = Bytes.ofString text := by
  unfold Bytes.toStringLossy Bytes.ofString
  rw [← decodeLossy_eq_iff plain]
  constructor
  · rintro rfl
    exact String.toList_ofList.symm
  · intro same
    rw [same, String.ofList_toList]

end StoreWarden.Text.Utf8
