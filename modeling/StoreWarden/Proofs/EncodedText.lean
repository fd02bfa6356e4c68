import Mathlib.Tactic.IntervalCases
import StoreWarden.Proofs.PlainText

/-!
# Encoded text is decoded to itself

What `encode` makes of a text is well formed, and `decode?` gives the text back, whatever
characters it is made of.
-/

set_option autoImplicit false

namespace StoreWarden.Text.Utf8

variable {n : Nat} {p : Pending}

theorem toNat_ofNat_of_lt (byte : n < 0x100) : (UInt8.ofNat n).toNat = n := by
  rw [UInt8.toNat_ofNat']
  exact Nat.mod_eq_of_lt byte

/-! ## Bytes that continue a character -/

theorem piecesFrom_last (low : p.low ≤ n) (high : n ≤ p.high) (byte : n < 0x100)
    (last : p.owed ≤ 1) (rest : Bytes) :
    piecesFrom (some p) (UInt8.ofNat n :: rest) =
      some (Char.ofNat (p.bits * 64 + (n - 0x80))) :: piecesFrom none rest := by
  simp only [piecesFrom, step, toNat_ofNat_of_lt byte, low, high, decide_true, Bool.and_self,
    if_true, if_pos last, List.cons_append, List.nil_append]

theorem piecesFrom_more (low : p.low ≤ n) (high : n ≤ p.high) (byte : n < 0x100)
    (more : 1 < p.owed) (rest : Bytes) :
    piecesFrom (some p) (UInt8.ofNat n :: rest) =
      piecesFrom (some ⟨p.owed - 1, 0x80, 0xBF, p.bits * 64 + (n - 0x80)⟩) rest := by
  simp only [piecesFrom, step, toNat_ofNat_of_lt byte, low, high, decide_true, Bool.and_self,
    if_true, if_neg (Nat.not_le.2 more), List.nil_append]

theorem piecesFrom_tail {owed bits : Nat} (tail : n < 0x40) (more : 1 < owed) (rest : Bytes) :
    piecesFrom (some ⟨owed, 0x80, 0xBF, bits⟩) (UInt8.ofNat (n + 0x80) :: rest) =
      piecesFrom (some ⟨owed - 1, 0x80, 0xBF, bits * 64 + n⟩) rest := by
  rw [piecesFrom_more (by simp) (by simp only; omega) (by omega) more, Nat.add_sub_cancel]

theorem piecesFrom_lastTail {bits : Nat} (tail : n < 0x40) (rest : Bytes) :
    piecesFrom (some ⟨1, 0x80, 0xBF, bits⟩) (UInt8.ofNat (n + 0x80) :: rest) =
      some (Char.ofNat (bits * 64 + n)) :: piecesFrom none rest := by
  rw [piecesFrom_last (by simp) (by simp only; omega) (by omega) (Nat.le_refl 1),
    Nat.add_sub_cancel]

/-! ## Bytes that begin one -/

theorem piecesFrom_one (small : n < 0x80) (rest : Bytes) :
    piecesFrom none (UInt8.ofNat n :: rest) = some (Char.ofNat n) :: piecesFrom none rest := by
  have byte : (UInt8.ofNat n).toNat = n := toNat_ofNat_of_lt (by omega)
  simp only [piecesFrom, step, afterFirst, first, byte, if_pos small, List.cons_append,
    List.nil_append]

theorem piecesFrom_of_start {b : UInt8} (begun : first b = .start p) (rest : Bytes) :
    piecesFrom none (b :: rest) = piecesFrom (some p) rest := by
  simp only [piecesFrom, step, afterFirst, begun, List.nil_append]

theorem first_of_two (from_ : 2 ≤ n) (below : n < 0x20) :
    first (UInt8.ofNat (n + 0xC0)) = .start ⟨1, 0x80, 0xBF, n⟩ := by
  have byte : (UInt8.ofNat (n + 0xC0)).toNat = n + 0xC0 := toNat_ofNat_of_lt (by omega)
  have one : ¬ n + 0xC0 < 0x80 := by omega
  have stray : ¬ n + 0xC0 < 0xC2 := by omega
  have two : n + 0xC0 < 0xE0 := by omega
  simp only [first, byte, if_neg one, if_neg stray, if_pos two, Nat.add_sub_cancel]

/-- The first of three bytes bounds the second, so that no shorter form and no surrogate is
taken. -/
theorem first_of_three {a : Nat} (below : n < 0x10) (tail : a < 0x40) (long : n = 0 → 0x20 ≤ a)
    (scalar : n = 0xD → a < 0x20) :
    ∃ low high, first (UInt8.ofNat (n + 0xE0)) = .start ⟨2, low, high, n⟩ ∧
      low ≤ a + 0x80 ∧ a + 0x80 ≤ high := by
  have byte : (UInt8.ofNat (n + 0xE0)).toNat = n + 0xE0 := toNat_ofNat_of_lt (by omega)
  have one : ¬ n + 0xE0 < 0x80 := by omega
  have stray : ¬ n + 0xE0 < 0xC2 := by omega
  have two : ¬ n + 0xE0 < 0xE0 := by omega
  simp only [first, byte, if_neg one, if_neg stray, if_neg two]
  by_cases zero : n = 0
  · subst zero
    exact ⟨0xA0, 0xBF, rfl, by omega, by omega⟩
  by_cases surrogate : n = 0xD
  · subst surrogate
    exact ⟨0x80, 0x9F, rfl, by omega, by omega⟩
  · have first_ : ¬ n + 0xE0 = 0xE0 := by omega
    have last : ¬ n + 0xE0 = 0xED := by omega
    have three : n + 0xE0 < 0xF0 := by omega
    rw [if_neg first_, if_neg last, if_pos three, Nat.add_sub_cancel]
    exact ⟨0x80, 0xBF, rfl, by omega, by omega⟩

/-- The first of four bytes bounds the second, so that no shorter form is taken and nothing beyond
the last character. -/
theorem first_of_four {a : Nat} (below : n < 5) (tail : a < 0x40) (long : n = 0 → 0x10 ≤ a)
    (within : n = 4 → a < 0x10) :
    ∃ low high, first (UInt8.ofNat (n + 0xF0)) = .start ⟨3, low, high, n⟩ ∧
      low ≤ a + 0x80 ∧ a + 0x80 ≤ high := by
  have byte : (UInt8.ofNat (n + 0xF0)).toNat = n + 0xF0 := toNat_ofNat_of_lt (by omega)
  unfold first
  rw [byte]
  interval_cases n
  · exact ⟨0x90, 0xBF, rfl, by omega, by omega⟩
  · exact ⟨0x80, 0xBF, rfl, by omega, by omega⟩
  · exact ⟨0x80, 0xBF, rfl, by omega, by omega⟩
  · exact ⟨0x80, 0xBF, rfl, by omega, by omega⟩
  · exact ⟨0x80, 0x8F, rfl, by omega, by omega⟩

/-! ## Characters and texts -/

theorem piecesFrom_encodeChar (c : Char) (rest : Bytes) :
    piecesFrom none (String.utf8EncodeChar c ++ rest) = some c :: piecesFrom none rest := by
  obtain ⟨v, same⟩ : ∃ v, c.val.toNat = v := ⟨_, rfl⟩
  have back : Char.ofNat v = c := by
    rw [← same]
    exact Char.ofNat_toNat c
  have valid : v < 0xD800 ∨ 0xDFFF < v ∧ v < 0x110000 := same ▸ c.valid
  unfold String.utf8EncodeChar
  simp only [same]
  split_ifs with one two three
  · rw [List.singleton_append, piecesFrom_one (by omega), back]
  · have lead := first_of_two (n := v / 64 % 32) (by omega) (by omega)
    rw [List.cons_append, List.singleton_append, piecesFrom_of_start lead,
      piecesFrom_lastTail (by omega)]
    have whole : v / 64 % 32 * 64 + v % 64 = v := by omega
    rw [whole, back]
  · obtain ⟨low, high, lead, above, below⟩ :=
      first_of_three (n := v / 4096 % 16) (a := v / 64 % 64) (by omega) (by omega) (by omega)
        (by omega)
    have whole : (v / 4096 % 16 * 64 + v / 64 % 64) * 64 + v % 64 = v := by omega
    rw [List.cons_append, List.cons_append, List.singleton_append, piecesFrom_of_start lead,
      piecesFrom_more above below (by omega) (Nat.lt_succ_self 1), Nat.add_sub_cancel]
    exact (piecesFrom_lastTail (by omega) rest).trans (by rw [whole, back])
  · obtain ⟨low, high, lead, above, below⟩ :=
      first_of_four (n := v / 262144 % 8) (a := v / 4096 % 64) (by omega) (by omega) (by omega)
        (by omega)
    have whole : ((v / 262144 % 8 * 64 + v / 4096 % 64) * 64 + v / 64 % 64) * 64 + v % 64 = v := by
      omega
    rw [List.cons_append, List.cons_append, List.cons_append, List.singleton_append,
      piecesFrom_of_start lead, piecesFrom_more above below (by omega) (by simp),
      Nat.add_sub_cancel, piecesFrom_tail (by omega) (by simp)]
    exact (piecesFrom_lastTail (by omega) rest).trans (by rw [whole, back])

theorem pieces_encode (cs : List Char) : pieces (encode cs) = cs.map some := by
  unfold pieces
  induction cs with
  | nil => rfl
  | cons c cs ih =>
      rw [encode, List.flatMap_cons, piecesFrom_encodeChar, List.map_cons]
      exact congrArg (some c :: ·) ih

theorem decode?_encode (cs : List Char) : decode? (encode cs) = some cs := by
  rw [decode?, pieces_encode]
  induction cs with
  | nil => rfl
  | cons c cs ih =>
      rw [List.map_cons, List.mapM_cons, ih]
      rfl

theorem decode?_ofString (text : String) : decode? (Bytes.ofString text) = some text.toList :=
  decode?_encode text.toList

end StoreWarden.Text.Utf8
