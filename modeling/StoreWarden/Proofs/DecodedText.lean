import StoreWarden.Os.Path
import StoreWarden.Proofs.EncodedText

/-!
# Decoded text is encoded to its bytes

A character comes out of well-formed bytes only, and only out of the ones that encode it: no longer
form, no surrogate and nothing beyond the last character is taken.  So bytes that decode at all are
the encoding of their text, and the text tells them.
-/

set_option autoImplicit false

namespace StoreWarden.Text.Utf8

/-! ## One character -/

/-- An open character comes out only if a byte within its range continues it. -/
theorem continued_of_piece {p : Pending} {bytes : Bytes} {c : Char} {rest : List (Option Char)}
    (piece : piecesFrom (some p) bytes = some c :: rest) :
    ∃ b more, bytes = b :: more ∧ p.low ≤ b.toNat ∧ b.toNat ≤ p.high := by
  cases bytes with
  | nil => simp [piecesFrom] at piece
  | cons b more =>
      refine ⟨b, more, rfl, ?_⟩
      by_contra outside
      simp [piecesFrom, step, outside] at piece

theorem ended_of_piece {owed low high bits : Nat} {bytes : Bytes} {c : Char}
    {rest : List (Option Char)} (last : owed ≤ 1)
    (piece : piecesFrom (some ⟨owed, low, high, bits⟩) bytes = some c :: rest) :
    ∃ b more, bytes = b :: more ∧ low ≤ b.toNat ∧ b.toNat ≤ high ∧
      c = Char.ofNat (bits * 64 + (b.toNat - 0x80)) ∧ rest = piecesFrom none more := by
  obtain ⟨b, more, rfl, above, below⟩ := continued_of_piece piece
  have byte := piecesFrom_last above below b.toNat_lt last more
  rw [UInt8.ofNat_toNat, piece] at byte
  obtain ⟨same, after⟩ := List.cons.inj byte
  exact ⟨b, more, rfl, above, below, Option.some.inj same, after⟩

theorem open_of_piece {owed low high bits : Nat} {bytes : Bytes} {c : Char}
    {rest : List (Option Char)} (further : 1 < owed)
    (piece : piecesFrom (some ⟨owed, low, high, bits⟩) bytes = some c :: rest) :
    ∃ b more, bytes = b :: more ∧ low ≤ b.toNat ∧ b.toNat ≤ high ∧
      piecesFrom (some ⟨owed - 1, 0x80, 0xBF, bits * 64 + (b.toNat - 0x80)⟩) more =
        some c :: rest := by
  obtain ⟨b, more, rfl, above, below⟩ := continued_of_piece piece
  have byte := piecesFrom_more above below b.toNat_lt further more
  rw [UInt8.ofNat_toNat, piece] at byte
  exact ⟨b, more, rfl, above, below, byte.symm⟩

/-- What the first of several bytes says of the character: its highest bits, and bounds of the next
byte that keep it within the scalar values of that length. -/
theorem shape_of_first {b : UInt8} {p : Pending} (begun : first b = .start p) :
    (p.owed = 1 ∧ b.toNat = p.bits + 0xC0 ∧ 2 ≤ p.bits ∧ p.bits < 0x20 ∧ p.low = 0x80 ∧
        p.high = 0xBF) ∨
      (p.owed = 2 ∧ b.toNat = p.bits + 0xE0 ∧ p.bits < 0x10 ∧ 0x80 ≤ p.low ∧ p.high ≤ 0xBF ∧
        (p.bits = 0 → p.low = 0xA0) ∧ (p.bits = 0xD → p.high = 0x9F)) ∨
      (p.owed = 3 ∧ b.toNat = p.bits + 0xF0 ∧ p.bits ≤ 4 ∧ 0x80 ≤ p.low ∧ p.high ≤ 0xBF ∧
        (p.bits = 0 → p.low = 0x90) ∧ (p.bits = 4 → p.high = 0x8F)) := by
  unfold first at begun
  simp only at begun
  split_ifs at begun <;> obtain rfl := First.start.inj begun <;> dsimp only <;> omega

theorem byte_eq {b : UInt8} {n : Nat} (same : b.toNat = n) : UInt8.ofNat n = b := by
  rw [← same]
  exact UInt8.ofNat_toNat

theorem val_toNat_ofNat {n : Nat} (valid : n.isValidChar) : (Char.ofNat n).val.toNat = n :=
  toNat_ofNat_of_isValidChar valid

theorem encodeChar_of_one {b : UInt8} (small : b.toNat < 0x80) :
    String.utf8EncodeChar (Char.ofNat b.toNat) = [b] := by
  unfold String.utf8EncodeChar
  simp only [val_toNat_ofNat (Or.inl (by omega) : b.toNat.isValidChar)]
  rw [if_pos (by omega), byte_eq rfl]

theorem encodeChar_of_two {b b' : UInt8} {n : Nat} (lead : b.toNat = n + 0xC0) (least : 2 ≤ n)
    (most : n < 0x20) (low : 0x80 ≤ b'.toNat) (high : b'.toNat ≤ 0xBF) :
    String.utf8EncodeChar (Char.ofNat (n * 64 + (b'.toNat - 0x80))) = [b, b'] := by
  have valid : (n * 64 + (b'.toNat - 0x80)).isValidChar := Or.inl (by omega)
  unfold String.utf8EncodeChar
  simp only [val_toNat_ofNat valid]
  rw [if_neg (by omega), if_pos (by omega), byte_eq (b := b) (by omega),
    byte_eq (b := b') (by omega)]

theorem encodeChar_of_three {b b' b₃ : UInt8} {n : Nat} (lead : b.toNat = n + 0xE0)
    (most : n < 0x10) (low : 0x80 ≤ b'.toNat) (high : b'.toNat ≤ 0xBF)
    (long : n = 0 → 0xA0 ≤ b'.toNat) (scalar : n = 0xD → b'.toNat ≤ 0x9F)
    (low' : 0x80 ≤ b₃.toNat) (high' : b₃.toNat ≤ 0xBF) :
    String.utf8EncodeChar
      (Char.ofNat ((n * 64 + (b'.toNat - 0x80)) * 64 + (b₃.toNat - 0x80))) = [b, b', b₃] := by
  have valid : ((n * 64 + (b'.toNat - 0x80)) * 64 + (b₃.toNat - 0x80)).isValidChar := by
    unfold Nat.isValidChar
    omega
  unfold String.utf8EncodeChar
  simp only [val_toNat_ofNat valid]
  rw [if_neg (by omega), if_neg (by omega), if_pos (by omega), byte_eq (b := b) (by omega),
    byte_eq (b := b') (by omega), byte_eq (b := b₃) (by omega)]

theorem encodeChar_of_four {b b' b₃ b₄ : UInt8} {n : Nat} (lead : b.toNat = n + 0xF0)
    (most : n ≤ 4) (low : 0x80 ≤ b'.toNat) (high : b'.toNat ≤ 0xBF)
    (long : n = 0 → 0x90 ≤ b'.toNat) (within : n = 4 → b'.toNat ≤ 0x8F)
    (low' : 0x80 ≤ b₃.toNat) (high' : b₃.toNat ≤ 0xBF)
    (low₄ : 0x80 ≤ b₄.toNat) (high₄ : b₄.toNat ≤ 0xBF) :
    String.utf8EncodeChar
      (Char.ofNat (((n * 64 + (b'.toNat - 0x80)) * 64 + (b₃.toNat - 0x80)) * 64 +
        (b₄.toNat - 0x80))) = [b, b', b₃, b₄] := by
  have valid : (((n * 64 + (b'.toNat - 0x80)) * 64 + (b₃.toNat - 0x80)) * 64 +
      (b₄.toNat - 0x80)).isValidChar := by
    unfold Nat.isValidChar
    omega
  unfold String.utf8EncodeChar
  simp only [val_toNat_ofNat valid]
  rw [if_neg (by omega), if_neg (by omega), if_neg (by omega), byte_eq (b := b) (by omega),
    byte_eq (b := b') (by omega), byte_eq (b := b₃) (by omega), byte_eq (b := b₄) (by omega)]

theorem encoded_of_piece {bytes : Bytes} {c : Char} {rest : List (Option Char)}
    (piece : piecesFrom none bytes = some c :: rest) :
    ∃ more, bytes = String.utf8EncodeChar c ++ more ∧ rest = piecesFrom none more := by
  cases bytes with
  | nil => simp [piecesFrom] at piece
  | cons b bytes =>
      cases begun : first b with
      | malformed => simp [piecesFrom, step, afterFirst, begun] at piece
      | whole c' =>
          obtain ⟨small, same⟩ := first_eq_whole_iff.1 begun
          simp only [piecesFrom, step, afterFirst, begun, List.singleton_append, List.cons.injEq,
            Option.some.injEq] at piece
          refine ⟨bytes, ?_, piece.2.symm⟩
          rw [← piece.1, same, encodeChar_of_one small, List.singleton_append]
      | start p =>
          rw [piecesFrom_of_start begun] at piece
          obtain ⟨owed, lead, least, most, low, high⟩ |
            ⟨owed, lead, most, low, high, long, scalar⟩ |
            ⟨owed, lead, most, low, high, long, within⟩ := shape_of_first begun
          · -- two bytes
            obtain ⟨b₁, more, rfl, low₁, high₁, same, after⟩ := ended_of_piece owed.le piece
            refine ⟨more, ?_, after⟩
            rw [same, encodeChar_of_two lead least most (by omega) (by omega), List.cons_append,
              List.singleton_append]
          · -- three
            obtain ⟨b₁, more₁, rfl, low₁, high₁, next⟩ := open_of_piece (by omega) piece
            obtain ⟨b₂, more, rfl, low₂, high₂, same, after⟩ := ended_of_piece (by omega) next
            refine ⟨more, ?_, after⟩
            rw [same, encodeChar_of_three lead most (by omega) (by omega) (by omega) (by omega)
              low₂ high₂, List.cons_append, List.cons_append, List.singleton_append]
          · -- four
            obtain ⟨b₁, more₁, rfl, low₁, high₁, next⟩ := open_of_piece (by omega) piece
            obtain ⟨b₂, more₂, rfl, low₂, high₂, next⟩ := open_of_piece (by omega) next
            obtain ⟨b₃, more, rfl, low₃, high₃, same, after⟩ := ended_of_piece (by omega) next
            refine ⟨more, ?_, after⟩
            rw [same, encodeChar_of_four lead most (by omega) (by omega) (by omega) (by omega)
              low₂ high₂ low₃ high₃, List.cons_append, List.cons_append, List.cons_append,
              List.singleton_append]

/-! ## Texts -/

theorem encode_cons (c : Char) (cs : List Char) :
    encode (c :: cs) = String.utf8EncodeChar c ++ encode cs := rfl

/-- Characters that stand at the start of the pieces are encoded at the start of the bytes. -/
theorem encode_of_pieces (cs : List Char) : ∀ {bytes : Bytes} {rest : List (Option Char)},
    pieces bytes = cs.map some ++ rest →
      ∃ more, bytes = encode cs ++ more ∧ rest = pieces more := by
  induction cs with
  | nil => intro bytes rest same; exact ⟨bytes, rfl, same.symm⟩
  | cons c cs ih =>
      intro bytes rest same
      obtain ⟨more, split, after⟩ := encoded_of_piece same
      obtain ⟨more', split', after'⟩ := ih after.symm
      refine ⟨more', ?_, after'⟩
      rw [split, split', encode_cons, List.append_assoc]

theorem eq_nil_of_pieces {bytes : Bytes} (none_ : pieces bytes = []) : bytes = [] := by
  cases bytes with
  | nil => rfl
  | cons b bytes =>
      unfold pieces at none_
      cases begun : first b with
      | whole c => simp [piecesFrom, step, afterFirst, begun] at none_
      | malformed => simp [piecesFrom, step, afterFirst, begun] at none_
      | start p =>
          obtain ⟨x, rest, same, _⟩ := head_of_pending bytes (wide_of_first begun)
          rw [piecesFrom_of_start begun, same] at none_
          exact absurd none_ (List.cons_ne_nil x rest)

theorem eq_map_some_of_mapM (xs : List (Option Char)) : ∀ {cs : List Char},
    xs.mapM id = some cs → xs = cs.map some := by
  induction xs with
  | nil =>
      intro cs whole
      obtain rfl := Option.some.inj whole
      rfl
  | cons x xs ih =>
      intro cs whole
      rw [List.mapM_cons] at whole
      obtain ⟨c, own, after⟩ := Option.bind_eq_some_iff.1 whole
      obtain rfl : x = some c := own
      obtain ⟨ds, rest, same⟩ := Option.bind_eq_some_iff.1 after
      obtain rfl := Option.some.inj same
      rw [ih rest, List.map_cons]

theorem encode_of_decode? {bytes : Bytes} {cs : List Char} (decoded : decode? bytes = some cs) :
    encode cs = bytes := by
  have whole : pieces bytes = cs.map some := eq_map_some_of_mapM _ decoded
  rw [← List.append_nil (cs.map some)] at whole
  obtain ⟨more, split, after⟩ := encode_of_pieces cs whole
  rw [split, eq_nil_of_pieces after.symm, List.append_nil]

/-- Pieces are the characters up to the first malformed one, and a rest. -/
theorem exists_rest (xs : List (Option Char)) : ∃ rest,
    xs = ((xs.takeWhile (·.isSome)).filterMap id).map some ++ rest := by
  induction xs with
  | nil => exact ⟨[], rfl⟩
  | cons x xs ih =>
      obtain ⟨rest, same⟩ := ih
      cases x with
      | none => exact ⟨none :: xs, rfl⟩
      | some c => exact ⟨rest, congrArg (some c :: ·) same⟩

/-- The text that stands at the start of bytes is encoded there. -/
theorem encode_decodeStart (bytes : Bytes) :
    encode (decodeStart bytes) ++ bytes.drop (encode (decodeStart bytes)).length = bytes := by
  obtain ⟨rest, same⟩ := exists_rest (pieces bytes)
  obtain ⟨more, split, -⟩ := encode_of_pieces _ same
  exact List.prefix_iff_eq_append.1 ⟨more, split.symm⟩

end Text.Utf8

theorem Bytes.ofString_of_toString? {bytes : Bytes} {s : String}
    (decoded : bytes.toString? = some s) : Bytes.ofString s = bytes := by
  obtain ⟨cs, whole, rfl⟩ := Option.map_eq_some_iff.1 decoded
  rw [Bytes.ofString, String.toList_ofList]
  exact Text.Utf8.encode_of_decode? whole

theorem Bytes.toString?_ofString (s : String) : (Bytes.ofString s).toString? = some s := by
  rw [Bytes.toString?, Text.Utf8.decode?_ofString, Option.map_some, String.ofList_toList]

theorem Path.ofString_of_toString? {p : Path} {s : String} (decoded : p.toString? = some s) :
    Path.ofString s = p :=
  congrArg Path.mk (Bytes.ofString_of_toString? decoded)

end StoreWarden
