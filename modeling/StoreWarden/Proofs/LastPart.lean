import Mathlib.Data.List.Induction
import StoreWarden.ExitRecord

/-!
# The last part of a path

Bytes are slashes only, or they end in a last part and a run of slashes.  The last part is then
what `parts` ends in, and unless it is a dot it is the file name too.  A file beside another whose
name is longer by an ending therefore never has the same last part, which keeps the record and
its temporary file apart.
-/

set_option autoImplicit false

namespace StoreWarden.Path

/-- A new part begins after these bytes. -/
def Opens (front : Bytes) : Prop := front = [] ∨ ∃ before, front = before ++ [slash]

/-- The bytes of a path with last part `q`, behind which there are `k` slashes. -/
structure EndsIn (bytes front q : Bytes) (k : Nat) : Prop where
  opens : Opens front
  nonempty : q ≠ []
  unbroken : slash ∉ q
  spelled : bytes = front ++ q ++ List.replicate k slash

theorem opens_replicate (k : Nat) : Opens (List.replicate k slash) := by
  cases k with
  | zero => exact Or.inl rfl
  | succ k => exact Or.inr ⟨List.replicate k slash, List.replicate_succ'⟩

theorem slashes_or_endsIn (bytes : Bytes) :
    (∃ k, bytes = List.replicate k slash) ∨ ∃ front q k, EndsIn bytes front q k := by
  induction bytes using List.reverseRecOn with
  | nil => exact Or.inl ⟨0, rfl⟩
  | append_singleton bytes b ih =>
      by_cases hb : b = slash
      · subst hb
        rcases ih with ⟨k, rfl⟩ | ⟨front, q, k, h⟩
        · exact Or.inl ⟨k + 1, List.replicate_succ'.symm⟩
        · refine Or.inr ⟨front, q, k + 1, h.opens, h.nonempty, h.unbroken, ?_⟩
          rw [h.spelled, List.replicate_succ', List.append_assoc _ _ [slash]]
      · have alone : slash ∉ [b] := by simpa using Ne.symm hb
        rcases ih with ⟨k, rfl⟩ | ⟨front, q, k, h⟩
        · exact Or.inr ⟨_, [b], 0, opens_replicate k, by simp, alone, by simp⟩
        · cases k with
          | zero =>
              have longer : slash ∉ q ++ [b] := by simpa using ⟨h.unbroken, Ne.symm hb⟩
              exact Or.inr ⟨front, q ++ [b], 0, h.opens, by simp, longer, by simp [h.spelled]⟩
          | succ k =>
              have opens : Opens bytes := by
                refine Or.inr ⟨front ++ q ++ List.replicate k slash, ?_⟩
                rw [h.spelled, List.replicate_succ', List.append_assoc _ _ [slash]]
              exact Or.inr ⟨bytes, [b], 0, opens, by simp, alone, by simp⟩

/-! ## What stands between slashes -/

theorem splitSlashes_ne_nil (bytes : Bytes) : splitSlashes bytes ≠ [] := by
  cases bytes with
  | nil => simp [splitSlashes]
  | cons b rest =>
      simp only [splitSlashes]
      split
      · simp
      · split <;> simp

theorem splitSlashes_append (front back : Bytes) :
    splitSlashes (front ++ slash :: back) = splitSlashes front ++ splitSlashes back := by
  induction front with
  | nil => simp [splitSlashes]
  | cons b rest ih =>
      simp only [List.cons_append, splitSlashes, ih]
      by_cases hb : b = slash
      · simp [hb]
      · simp only [if_neg hb]
        cases hr : splitSlashes rest with
        | nil => exact absurd hr (splitSlashes_ne_nil rest)
        | cons part parts => simp

theorem splitSlashes_of_not_mem {q : Bytes} (h : slash ∉ q) : splitSlashes q = [q] := by
  induction q with
  | nil => rfl
  | cons b rest ih =>
      simp only [List.mem_cons, not_or] at h
      simp [splitSlashes, Ne.symm h.1, ih h.2]

theorem splitSlashes_then_slashes {q : Bytes} (h : slash ∉ q) (k : Nat) :
    splitSlashes (q ++ List.replicate k slash) = q :: List.replicate k [] := by
  cases k with
  | zero => simpa using splitSlashes_of_not_mem h
  | succ k =>
      rw [List.replicate_succ, splitSlashes_append, splitSlashes_of_not_mem h]
      clear h
      induction k with
      | zero => rfl
      | succ k ih =>
          rw [List.replicate_succ, show slash :: List.replicate k slash = [] ++ slash ::
            List.replicate k slash from rfl, splitSlashes_append]
          simpa [splitSlashes, List.replicate_succ] using ih

theorem getLast?_parts_slashes (k : Nat) :
    (Path.mk (List.replicate k slash)).parts.getLast? = none := by
  have split := splitSlashes_then_slashes (q := []) (by simp) k
  simp only [List.nil_append] at split
  simp [parts, split]

theorem getLast?_parts {bytes front q : Bytes} {k : Nat} (h : EndsIn bytes front q k) :
    (Path.mk bytes).parts.getLast? = some q := by
  have last : (splitSlashes (q ++ List.replicate k slash)).filter (· ≠ []) = [q] := by
    rw [splitSlashes_then_slashes h.unbroken]
    simp [h.nonempty]
  rcases h.opens with rfl | ⟨before, rfl⟩
  · simp only [parts, h.spelled, List.nil_append, last, List.getLast?_singleton]
  · have cut : before ++ [slash] ++ q ++ List.replicate k slash =
        before ++ slash :: (q ++ List.replicate k slash) := by simp
    simp only [parts, h.spelled, cut, splitSlashes_append, List.filter_append, last,
      List.getLast?_concat]

theorem endsIn_of_getLast?_parts {p : Path} {q : Bytes} (h : p.parts.getLast? = some q) :
    ∃ front k, EndsIn p.bytes front q k := by
  rcases slashes_or_endsIn p.bytes with ⟨k, hk⟩ | ⟨front, q', k, h'⟩
  · have none := getLast?_parts_slashes k
    rw [← hk] at none
    exact absurd (h.symm.trans none) (by simp)
  · have same : q' = q := Option.some.inj ((getLast?_parts h').symm.trans h)
    exact ⟨front, k, same ▸ h'⟩

/-! ## The file name -/

theorem dropIdle_slashes (fuel k : Nat) (back : Bytes) :
    dropIdle (fuel + k) (List.replicate k slash ++ back) = dropIdle fuel back := by
  induction k with
  | zero => rfl
  | succ k ih =>
      rw [List.replicate_succ, List.cons_append, ← Nat.add_assoc]
      simpa [dropIdle, slash] using ih

/-- A part that is no dot is where the idle end of a path stops. -/
theorem dropIdle_part {front q : Bytes} (nonempty : q ≠ []) (unbroken : slash ∉ q)
    (telling : q ≠ dot) (fuel : Nat) :
    dropIdle fuel ((front ++ q).reverse) = (front ++ q).reverse := by
  cases fuel with
  | zero => rfl
  | succ fuel =>
      obtain ⟨start, b, rfl⟩ : ∃ start b, q = start ++ [b] :=
        ⟨q.dropLast, q.getLast nonempty, (List.dropLast_concat_getLast nonempty).symm⟩
      have hb : b ≠ slash := fun h => unbroken (by simp [h])
      have reversed : (front ++ (start ++ [b])).reverse =
          b :: (start.reverse ++ front.reverse) := by simp
      rw [reversed]
      unfold dropIdle
      split
      · rename_i heq
        exact absurd (List.cons.inj heq).1 hb
      · rename_i rest heq
        obtain ⟨hdot, htail⟩ := List.cons.inj heq
        cases start using List.reverseRecOn with
        | nil => exact absurd (by simp [hdot, dot]) telling
        | append_singleton start c =>
            -- the byte before the dot belongs to the part, so it is no slash
            simp only [List.reverse_append, List.reverse_singleton, List.cons_append,
              List.cons.injEq] at htail
            exact absurd (by simp [slash, htail.1]) unbroken
      · rfl

theorem takeWhile_reverse_part {front q : Bytes} (opens : Opens front) (unbroken : slash ∉ q) :
    ((front ++ q).reverse.takeWhile (· ≠ slash)).reverse = q := by
  have inside : ∀ b ∈ q.reverse, decide (b ≠ slash) = true := by
    intro b hb
    simpa using fun h : b = slash => unbroken (h ▸ List.mem_reverse.1 hb)
  rw [List.reverse_append, List.takeWhile_append_of_pos inside]
  rcases opens with rfl | ⟨before, rfl⟩ <;> simp

theorem fileName?_of_getLast?_parts {p : Path} {q : Bytes} (last : p.parts.getLast? = some q)
    (hdot : q ≠ dot) (hdots : q ≠ dotDot) : p.fileName? = some q := by
  obtain ⟨front, k, h⟩ := endsIn_of_getLast?_parts last
  have back : dropIdle p.bytes.length p.bytes.reverse = (front ++ q).reverse := by
    have reversed : p.bytes.reverse = List.replicate k slash ++ (front ++ q).reverse := by
      rw [h.spelled, List.reverse_append, List.reverse_replicate]
    have enough : p.bytes.length = (front ++ q).length + k := by
      rw [h.spelled, List.length_append, List.length_replicate]
    rw [reversed, enough, dropIdle_slashes, dropIdle_part h.nonempty h.unbroken hdot]
  have name : p.splitLast.2 = q := by
    simp only [splitLast, back]
    exact takeWhile_reverse_part h.opens h.unbroken
  simp [fileName?, name, h.nonempty, hdot, hdots]

/-! ## A file beside another -/

theorem getLast?_parts_push {base name : Bytes} (nonempty : name ≠ []) (unbroken : slash ∉ name) :
    (Path.mk (push base name)).parts.getLast? = some name := by
  have ends : ∃ front, EndsIn (push base name) front name 0 := by
    simp only [push]
    cases hb : base.getLast? with
    | none => exact ⟨[], Or.inl rfl, nonempty, unbroken, by simp⟩
    | some b =>
        obtain ⟨before, rfl⟩ := List.getLast?_eq_some_iff.1 hb
        by_cases hs : b = slash
        · subst hs
          exact ⟨before ++ [slash], Or.inr ⟨before, rfl⟩, nonempty, unbroken, by simp⟩
        · exact ⟨before ++ [b] ++ [slash], Or.inr ⟨before ++ [b], rfl⟩, nonempty, unbroken,
            by simp [hs]⟩
  obtain ⟨front, h⟩ := ends
  exact getLast?_parts h

theorem getLast?_parts_withFileName (p : Path) {name : Bytes} (nonempty : name ≠ [])
    (unbroken : slash ∉ name) : (p.withFileName name).parts.getLast? = some name := by
  unfold withFileName
  split
  · exact getLast?_parts_push nonempty unbroken
  · exact getLast?_parts_push nonempty unbroken

end StoreWarden.Path

namespace StoreWarden.ExitRecord

/-- If the record's path ends in a name, then its temporary file ends in another. -/
theorem getLast?_parts_temporary {r : ExitRecord} {q : Bytes}
    (last : r.path.parts.getLast? = some q) (hdot : q ≠ Path.dot) (hdots : q ≠ Path.dotDot) :
    r.temporary.parts.getLast? = some (q ++ temporaryEnding) := by
  obtain ⟨front, k, h⟩ := Path.endsIn_of_getLast?_parts last
  have ending : Path.slash ∉ temporaryEnding := by decide
  have unbroken : Path.slash ∉ q ++ temporaryEnding := by simpa using ⟨h.unbroken, ending⟩
  have nonempty : q ++ temporaryEnding ≠ [] := by simp [h.nonempty]
  rw [temporary, Path.fileName?_of_getLast?_parts last hdot hdots, Option.getD_some]
  exact Path.getLast?_parts_withFileName r.path nonempty unbroken

end StoreWarden.ExitRecord
