import Mathlib.Data.List.TakeWhile
import Mathlib.Tactic.SplitIfs
import StoreWarden.Pem.Block

/-!
# Armoured text

What a text of armoured blocks is: lines of any kind between blocks, and each block a line that
begins it, lines of its text and a line that ends it.  The reader finds the blocks of such a text in
order, `Armoured.reads`.  What it makes of any lines that it reads without a fault, it makes of them
whatever lines follow, `Reads.append`, and also if a line break is put behind the last of them,
`Reads.break`.
-/

set_option autoImplicit false

namespace StoreWarden.Pem

/-- A dash, or a byte without a meaning at the end of a line. -/
def Trails (b : UInt8) : Prop := b = dash ∨ isTail b = true

/-- A line begins a block: five dashes stand behind the label, with blanks only between and after
them.  Blanks in front of the dashes belong to the label. -/
structure Begins (label line : Bytes) : Prop where
  whole : ∃ tail, line = beginMark ++ label ++ dash :: tail ∧ tail.count dash = 4 ∧
    ∀ b ∈ tail, Trails b
  undashed : ∀ front blanks, label = front ++ dash :: blanks → ∃ b ∈ blanks, isTail b = false

def Closes (label line : Bytes) : Prop := endMark ++ label ++ dashes <+: line

/-- A line of the text of a block. -/
structure Inner (label line : Bytes) : Prop where
  unbegun : ¬ beginMark <+: line
  unclosed : ¬ Closes label line

inductive Armoured : List Bytes → List Block → Prop
  | nil : Armoured [] []
  | between {line : Bytes} {rest : List Bytes} {blocks : List Block}
      (unbegun : ¬ beginMark <+: line) (more : Armoured rest blocks) :
      Armoured (line :: rest) blocks
  | block {label opener closer : Bytes} {body rest : List Bytes} {blocks : List Block}
      (begins : Begins label opener) (inner : ∀ line ∈ body, Inner label line)
      (closes : Closes label closer) (more : Armoured rest blocks) :
      Armoured (opener :: (body ++ closer :: rest)) (⟨label, body.flatMap trimmed⟩ :: blocks)

/-- The reader finds these blocks, and no fault. -/
def Reads (inside : Option Block) (ls : List Bytes) (bs : List Block) : Prop :=
  scan inside ls = bs.map .ok

variable {label line front back tail text : Bytes} {ls rest more : List Bytes} {bs : List Block}
  {inside : Option Block}

/-! ## Lines that begin a block -/

theorem trails_iff {b : UInt8} : Trails b ↔ (b = dash || isTail b) = true := by
  simp [Trails]

theorem not_trails_of_isTail_eq_false {b : UInt8} (solid : isTail b = false) (other : b ≠ dash) :
    ¬ Trails b := by
  simp [Trails, solid, other]

/-- The mark itself does not end in a dash, not even before blanks. -/
theorem beginMark_ne (trails : ∀ b ∈ back, Trails b) : beginMark ≠ front ++ dash :: back := by
  intro same
  have turned : beginMark.reverse = back.reverse ++ dash :: front.reverse := by
    rw [same]
    simp
  have start : beginMark.reverse = 32 :: 78 :: (beginMark.reverse.drop 2) := by decide
  rw [start] at turned
  have letter : ¬ Trails 78 := by
    rw [trails_iff]
    decide
  cases shape : back.reverse with
  | nil =>
      rw [shape] at turned
      exact absurd (List.head_eq_of_cons_eq turned) (by decide)
  | cons a rest =>
      rw [shape] at turned
      have below := List.tail_eq_of_cons_eq turned
      cases rest with
      | nil => exact absurd (List.head_eq_of_cons_eq below) (by decide)
      | cons b rest =>
          obtain rfl : 78 = b := List.head_eq_of_cons_eq below
          apply letter
          apply trails
          rw [← List.mem_reverse, shape]
          simp

/-- How a line is divided at the last byte that is neither dash nor blank. -/
structure Divides (line front back : Bytes) : Prop where
  whole : line = front ++ back
  trails : ∀ b ∈ back, Trails b
  last : ∀ b ∈ front.getLast?, ¬ Trails b

/-- Every text ends in as many bytes of one kind as there are. -/
theorem exists_trailing (p : UInt8 → Bool) (line : Bytes) : ∃ front back, line = front ++ back ∧
    (∀ b ∈ back, p b = true) ∧ ∀ b ∈ front.getLast?, p b = false := by
  refine ⟨(line.reverse.dropWhile p).reverse, (line.reverse.takeWhile p).reverse, ?_, ?_, ?_⟩
  · rw [← List.reverse_append, List.takeWhile_append_dropWhile, List.reverse_reverse]
  · intro b mem
    exact List.mem_takeWhile_imp (List.mem_reverse.1 mem)
  · intro b last
    have bound := List.head?_dropWhile_not p line.reverse
    rw [List.getLast?_reverse] at last
    rwa [Option.mem_def.1 last] at bound

theorem exists_divides (line : Bytes) : ∃ front back, Divides line front back := by
  obtain ⟨front, back, whole, trails, last⟩ :=
    exists_trailing (fun b => b = dash || isTail b) line
  refine ⟨front, back, whole, fun b mem => trails_iff.2 (trails b mem), ?_⟩
  intro b mem
  rw [trails_iff, last b mem]
  simp

theorem Divides.opening_eq (divides : Divides line front back) : opening line =
    if beginMark <+: line then
      if back.count dash = 5 then
        .label ((front ++ back.takeWhile (· ≠ dash)).drop beginMark.length)
      else .broken
    else .absent := by
  have turned : line.reverse = back.reverse ++ front.reverse := by
    rw [divides.whole, List.reverse_append]
  have passed : ∀ b ∈ back.reverse, (b = dash || isTail b) = true := by
    intro b mem
    exact trails_iff.1 (divides.trails b (List.mem_reverse.1 mem))
  have stops : front.reverse.takeWhile (fun b => b = dash || isTail b) = [] ∧
      front.reverse.dropWhile (fun b => b = dash || isTail b) = front.reverse := by
    cases shape : front.reverse with
    | nil => simp
    | cons b rest =>
        have solid : ¬ Trails b := by
          apply divides.last
          rw [← List.head?_reverse, shape]
          rfl
        rw [trails_iff] at solid
        exact ⟨List.takeWhile_cons_of_neg solid, List.dropWhile_cons_of_neg solid⟩
  have taken : (line.reverse.takeWhile fun b => b = dash || isTail b) = back.reverse := by
    rw [turned, List.takeWhile_append_of_pos passed, stops.1, List.append_nil]
  have dropped : (line.reverse.dropWhile fun b => b = dash || isTail b) = front.reverse := by
    rw [turned, List.dropWhile_append_of_pos passed, stops.2]
  have five : dashes.length = 5 := by decide
  simp only [opening, taken, dropped, List.reverse_reverse, List.isPrefixOf_iff_prefix, five]

theorem opening_eq_absent_iff : opening line = .absent ↔ ¬ beginMark <+: line := by
  obtain ⟨front, back, divides⟩ := exists_divides line
  rw [divides.opening_eq]
  split_ifs <;> simp [*]

/-- Behind a label, blanks aside, stands something that is no dash. -/
theorem Begins.divides (begins : Begins label line) : ∃ front blanks tail,
    beginMark ++ label = front ++ blanks ∧ (∀ b ∈ blanks, isTail b = true) ∧
      tail.count dash = 4 ∧ Divides line front (blanks ++ dash :: tail) := by
  obtain ⟨tail, whole, four, trails⟩ := begins.whole
  obtain ⟨front, blanks, same, blank, bound⟩ := exists_trailing isTail (beginMark ++ label)
  refine ⟨front, blanks, tail, same, blank, four, ?_, ?_, ?_⟩
  · rw [whole, same, List.append_assoc]
  · intro b mem
    rcases List.mem_append.1 mem with mem | mem
    · exact Or.inr (blank b mem)
    · rcases List.mem_cons.1 mem with rfl | mem
      · exact Or.inl rfl
      · exact trails b mem
  · intro b last
    apply not_trails_of_isTail_eq_false (bound b last)
    rintro rfl
    -- a dash in front of the blanks would be one of the label's, or one of the mark
    obtain ⟨before, shape⟩ : ∃ before, front = before ++ [dash] := by
      rw [Option.mem_def, List.getLast?_eq_some_iff] at last
      exact last
    rw [shape, List.append_assoc, List.singleton_append] at same
    rcases List.append_eq_append_iff.1 same with ⟨mid, rfl, own⟩ | ⟨mid, mark, own⟩
    · obtain ⟨c, mem, solid⟩ := begins.undashed mid blanks own
      exact absurd ((blank c mem).symm.trans solid) (by simp)
    · cases mid with
      | nil =>
          rw [List.nil_append] at own
          obtain ⟨c, mem, solid⟩ := begins.undashed [] blanks own.symm
          exact absurd ((blank c mem).symm.trans solid) (by simp)
      | cons c mid =>
          obtain ⟨rfl, rest⟩ := List.cons.inj own
          apply beginMark_ne _ mark
          intro b mem
          apply Or.inr
          apply blank
          rw [rest]
          exact List.mem_append_left _ mem

theorem takeWhile_ne_dash {blanks : Bytes} (plain : dash ∉ blanks) :
    (blanks ++ dash :: tail).takeWhile (· ≠ dash) = blanks := by
  have passed : ∀ b ∈ blanks, decide (b ≠ dash) = true := by
    intro b mem
    rw [decide_eq_true_eq]
    rintro rfl
    exact plain mem
  rw [List.takeWhile_append_of_pos passed, List.takeWhile_cons_of_neg (by simp), List.append_nil]

theorem opening_of_begins (begins : Begins label line) : opening line = .label label := by
  obtain ⟨front, blanks, tail, same, blank, four, divides⟩ := begins.divides
  have plain : dash ∉ blanks := fun mem => absurd (blank dash mem) (by decide)
  have five : (blanks ++ dash :: tail).count dash = 5 := by
    rw [List.count_append, List.count_cons_self, List.count_eq_zero_of_not_mem plain, four]
  have marked : beginMark <+: line := by
    obtain ⟨tail, whole, -⟩ := begins.whole
    rw [whole, List.append_assoc]
    exact List.prefix_append _ _
  rw [divides.opening_eq, if_pos marked, if_pos five, takeWhile_ne_dash plain, ← same,
    List.drop_left]

/-- The dashes that end a line are not those of the mark. -/
theorem exists_label (marked : beginMark <+: front ++ dash :: tail)
    (trails : ∀ b ∈ tail, Trails b) : ∃ label, front = beginMark ++ label := by
  obtain ⟨more, same⟩ := marked
  rcases List.append_eq_append_iff.1 same with ⟨label, whole, -⟩ | ⟨mid, mark, dashed⟩
  · exact ⟨label, whole⟩
  · cases mid with
    | nil =>
        rw [List.append_nil] at mark
        exact ⟨[], by rw [mark, List.append_nil]⟩
    | cons c mid =>
        obtain ⟨rfl, rfl⟩ := List.cons.inj dashed
        exact absurd mark (beginMark_ne fun b mem => trails b (List.mem_append_left _ mem))

/-- Where a line is divided no dash stands in front, be it with blanks behind it. -/
theorem Divides.undashed {blanks before blanks' : Bytes}
    (divides : Divides line front (blanks ++ dash :: tail)) (plain : dash ∉ blanks)
    (same : front ++ blanks = before ++ dash :: blanks') : ∃ b ∈ blanks', isTail b = false := by
  by_contra blank
  -- all that stands behind such a dash would be blank, and be the end of the line's front
  have trails : ∀ b ∈ dash :: blanks', Trails b := by
    intro b mem
    rcases List.mem_cons.1 mem with rfl | mem
    · exact Or.inl rfl
    · apply Or.inr
      by_contra solid
      exact blank ⟨b, mem, by simpa using solid⟩
  rcases List.append_eq_append_iff.1 same with ⟨mid, -, rfl⟩ | ⟨mid, rfl, cut⟩
  · exact plain (by simp)
  · cases shape : mid.getLast? with
    | none =>
        rw [List.getLast?_eq_none_iff] at shape
        subst shape
        apply plain
        rw [← List.nil_append blanks, ← cut]
        simp
    | some b =>
        have mem : b ∈ mid := List.mem_of_getLast? shape
        apply divides.last b
        · rw [Option.mem_def, List.getLast?_append, shape]
          rfl
        · apply trails
          rw [cut]
          exact List.mem_append_left _ mem

theorem begins_of_opening (read : opening line = .label label) : Begins label line := by
  obtain ⟨front, back, divides⟩ := exists_divides line
  rw [divides.opening_eq] at read
  split_ifs at read with marked five
  -- the dashes begin behind the blanks that the label ends with
  obtain ⟨blanks, tail, rfl, plain⟩ :
      ∃ blanks tail, back = blanks ++ dash :: tail ∧ dash ∉ blanks := by
    apply List.eq_append_cons_of_mem
    rw [← List.count_pos_iff, five]
    decide
  have four : tail.count dash = 4 := by
    rw [List.count_append, List.count_cons_self, List.count_eq_zero_of_not_mem plain] at five
    omega
  have trails : ∀ b ∈ tail, Trails b := by
    intro b mem
    apply divides.trails
    simp [mem]
  have whole : line = (front ++ blanks) ++ dash :: tail := by
    rw [divides.whole, List.append_assoc]
  obtain ⟨own, same⟩ := exists_label (whole ▸ marked) trails
  rw [takeWhile_ne_dash plain, same, List.drop_left, Opening.label.injEq] at read
  subst own
  refine ⟨⟨tail, by rw [whole, same], four, trails⟩, ?_⟩
  intro before blanks' shape
  rw [shape, ← List.append_assoc] at same
  exact divides.undashed plain same

theorem ends_iff : ends label line = true ↔ Closes label line :=
  List.isPrefixOf_iff_prefix

theorem Closes.unbegun (closes : Closes label line) : ¬ beginMark <+: line := by
  intro begun
  have word : endMark <+: line := by
    apply List.IsPrefix.trans _ closes
    rw [List.append_assoc]
    exact List.prefix_append _ _
  rcases List.prefix_or_prefix_of_prefix begun word with short | short
  · exact absurd short (by decide)
  · exact absurd short (by decide)

/-! ## What is read of given lines -/

theorem scan_of_unbegun (unbegun : ¬ beginMark <+: line) :
    scan none (line :: rest) = scan none rest := by
  simp only [scan, opening_eq_absent_iff.2 unbegun]

theorem scan_of_begins (begins : Begins label line) :
    scan inside (line :: rest) = scan (some ⟨label, (inside.map (·.text)).getD []⟩) rest := by
  cases inside <;> simp only [scan, opening_of_begins begins] <;> rfl

theorem scan_of_inner (inner : Inner label line) : scan (some ⟨label, text⟩) (line :: rest) =
    scan (some ⟨label, text ++ trimmed line⟩) rest := by
  have open' : ends label line = false := by
    rw [Bool.eq_false_iff]
    exact fun closed => inner.unclosed (ends_iff.1 closed)
  simp only [scan, opening_eq_absent_iff.2 inner.unbegun, open']
  rfl

theorem scan_of_closes (closes : Closes label line) :
    scan (some ⟨label, text⟩) (line :: rest) = .ok ⟨label, text⟩ :: scan none rest := by
  simp only [scan, opening_eq_absent_iff.2 closes.unbegun, ends_iff.2 closes, if_true]

theorem scan_of_body {body : List Bytes} (inner : ∀ line ∈ body, Inner label line) :
    scan (some ⟨label, text⟩) (body ++ rest) =
      scan (some ⟨label, text ++ body.flatMap trimmed⟩) rest := by
  induction body generalizing text with
  | nil => simp
  | cons line body ih =>
      rw [List.forall_mem_cons] at inner
      rw [List.cons_append, scan_of_inner inner.1, ih inner.2, List.flatMap_cons, List.append_assoc]

theorem Armoured.reads (armoured : Armoured ls bs) : Reads none ls bs := by
  unfold Reads
  induction armoured with
  | nil => rfl
  | between unbegun more ih => rw [scan_of_unbegun unbegun, ih]
  | block begins inner closes more ih =>
      rw [scan_of_begins begins, scan_of_body inner, scan_of_closes closes, ih]
      rfl

/-- A line is passed over, begins a block, is kept or closes the block that is open. -/
inductive Passes (line : Bytes) : Option Block → List Block → Option Block → Prop
  | passed (unbegun : ¬ beginMark <+: line) : Passes line none [] none
  | begun {inside : Option Block} {label : Bytes} (begins : Begins label line) :
      Passes line inside [] (some ⟨label, (inside.map (·.text)).getD []⟩)
  | kept {block : Block} (inner : Inner block.label line) :
      Passes line (some block) [] (some { block with text := block.text ++ trimmed line })
  | closed {block : Block} (closes : Closes block.label line) :
      Passes line (some block) [block] none

theorem Passes.scan_eq {found : List Block} {next : Option Block}
    (passes : Passes line inside found next) :
    scan inside (line :: rest) = found.map .ok ++ scan next rest := by
  cases passes with
  | passed unbegun => exact scan_of_unbegun unbegun
  | begun begins => exact scan_of_begins begins
  | kept inner => exact scan_of_inner inner
  | closed closes => exact scan_of_closes closes

theorem Reads.passes (reads : Reads inside (line :: rest) bs) : ∃ found next later,
    Passes line inside found next ∧ Reads next rest later ∧ bs = found ++ later := by
  cases read : opening line with
  | broken =>
      simp only [Reads, scan, read] at reads
      cases bs with
      | nil => cases reads
      | cons b bs => cases List.head_eq_of_cons_eq reads
  | label label =>
      have begins := begins_of_opening read
      refine ⟨[], _, bs, .begun begins, ?_, rfl⟩
      rwa [Reads, ← scan_of_begins begins]
  | absent =>
      have unbegun := opening_eq_absent_iff.1 read
      cases inside with
      | none =>
          refine ⟨[], none, bs, .passed unbegun, ?_, rfl⟩
          rwa [Reads, ← scan_of_unbegun unbegun]
      | some block =>
          by_cases closes : Closes block.label line
          · rw [Reads, scan_of_closes closes] at reads
            cases bs with
            | nil => cases reads
            | cons b bs =>
                obtain ⟨same, later⟩ := List.cons.inj reads
                obtain rfl := Except.ok.inj same
                exact ⟨[block], none, bs, .closed closes, later, rfl⟩
          · have inner : Inner block.label line := ⟨unbegun, closes⟩
            refine ⟨[], _, bs, .kept inner, ?_, rfl⟩
            rwa [Reads, ← scan_of_inner inner]

theorem Reads.closed (reads : Reads inside [] bs) : inside = none ∧ bs = [] := by
  cases inside with
  | none => exact ⟨rfl, List.map_eq_nil_iff.1 reads.symm⟩
  | some block =>
      cases bs with
      | nil => cases reads
      | cons b bs => cases List.head_eq_of_cons_eq reads

/-- What is read without a fault ends outside any block, so that it is read like this whatever
follows. -/
theorem Reads.append (reads : Reads inside ls bs) (more : List Bytes) :
    scan inside (ls ++ more) = bs.map .ok ++ scan none more := by
  induction ls generalizing inside bs with
  | nil =>
      obtain ⟨rfl, rfl⟩ := reads.closed
      rfl
  | cons line ls ih =>
      obtain ⟨found, next, later, passes, rest, rfl⟩ := reads.passes
      rw [List.cons_append, passes.scan_eq, ih rest, List.map_append, List.append_assoc]

/-! ## A line break behind the last line -/

theorem prefix_of_prefix_break {mark : Bytes} (unbroken : mark.getLast? ≠ some 10)
    (start : mark <+: line ++ [10]) : mark <+: line := by
  rcases List.prefix_concat_iff.1 start with rfl | start
  · exact absurd List.getLast?_concat unbroken
  · exact start

theorem trimmed_break (line : Bytes) : trimmed (line ++ [10]) = trimmed line := by
  unfold trimmed
  rw [List.reverse_append, List.reverse_singleton, List.singleton_append,
    List.dropWhile_cons_of_pos (by decide)]

theorem Begins.break (begins : Begins label line) : Begins label (line ++ [10]) := by
  obtain ⟨⟨tail, rfl, four, trails⟩, undashed⟩ := begins
  refine ⟨⟨tail ++ [10], by simp, ?_, ?_⟩, undashed⟩
  · rw [List.count_append, four]
    decide
  · intro b mem
    rcases List.mem_append.1 mem with mem | mem
    · exact trails b mem
    · obtain rfl := List.mem_singleton.1 mem
      exact Or.inr (by decide)

theorem unbegun_break (unbegun : ¬ beginMark <+: line) : ¬ beginMark <+: line ++ [10] :=
  fun begun => unbegun (prefix_of_prefix_break (by decide) begun)

theorem Inner.break (inner : Inner label line) : Inner label (line ++ [10]) := by
  refine ⟨unbegun_break inner.unbegun, ?_⟩
  intro closes
  apply inner.unclosed
  apply prefix_of_prefix_break _ closes
  have last : dashes.getLast? = some dash := by decide
  rw [List.getLast?_append, last, Option.some_or]
  decide

theorem Passes.break {found : List Block} {next : Option Block}
    (passes : Passes line inside found next) : Passes (line ++ [10]) inside found next := by
  cases passes with
  | passed unbegun => exact .passed (unbegun_break unbegun)
  | begun begins => exact .begun begins.break
  | kept inner =>
      rw [← trimmed_break line]
      exact .kept inner.break
  | closed closes => exact .closed (closes.trans (List.prefix_append _ _))

theorem Reads.break {last : Bytes} (reads : Reads inside (ls ++ [last]) bs) :
    Reads inside (ls ++ [last ++ [10]]) bs := by
  induction ls generalizing inside bs with
  | nil =>
      obtain ⟨found, next, later, passes, rest, rfl⟩ := reads.passes
      rw [List.nil_append, Reads, passes.break.scan_eq, rest, List.map_append]
  | cons line ls ih =>
      obtain ⟨found, next, later, passes, rest, rfl⟩ := Reads.passes reads
      rw [List.cons_append, Reads, passes.scan_eq, ih rest, List.map_append]

/-! ## The lines of two texts -/

section Lines

variable {a b : Bytes}

theorem lines_eq_nil_iff : lines text = [] ↔ text = [] := by
  cases text with
  | nil => simp [lines]
  | cons b rest =>
      unfold lines
      split_ifs
      · simp
      · split <;> simp

theorem lines_cons_of_ends {e : UInt8} (ends : endsLine e = true) :
    lines (e :: a) = [e] :: lines a := by
  rw [lines, if_pos ends]

theorem lines_cons_of_line {e : UInt8} (inner : endsLine e = false) (cut : lines a = line :: rest) :
    lines (e :: a) = (e :: line) :: rest := by
  rw [lines, inner, cut]
  rfl

theorem lines_singleton {e : UInt8} (inner : endsLine e = false) : lines [e] = [[e]] := by
  rw [lines, inner]
  rfl

theorem lines_append {e : UInt8} (ends : endsLine e = true) (a b : Bytes) :
    lines (a ++ e :: b) = lines (a ++ [e]) ++ lines b := by
  induction a with
  | nil =>
      rw [List.nil_append, List.nil_append, lines_cons_of_ends ends, lines_cons_of_ends ends]
      rfl
  | cons c a ih =>
      rw [List.cons_append, List.cons_append]
      cases inner : endsLine c with
      | true => rw [lines_cons_of_ends inner, lines_cons_of_ends inner, ih, List.cons_append]
      | false =>
          cases cut : lines (a ++ [e]) with
          | nil => simp [lines_eq_nil_iff] at cut
          | cons line rest =>
              rw [cut, List.cons_append] at ih
              rw [lines_cons_of_line inner ih, lines_cons_of_line inner cut, List.cons_append]

/-- A line break ends the last line of a text, or is one more line. -/
theorem lines_break (a : Bytes) : lines (a ++ [10]) = lines a ++ [[10]] ∨
    ∃ before last, lines a = before ++ [last] ∧ lines (a ++ [10]) = before ++ [last ++ [10]] := by
  induction a with
  | nil => exact Or.inl (by decide)
  | cons c a ih =>
      rw [List.cons_append]
      cases inner : endsLine c with
      | true =>
          rw [lines_cons_of_ends inner, lines_cons_of_ends inner]
          rcases ih with added | ⟨before, last, cut, ended⟩
          · rw [added]
            exact Or.inl rfl
          · rw [cut, ended]
            exact Or.inr ⟨[c] :: before, last, rfl, rfl⟩
      | false =>
          cases cut : lines a with
          | nil =>
              obtain rfl := lines_eq_nil_iff.1 cut
              refine Or.inr ⟨[], [c], lines_singleton inner, ?_⟩
              exact lines_cons_of_line inner (lines_cons_of_ends (by decide))
          | cons line rest =>
              rw [lines_cons_of_line inner cut]
              rw [cut] at ih
              rcases ih with added | ⟨before, last, same, ended⟩
              · exact Or.inl (lines_cons_of_line inner added)
              · cases before with
                | nil =>
                    obtain ⟨rfl, rfl⟩ := List.cons.inj same
                    exact Or.inr ⟨[], c :: line, rfl, lines_cons_of_line inner ended⟩
                | cons first before =>
                    obtain ⟨rfl, rfl⟩ := List.cons.inj same
                    exact Or.inr ⟨(c :: line) :: before, last, rfl, lines_cons_of_line inner ended⟩

/-- A text that is read without a fault is so with a line break behind it. -/
theorem Reads.of_break (reads : Reads none (lines a) bs) : Reads none (lines (a ++ [10])) bs := by
  rcases lines_break a with added | ⟨before, last, cut, ended⟩
  · have blank : Reads none [[10]] [] := by
      unfold Reads
      decide
    rw [added, Reads, reads.append, blank, List.map_nil, List.append_nil]
  · rw [cut] at reads
    rw [ended]
    exact reads.break

end Lines

end StoreWarden.Pem
