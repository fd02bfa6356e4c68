import StoreWarden.Proofs.WrittenStrings

/-!
# Written tables are read back

A table whose names are bare and all different, and whose numbers are in the signed range, is
written as a document that means just this table: its fields line by line, then every table of it
after an empty line and its name.
-/

set_option autoImplicit false

namespace StoreWarden.Toml

/-! ## Values -/

/-- Digits are written without a zero before them. -/
theorem shortest_toDigits (n : Nat) (zero : (Nat.toDigits 10 n).head? = some '0') :
    Nat.toDigits 10 n = ['0'] := by
  induction n using Nat.strongRecOn with
  | ind n ih =>
      rw [Nat.toDigits_eq_if (by decide)] at zero ⊢
      by_cases one : n < 10
      · rw [if_pos one] at zero ⊢
        rw [List.head?_cons] at zero
        rw [Option.some.inj zero]
      · rw [if_neg one, List.head?_append_of_ne_nil _ Nat.toDigits_ne_nil] at zero
        have front := ih (n / 10) (by omega) zero
        have back : n / 10 = 0 := by
          rw [← Nat.ofDigitChars_ten_toDigits (n := n / 10), front]
          rfl
        omega

theorem reads_digits {n : Nat} (small : n ≤ greatest) {rest : List Char}
    (last : ∀ c, rest.head? = some c → c.isDigit = false) :
    Reads ((toString n).toList ++ rest) (.integer n) rest := by
  have digits : (toString n).toList = Nat.toDigits 10 n := by simp
  have inside : ∀ c ∈ Nat.toDigits 10 n, c.isDigit = true := fun c mem =>
    Nat.isDigit_of_mem_toDigits (by decide) (by decide) mem
  have stop : rest.takeWhile Char.isDigit = [] ∧ rest.dropWhile Char.isDigit = rest := by
    cases rest with
    | nil => exact ⟨rfl, rfl⟩
    | cons c rest =>
        have other := last c rfl
        exact ⟨List.takeWhile_cons_of_neg (by simp [other]),
          List.dropWhile_cons_of_neg (by simp [other])⟩
  have taken : (Nat.toDigits 10 n ++ rest).takeWhile Char.isDigit = Nat.toDigits 10 n := by
    rw [List.takeWhile_append_of_pos inside, stop.1, List.append_nil]
  have left : (Nat.toDigits 10 n ++ rest).dropWhile Char.isDigit = rest := by
    rw [List.dropWhile_append_of_pos inside, stop.2]
  have value : Nat.ofDigitChars 10 (Nat.toDigits 10 n) 0 = n := Nat.ofDigitChars_ten_toDigits
  have read := Reads.integer taken Nat.toDigits_ne_nil (shortest_toDigits n) (by rwa [value])
  rwa [value, left, ← digits] at read

/-- Numbers can be written up to the greatest that has a sign. -/
def Value.Small : Value → Prop
  | .integer n => n ≤ greatest
  | _ => True

theorem reads_text {value : Value} (small : value.Small) (rest : List Char) :
    Reads (value.text ++ '\n' :: rest) value ('\n' :: rest) := by
  cases value with
  | integer n =>
      apply reads_digits small
      intro c same
      rw [← Option.some.inj same]
      rfl
  | boolean b => exact .boolean
  | string s =>
      have read : Reads (stringText s.toList ++ '\n' :: rest) (.string (String.ofList s.toList))
          ('\n' :: rest) := reads_stringText s.toList (by simp) (by simp)
      rwa [String.ofList_toList] at read

theorem skipBlanks_cons {c : Char} (filled : isBlank c = false) (text : List Char) :
    skipBlanks (c :: text) = c :: text :=
  List.dropWhile_cons_of_neg (by rw [filled]; exact Bool.false_ne_true)

theorem isBlank_eq_false_of_isDigit {c : Char} (digit : c.isDigit = true) : isBlank c = false := by
  rw [← Bool.not_eq_true, isBlank_iff]
  intro blank
  obtain rfl | rfl := blank <;> exact absurd digit (by decide)

theorem Reads.skipBlanks_eq {text rest : List Char} {value : Value} (read : Reads text value rest) :
    skipBlanks text = text := by
  cases read with
  | integer taken filled _ _ =>
      obtain ⟨c, more, rfl, digit⟩ := exists_cons_of_takeWhile (taken.symm ▸ filled)
      exact skipBlanks_cons (isBlank_eq_false_of_isDigit digit) more
  | @boolean b rest => cases b <;> rfl
  | oneLine known _ _ => obtain rfl | rfl := known <;> rfl
  | manyLines known _ => obtain rfl | rfl := known <;> rfl

/-! ## Lines -/

/-- Names that need no quotes. -/
def IsBareName (name : String) : Prop := name ≠ "" ∧ ∀ c ∈ name.toList, isBare c = true

instance (name : String) : Decidable (IsBareName name) :=
  decidable_of_iff (name ≠ "" ∧ name.toList.all isBare = true)
    (and_congr_right fun _ => List.all_eq_true)

theorem names_toList {name : String} (bare : IsBareName name) {c : Char} (stop : isBare c = false)
    (rest : List Char) : Names (name.toList ++ c :: rest) name (c :: rest) := by
  have other : ¬ isBare c = true := by rw [stop]; exact Bool.false_ne_true
  have taken : (name.toList ++ c :: rest).takeWhile isBare = name.toList := by
    rw [List.takeWhile_append_of_pos bare.2, List.takeWhile_cons_of_neg other, List.append_nil]
  have left : (name.toList ++ c :: rest).dropWhile isBare = c :: rest := by
    rw [List.dropWhile_append_of_pos bare.2, List.dropWhile_cons_of_neg other]
  have filled : name.toList ≠ [] := fun empty => bare.1 (String.toList_eq_nil_iff.1 empty)
  have named := Names.bare taken filled
  rwa [String.ofList_toList, left] at named

theorem isBlank_eq_false_of_isBare {c : Char} (bare : isBare c = true) : isBlank c = false := by
  rw [← Bool.not_eq_true, isBlank_iff]
  intro blank
  obtain rfl | rfl := blank <;> exact absurd bare (by decide)

theorem skipBlanks_name {name : String} (bare : IsBareName name) (rest : List Char) :
    skipBlanks (name.toList ++ rest) = name.toList ++ rest := by
  cases same : name.toList with
  | nil => exact absurd (String.toList_eq_nil_iff.1 same) bare.1
  | cons c more =>
      have first := bare.2 c (same ▸ List.mem_cons_self)
      exact skipBlanks_cons (isBlank_eq_false_of_isBare first) (more ++ rest)

theorem line_field {name : String} {value : Value} (bare : IsBareName name) (small : value.Small)
    (rest : List Char) :
    Line (fieldLine name value ++ rest) (.field name value) (some rest) := by
  have shape : fieldLine name value ++ rest =
      name.toList ++ ' ' :: '=' :: ' ' :: (value.text ++ '\n' :: rest) := by
    simp [fieldLine]
  have named :=
    names_toList bare (c := ' ') (by decide) ('=' :: ' ' :: (value.text ++ '\n' :: rest))
  have equals : skipBlanks (' ' :: '=' :: ' ' :: (value.text ++ '\n' :: rest)) =
      '=' :: ' ' :: (value.text ++ '\n' :: rest) := rfl
  have read := reads_text small rest
  have spaced : skipBlanks (' ' :: (value.text ++ '\n' :: rest)) = value.text ++ '\n' :: rest :=
    (List.dropWhile_cons_of_pos rfl).trans read.skipBlanks_eq
  rw [← skipBlanks_name bare] at named
  rw [← spaced] at read
  rw [shape]
  exact .field named equals read (.line rfl)

theorem line_table {name : String} (bare : IsBareName name) (rest : List Char) :
    Line ('[' :: (name.toList ++ ']' :: '\n' :: rest)) (.table name) (some rest) := by
  have opened : skipBlanks ('[' :: (name.toList ++ ']' :: '\n' :: rest)) =
      '[' :: (name.toList ++ ']' :: '\n' :: rest) := rfl
  have named := names_toList bare (c := ']') (by decide) ('\n' :: rest)
  have closed : skipBlanks (']' :: '\n' :: rest) = ']' :: '\n' :: rest := rfl
  rw [← skipBlanks_name bare] at named
  exact .table opened named closed (.line rfl)

/-! ## Documents -/

def fieldsRead (fs : Fields) : List Expression := fs.map fun (name, value) => .field name value

def tableRead (name : String) (fs : Fields) : List Expression :=
  .blank :: .table name :: fieldsRead fs

structure Writable (fs : Fields) : Prop where
  bare : ∀ field ∈ fs, IsBareName field.1
  small : ∀ field ∈ fs, field.2.Small

theorem lines_fields {fs : Fields} (writable : Writable fs) {rest : List Char}
    {es : List Expression} (lines : Lines rest es) :
    Lines (fieldLines fs ++ rest) (fieldsRead fs ++ es) := by
  induction fs with
  | nil => exact lines
  | cons field fs ih =>
      obtain ⟨bare, bares⟩ := List.forall_mem_cons.1 writable.bare
      obtain ⟨small, smalls⟩ := List.forall_mem_cons.1 writable.small
      have shape : fieldLines (field :: fs) ++ rest =
          fieldLine field.1 field.2 ++ (fieldLines fs ++ rest) := by
        simp [fieldLines]
      rw [shape]
      exact .more (line_field bare small _) (ih ⟨bares, smalls⟩)

theorem lines_table {name : String} {fs : Fields} (bare : IsBareName name)
    (writable : Writable fs) {rest : List Char} {es : List Expression} (lines : Lines rest es) :
    Lines (tableLines name fs ++ rest) (tableRead name fs ++ es) := by
  have shape : tableLines name fs ++ rest =
      '\n' :: '[' :: (name.toList ++ ']' :: '\n' :: (fieldLines fs ++ rest)) := by
    simp [tableLines]
  rw [shape]
  exact .more (.blank (.line rfl)) (.more (line_table bare _) (lines_fields writable lines))

theorem gather_fields (fs : Fields) (es : List Expression) :
    gather (fieldsRead fs ++ es) = { gather es with fields := fs ++ (gather es).fields } := by
  induction fs with
  | nil => rfl
  | cons field fs ih =>
      change gather (.field field.1 field.2 :: (fieldsRead fs ++ es)) = _
      rw [gather, ih]
      rfl

theorem gather_table (name : String) (fs : Fields) (es : List Expression) :
    gather (tableRead name fs ++ es) =
      ⟨[], (name, fs ++ (gather es).fields) :: (gather es).tables⟩ := by
  change gather (.table name :: (fieldsRead fs ++ es)) = _
  rw [gather, gather_fields]

structure Table.Writable (t : Table) : Prop where
  top : Toml.Writable t.fields
  bare : ∀ entry ∈ t.tables, IsBareName entry.1
  within : ∀ entry ∈ t.tables, Toml.Writable entry.2
  distinct : t.Distinct

def tablesRead (tables : List (String × Fields)) : List Expression :=
  tables.flatMap fun (name, fs) => tableRead name fs

theorem lines_tables {tables : List (String × Fields)}
    (bare : ∀ entry ∈ tables, IsBareName entry.1) (within : ∀ entry ∈ tables, Writable entry.2) :
    Lines (tables.flatMap fun (name, fs) => tableLines name fs)
      (tablesRead tables ++ [.blank]) := by
  induction tables with
  | nil => exact .last (.blank (.last rfl))
  | cons entry tables ih =>
      obtain ⟨own, bare⟩ := List.forall_mem_cons.1 bare
      obtain ⟨writable, within⟩ := List.forall_mem_cons.1 within
      have lines := lines_table own writable (ih bare within)
      rw [← List.append_assoc] at lines
      exact lines

theorem gather_tables (tables : List (String × Fields)) :
    gather (tablesRead tables ++ [.blank]) = ⟨[], tables⟩ := by
  induction tables with
  | nil => rfl
  | cons entry tables ih =>
      have shape : tablesRead (entry :: tables) ++ [.blank] =
          tableRead entry.1 entry.2 ++ (tablesRead tables ++ [.blank]) := by
        simp [tablesRead]
      rw [shape, gather_table, ih, List.append_nil]

theorem denotes_text {t : Table} (writable : t.Writable) : Denotes t.text t := by
  have lines := lines_fields writable.top (lines_tables writable.bare writable.within)
  refine ⟨_, lines, ?_, writable.distinct⟩
  rw [gather_fields, gather_tables, List.append_nil]

theorem denotes_text_iff {t t' : Table} (writable : t.Writable) : Denotes t.text t' ↔ t' = t := by
  constructor
  · exact (denotes_text writable).unique
  · intro same
    rw [same]
    exact denotes_text writable

end StoreWarden.Toml
