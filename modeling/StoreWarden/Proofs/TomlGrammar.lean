import Mathlib.Data.List.Nodup
import StoreWarden.Toml.Table

/-!
# Documents in TOML

The rules of TOML 1.0 for documents of whole numbers, booleans and strings, in the fields and the
tables of one level, with bare names and lines that end in a line feed.  Every rule relates a text
to what its start means and to what is left of it.  The rules leave no choice: a text denotes one
table at most, `Denotes.unique`.
-/

set_option autoImplicit false

namespace StoreWarden.Toml

/-! ## Characters -/

/-- What may stand as it is in comments and in strings: no control character but the tab. -/
def IsPlain (c : Char) : Prop := c = '\t' ∨ 0x20 ≤ c.toNat ∧ c.toNat ≠ 0x7F

def isBlank (c : Char) : Bool := c = ' ' || c = '\t'

def isBlankOrBreak (c : Char) : Bool := isBlank c || c = '\n'

/-- Letters, digits, underscores and hyphens. -/
def isBare (c : Char) : Bool := c.isAlphanum || c = '_' || c = '-'

def skipBlanks (text : List Char) : List Char := text.dropWhile isBlank

/-! ## Strings -/

def hexValue? (c : Char) : Option Nat :=
  if c.isDigit then some (c.toNat - 48)
  else if 'A' ≤ c ∧ c ≤ 'F' then some (c.toNat - 55)
  else if 'a' ≤ c ∧ c ≤ 'f' then some (c.toNat - 87)
  else none

def hexNumber? (digits : List Char) : Option Nat :=
  digits.foldlM (fun n d => (hexValue? d).map (16 * n + ·)) 0

/-- Characters that have a letter or a sign of their own after a backslash. -/
def escapes : List (Char × Char) :=
  [('b', '\x08'), ('t', '\t'), ('n', '\n'), ('f', '\x0c'), ('r', '\r'), ('"', '"'), ('\\', '\\')]

/-- What stands after a backslash, and the character that it means. -/
inductive Escape : List Char → Char → List Char → Prop where
  | sign {e c : Char} {rest : List Char} (known : escapes.lookup e = some c) :
      Escape (e :: rest) c rest
  | short {digits rest : List Char} {n : Nat} (four : digits.length = 4)
      (number : hexNumber? digits = some n) (scalar : n.isValidChar) :
      Escape ('u' :: (digits ++ rest)) (Char.ofNat n) rest
  | long {digits rest : List Char} {n : Nat} (eight : digits.length = 8)
      (number : hexNumber? digits = some n) (scalar : n.isValidChar) :
      Escape ('U' :: (digits ++ rest)) (Char.ofNat n) rest

/-- Strings stand between quotes, with escapes, or between apostrophes, without. -/
def IsMark (mark : Char) : Prop := mark = '"' ∨ mark = '\''

/-- The rest of a string in one line, after the mark that opens it. -/
inductive OneLine (mark : Char) : List Char → List Char → List Char → Prop where
  | closed {rest : List Char} : OneLine mark (mark :: rest) [] rest
  | plain {c : Char} {text cs rest : List Char} (own : IsPlain c) (other : c ≠ mark)
      (unescaped : mark = '"' → c ≠ '\\') (more : OneLine mark text cs rest) :
      OneLine mark (c :: text) (c :: cs) rest
  | escape {c : Char} {text text' cs rest : List Char} (quotes : mark = '"')
      (one : Escape text c text') (more : OneLine mark text' cs rest) :
      OneLine mark ('\\' :: text) (c :: cs) rest

/-- The rest of a string of many lines, of which `run` marks stand just before.  Two marks in a row
belong to the string, also just before the three that close it. -/
inductive ManyLines (mark : Char) : Nat → List Char → List Char → List Char → Prop where
  | closed {run : Nat} {rest : List Char} (last : rest.head? ≠ some mark) :
      ManyLines mark run (mark :: mark :: mark :: rest) [] rest
  | mark {run : Nat} {text cs rest : List Char} (few : run < 2)
      (more : ManyLines mark (run + 1) text cs rest) :
      ManyLines mark run (mark :: text) (mark :: cs) rest
  | plain {run : Nat} {c : Char} {text cs rest : List Char} (own : IsPlain c ∨ c = '\n')
      (other : c ≠ mark) (unescaped : mark = '"' → c ≠ '\\')
      (more : ManyLines mark 0 text cs rest) : ManyLines mark run (c :: text) (c :: cs) rest
  | escape {run : Nat} {c : Char} {text text' cs rest : List Char} (quotes : mark = '"')
      (one : Escape text c text') (more : ManyLines mark 0 text' cs rest) :
      ManyLines mark run ('\\' :: text) (c :: cs) rest
  /-- A backslash at the end of a line takes all blanks and breaks that follow with it. -/
  | broken {run : Nat} {text text' cs rest : List Char} (quotes : mark = '"')
      (line : skipBlanks text = '\n' :: text')
      (more : ManyLines mark 0 (text'.dropWhile isBlankOrBreak) cs rest) :
      ManyLines mark run ('\\' :: text) cs rest

/-- A line break just after the opening marks does not belong to the string. -/
def dropBreak : List Char → List Char
  | '\n' :: text => text
  | text => text

/-! ## Values, lines, documents -/

def greatest : Nat := Nat.pow 2 63 - 1

inductive Reads : List Char → Value → List Char → Prop where
  | integer {text digits : List Char} (taken : text.takeWhile Char.isDigit = digits)
      (filled : digits ≠ []) (shortest : digits.head? = some '0' → digits = ['0'])
      (small : Nat.ofDigitChars 10 digits 0 ≤ greatest) :
      Reads text (.integer (Nat.ofDigitChars 10 digits 0)) (text.dropWhile Char.isDigit)
  | boolean {b : Bool} {rest : List Char} :
      Reads ((toString b).toList ++ rest) (.boolean b) rest
  | oneLine {mark : Char} {text cs rest : List Char} (known : IsMark mark)
      (single : ¬ [mark, mark] <+: text) (string : OneLine mark text cs rest) :
      Reads (mark :: text) (.string (String.ofList cs)) rest
  | manyLines {mark : Char} {text cs rest : List Char} (known : IsMark mark)
      (string : ManyLines mark 0 (dropBreak text) cs rest) :
      Reads (mark :: mark :: mark :: text) (.string (String.ofList cs)) rest

/-- A bare name. -/
inductive Names : List Char → String → List Char → Prop where
  | bare {text name : List Char} (taken : text.takeWhile isBare = name) (filled : name ≠ []) :
      Names text (String.ofList name) (text.dropWhile isBare)

/-- The end of a line, maybe after a comment, with the lines that follow if there are any. -/
inductive Ends : List Char → Option (List Char) → Prop where
  | last {text : List Char} (blank : skipBlanks text = []) : Ends text none
  | line {text rest : List Char} (blank : skipBlanks text = '\n' :: rest) : Ends text (some rest)
  | comment {text more : List Char} {rest : Option (List Char)}
      (begun : skipBlanks text = '#' :: more)
      (own : ∀ c ∈ more.takeWhile (· ≠ '\n'), IsPlain c)
      (ended : Ends (more.dropWhile (· ≠ '\n')) rest) : Ends text rest

inductive Expression where
  | blank
  | field (name : String) (value : Value)
  | table (name : String)

inductive Line : List Char → Expression → Option (List Char) → Prop where
  | blank {text : List Char} {rest : Option (List Char)} (ended : Ends text rest) :
      Line text .blank rest
  | field {text text₁ text₂ text₃ : List Char} {name : String} {value : Value}
      {rest : Option (List Char)} (named : Names (skipBlanks text) name text₁)
      (equals : skipBlanks text₁ = '=' :: text₂) (read : Reads (skipBlanks text₂) value text₃)
      (ended : Ends text₃ rest) : Line text (.field name value) rest
  | table {text text₁ text₂ text₃ : List Char} {name : String} {rest : Option (List Char)}
      (opened : skipBlanks text = '[' :: text₁) (named : Names (skipBlanks text₁) name text₂)
      (closed : skipBlanks text₂ = ']' :: text₃) (ended : Ends text₃ rest) :
      Line text (.table name) rest

inductive Lines : List Char → List Expression → Prop where
  | last {text : List Char} {e : Expression} (line : Line text e none) : Lines text [e]
  | more {text rest : List Char} {e : Expression} {es : List Expression}
      (line : Line text e (some rest)) (lines : Lines rest es) : Lines text (e :: es)

/-- Fields belong to the table whose name stands before them. -/
def gather : List Expression → Table
  | [] => ⟨[], []⟩
  | .blank :: es => gather es
  | .field name value :: es => { gather es with fields := (name, value) :: (gather es).fields }
  | .table name :: es => ⟨[], (name, (gather es).fields) :: (gather es).tables⟩

/-- No name is given twice. -/
structure Table.Distinct (t : Table) : Prop where
  top : (t.fields.map Prod.fst ++ t.tables.map Prod.fst).Nodup
  within : ∀ entry ∈ t.tables, (entry.2.map Prod.fst).Nodup

/-- The text is a document, and this is its content. -/
def Denotes (text : List Char) (t : Table) : Prop :=
  ∃ es, Lines text es ∧ gather es = t ∧ t.Distinct

theorem isBlank_iff {c : Char} : isBlank c = true ↔ c = ' ' ∨ c = '\t' := by
  rw [isBlank, Bool.or_eq_true, decide_eq_true_eq, decide_eq_true_eq]

/-! ## One meaning at most -/

theorem Escape.unique {text text' rest rest' : List Char} {c c' : Char} (first : Escape text c rest)
    (second : Escape text' c' rest') (same : text' = text) : c' = c ∧ rest' = rest := by
  have short : escapes.lookup 'u' = none := rfl
  have long : escapes.lookup 'U' = none := rfl
  cases first with
  | sign known =>
      cases second with
      | sign known' =>
          obtain ⟨rfl, rfl⟩ := List.cons.inj same
          exact ⟨Option.some.inj (known'.symm.trans known), rfl⟩
      | short _ _ _ =>
          obtain ⟨rfl, -⟩ := List.cons.inj same
          simp [short] at known
      | long _ _ _ =>
          obtain ⟨rfl, -⟩ := List.cons.inj same
          simp [long] at known
  | short four number _ =>
      cases second with
      | sign known' =>
          obtain ⟨rfl, -⟩ := List.cons.inj same
          simp [short] at known'
      | short four' number' _ =>
          obtain ⟨rfl, rfl⟩ := List.append_inj (List.cons.inj same).2 (four'.trans four.symm)
          obtain rfl := Option.some.inj (number'.symm.trans number)
          exact ⟨rfl, rfl⟩
      | long _ _ _ => exact absurd (List.cons.inj same).1 (by decide)
  | long eight number _ =>
      cases second with
      | sign known' =>
          obtain ⟨rfl, -⟩ := List.cons.inj same
          simp [long] at known'
      | short _ _ _ => exact absurd (List.cons.inj same).1 (by decide)
      | long eight' number' _ =>
          obtain ⟨rfl, rfl⟩ := List.append_inj (List.cons.inj same).2 (eight'.trans eight.symm)
          obtain rfl := Option.some.inj (number'.symm.trans number)
          exact ⟨rfl, rfl⟩

theorem OneLine.unique {mark : Char} {text cs rest : List Char}
    (first : OneLine mark text cs rest) :
    ∀ {text' cs' rest' : List Char}, OneLine mark text' cs' rest' → text' = text →
      cs' = cs ∧ rest' = rest := by
  induction first with
  | closed =>
      intro text' cs' rest' second same
      cases second with
      | closed => exact ⟨rfl, (List.cons.inj same).2⟩
      | plain _ other _ _ => exact absurd (List.cons.inj same).1 other
      | escape quotes _ _ => exact absurd ((List.cons.inj same).1.trans quotes) (by decide)
  | plain _ other unescaped _ ih =>
      intro text' cs' rest' second same
      cases second with
      | closed => exact absurd (List.cons.inj same).1.symm other
      | plain _ _ _ more =>
          obtain ⟨rfl, after⟩ := List.cons.inj same
          obtain ⟨rfl, rfl⟩ := ih more after
          exact ⟨rfl, rfl⟩
      | escape quotes _ _ => exact absurd (List.cons.inj same).1.symm (unescaped quotes)
  | escape quotes one _ ih =>
      intro text' cs' rest' second same
      cases second with
      | closed => exact absurd ((List.cons.inj same).1.symm.trans quotes) (by decide)
      | plain _ _ unescaped _ => exact absurd (List.cons.inj same).1 (unescaped quotes)
      | escape _ one' more =>
          obtain ⟨rfl, after⟩ := one.unique one' (List.cons.inj same).2
          obtain ⟨rfl, rfl⟩ := ih more after
          exact ⟨rfl, rfl⟩

/-- A mark closes the string together with the next two, or belongs to it. -/
theorem ManyLines.of_mark {mark : Char} {run : Nat} {text text' cs rest : List Char}
    (string : ManyLines mark run text' cs rest) (same : text' = mark :: text) :
    (text = mark :: mark :: rest ∧ rest.head? ≠ some mark ∧ cs = []) ∨
      (run < 2 ∧ ∃ cs', cs = mark :: cs' ∧ ManyLines mark (run + 1) text cs' rest) := by
  cases string with
  | closed last => exact Or.inl ⟨(List.cons.inj same).2.symm, last, rfl⟩
  | mark few more => exact Or.inr ⟨few, _, rfl, (List.cons.inj same).2 ▸ more⟩
  | plain _ other _ _ => exact absurd (List.cons.inj same).1 other
  | escape quotes _ _ => exact absurd ((List.cons.inj same).1.trans quotes) (by decide)
  | broken quotes _ _ => exact absurd ((List.cons.inj same).1.trans quotes) (by decide)

/-- The last three marks in a row close the string. -/
theorem ManyLines.of_closing {mark : Char} {run : Nat} {rest cs rest' : List Char}
    (last : rest.head? ≠ some mark)
    (string : ManyLines mark run (mark :: mark :: mark :: rest) cs rest') :
    cs = [] ∧ rest' = rest := by
  obtain ⟨same, -, none_⟩ | ⟨few, cs', -, second⟩ := string.of_mark rfl
  · exact ⟨none_, (List.cons.inj (List.cons.inj same).2).2.symm⟩
  obtain ⟨same, -, -⟩ | ⟨few', cs'', -, third⟩ := second.of_mark rfl
  · have head : rest = mark :: rest' := (List.cons.inj same).2
    rw [head] at last
    exact absurd rfl last
  obtain ⟨same, -, -⟩ | ⟨few'', -⟩ := third.of_mark rfl
  · rw [same] at last
    exact absurd rfl last
  · exact absurd few'' (by omega)

/-- What ends a line is no sign after a backslash. -/
theorem Escape.not_broken {text text' rest : List Char} {c : Char} (one : Escape text c rest) :
    skipBlanks text ≠ '\n' :: text' := by
  intro line
  cases one with
  | @sign e c rest known =>
      by_cases blank : isBlank e = true
      · obtain rfl | rfl : e = ' ' ∨ e = '\t' := by simpa [isBlank] using blank
        · exact nomatch (show none = some c from known)
        · exact nomatch (show none = some c from known)
      · rw [skipBlanks, List.dropWhile_cons_of_neg blank] at line
        obtain ⟨rfl, -⟩ := List.cons.inj line
        exact nomatch (show none = some c from known)
  | short _ _ _ => exact absurd (List.cons.inj line).1 (by decide)
  | long _ _ _ => exact absurd (List.cons.inj line).1 (by decide)

theorem ManyLines.unique {mark : Char} {run : Nat} {text cs rest : List Char}
    (first : ManyLines mark run text cs rest) :
    ∀ {text' cs' rest' : List Char}, ManyLines mark run text' cs' rest' → text' = text →
      cs' = cs ∧ rest' = rest := by
  induction first with
  | closed last =>
      intro text' cs' rest' second same
      rw [same] at second
      exact second.of_closing last
  | mark few more ih =>
      intro text' cs' rest' second same
      obtain ⟨same', last, none_⟩ | ⟨-, cs'', rfl, more'⟩ := second.of_mark same
      · -- the second reading would close the string here
        rw [same'] at more
        have closing := ManyLines.mark few more
        obtain ⟨none_', -⟩ := closing.of_closing last
        exact nomatch none_'
      · obtain ⟨rfl, rfl⟩ := ih more' rfl
        exact ⟨rfl, rfl⟩
  | plain _ other unescaped _ ih =>
      intro text' cs' rest' second same
      cases second with
      | closed _ => exact absurd (List.cons.inj same).1.symm other
      | mark _ _ => exact absurd (List.cons.inj same).1.symm other
      | plain _ _ _ more =>
          obtain ⟨rfl, after⟩ := List.cons.inj same
          obtain ⟨rfl, rfl⟩ := ih more after
          exact ⟨rfl, rfl⟩
      | escape quotes _ _ => exact absurd (List.cons.inj same).1.symm (unescaped quotes)
      | broken quotes _ _ => exact absurd (List.cons.inj same).1.symm (unescaped quotes)
  | escape quotes one _ ih =>
      intro text' cs' rest' second same
      cases second with
      | closed _ => exact absurd ((List.cons.inj same).1.symm.trans quotes) (by decide)
      | mark _ _ => exact absurd ((List.cons.inj same).1.symm.trans quotes) (by decide)
      | plain _ _ unescaped _ => exact absurd (List.cons.inj same).1 (unescaped quotes)
      | escape _ one' more =>
          obtain ⟨rfl, after⟩ := one.unique one' (List.cons.inj same).2
          obtain ⟨rfl, rfl⟩ := ih more after
          exact ⟨rfl, rfl⟩
      | broken _ line _ =>
          rw [(List.cons.inj same).2] at line
          exact absurd line one.not_broken
  | broken quotes line _ ih =>
      intro text' cs' rest' second same
      cases second with
      | closed _ => exact absurd ((List.cons.inj same).1.symm.trans quotes) (by decide)
      | mark _ _ => exact absurd ((List.cons.inj same).1.symm.trans quotes) (by decide)
      | plain _ _ unescaped _ => exact absurd (List.cons.inj same).1 (unescaped quotes)
      | escape _ one' _ =>
          rw [← (List.cons.inj same).2] at line
          exact absurd line one'.not_broken
      | broken _ line' more =>
          rw [(List.cons.inj same).2, line] at line'
          obtain rfl := (List.cons.inj line').2
          exact ih more rfl

/-! ### Values -/

inductive Kind where
  | integer
  | boolean
  | string

def Value.kind : Value → Kind
  | .integer _ => .integer
  | .boolean _ => .boolean
  | .string _ => .string

/-- The first character tells what kind of value it is. -/
def kindAt (c : Char) : Kind :=
  if c.isDigit then .integer else if c = '"' ∨ c = '\'' then .string else .boolean

theorem kindAt_mark {mark : Char} (known : IsMark mark) : kindAt mark = .string := by
  obtain rfl | rfl := known <;> rfl

theorem exists_cons_of_takeWhile {p : Char → Bool} {text : List Char}
    (filled : text.takeWhile p ≠ []) : ∃ c more, text = c :: more ∧ p c = true := by
  cases text with
  | nil => exact absurd rfl filled
  | cons c more =>
      refine ⟨c, more, rfl, ?_⟩
      by_contra other
      exact filled (List.takeWhile_cons_of_neg other)

theorem Reads.kind_eq {text rest : List Char} {value : Value} (read : Reads text value rest) :
    ∃ c more, text = c :: more ∧ value.kind = kindAt c := by
  cases read with
  | integer taken filled _ _ =>
      obtain ⟨c, more, rfl, digit⟩ := exists_cons_of_takeWhile (taken.symm ▸ filled)
      refine ⟨c, more, rfl, ?_⟩
      rw [kindAt, if_pos digit]
      rfl
  | @boolean b rest =>
      cases b with
      | true => exact ⟨_, _, rfl, rfl⟩
      | false => exact ⟨_, _, rfl, rfl⟩
  | oneLine known _ _ => exact ⟨_, _, rfl, (kindAt_mark known).symm⟩
  | manyLines known _ => exact ⟨_, _, rfl, (kindAt_mark known).symm⟩

theorem Reads.unique {text text' rest rest' : List Char} {value value' : Value}
    (first : Reads text value rest) (second : Reads text' value' rest') (same : text' = text) :
    value' = value ∧ rest' = rest := by
  have kinds : value.kind = value'.kind := by
    obtain ⟨c, more, begun, kind⟩ := first.kind_eq
    obtain ⟨c', more', begun', kind'⟩ := second.kind_eq
    rw [kind, kind', (List.cons.inj (begun.symm.trans (same.symm.trans begun'))).1]
  cases first with
  | integer taken _ _ _ =>
      cases second with
      | integer taken' _ _ _ =>
          obtain rfl := same
          obtain rfl := taken.symm.trans taken'
          exact ⟨rfl, rfl⟩
      | boolean => exact nomatch kinds
      | oneLine _ _ _ => exact nomatch kinds
      | manyLines _ _ => exact nomatch kinds
  | @boolean b rest =>
      cases second with
      | integer _ _ _ _ => exact nomatch kinds
      | @boolean b' rest' =>
          cases b with
          | true =>
              cases b' with
              | true => exact ⟨rfl, List.append_cancel_left same⟩
              | false => exact absurd (List.cons.inj same).1 (by decide)
          | false =>
              cases b' with
              | true => exact absurd (List.cons.inj same).1 (by decide)
              | false => exact ⟨rfl, List.append_cancel_left same⟩
      | oneLine _ _ _ => exact nomatch kinds
      | manyLines _ _ => exact nomatch kinds
  | oneLine _ single string =>
      cases second with
      | integer _ _ _ _ => exact nomatch kinds
      | boolean => exact nomatch kinds
      | oneLine _ _ string' =>
          obtain ⟨rfl, after⟩ := List.cons.inj same
          obtain ⟨rfl, rfl⟩ := string.unique string' after
          exact ⟨rfl, rfl⟩
      | manyLines _ _ =>
          obtain ⟨rfl, after⟩ := List.cons.inj same
          exact absurd ⟨_, after⟩ single
  | manyLines _ string =>
      cases second with
      | integer _ _ _ _ => exact nomatch kinds
      | boolean => exact nomatch kinds
      | oneLine _ single' _ =>
          obtain ⟨rfl, after⟩ := List.cons.inj same
          exact absurd ⟨_, after.symm⟩ single'
      | manyLines _ string' =>
          obtain ⟨rfl, after⟩ := List.cons.inj same
          obtain rfl := (List.cons.inj (List.cons.inj after).2).2
          obtain ⟨rfl, rfl⟩ := string.unique string' rfl
          exact ⟨rfl, rfl⟩

/-! ### Lines -/

theorem Names.unique {text rest rest' : List Char} {name name' : String}
    (first : Names text name rest) (second : Names text name' rest') :
    name' = name ∧ rest' = rest := by
  cases first with
  | bare taken _ =>
      cases second with
      | bare taken' _ =>
          obtain rfl := taken.symm.trans taken'
          exact ⟨rfl, rfl⟩

theorem Ends.unique {text : List Char} {rest : Option (List Char)} (first : Ends text rest) :
    ∀ {rest' : Option (List Char)}, Ends text rest' → rest' = rest := by
  induction first with
  | last blank =>
      intro rest' second
      cases second with
      | last _ => rfl
      | line blank' => exact absurd (blank.symm.trans blank') (by simp)
      | comment begun _ _ => exact absurd (blank.symm.trans begun) (by simp)
  | line blank =>
      intro rest' second
      cases second with
      | last blank' => exact absurd (blank.symm.trans blank') (by simp)
      | line blank' => rw [(List.cons.inj (blank.symm.trans blank')).2]
      | comment begun _ _ => exact absurd (List.cons.inj (blank.symm.trans begun)).1 (by decide)
  | comment begun _ _ ih =>
      intro rest' second
      cases second with
      | last blank' => exact absurd (begun.symm.trans blank') (by simp)
      | line blank' => exact absurd (List.cons.inj (begun.symm.trans blank')).1 (by decide)
      | comment begun' _ ended =>
          obtain rfl := (List.cons.inj (begun.symm.trans begun')).2
          exact ih ended

/-- A name or a bracket is no end of a line. -/
theorem Ends.head {text more : List Char} {rest : Option (List Char)} {c : Char}
    (ended : Ends text rest) (begun : skipBlanks text = c :: more) : c = '\n' ∨ c = '#' := by
  cases ended with
  | last blank => exact absurd (begun.symm.trans blank) (by simp)
  | line blank => exact Or.inl (List.cons.inj (begun.symm.trans blank)).1
  | comment begun' _ _ => exact Or.inr (List.cons.inj (begun.symm.trans begun')).1

theorem Names.head {text rest : List Char} {name : String} (named : Names text name rest) :
    ∃ c more, text = c :: more ∧ isBare c = true := by
  cases named with
  | bare taken filled => exact exists_cons_of_takeWhile (taken.symm ▸ filled)

theorem Line.unique {text : List Char} {e e' : Expression} {rest rest' : Option (List Char)}
    (first : Line text e rest) (second : Line text e' rest') : e' = e ∧ rest' = rest := by
  cases first with
  | blank ended =>
      cases second with
      | blank ended' => exact ⟨rfl, ended.unique ended'⟩
      | field named' _ _ _ =>
          obtain ⟨c, more, begun, bare⟩ := named'.head
          obtain rfl | rfl := ended.head begun <;> exact absurd bare (by decide)
      | table opened' _ _ _ =>
          obtain same | same := ended.head opened' <;> exact absurd same (by decide)
  | field named equals read ended =>
      obtain ⟨c, more, begun, bare⟩ := named.head
      cases second with
      | blank ended' => obtain rfl | rfl := ended'.head begun <;> exact absurd bare (by decide)
      | field named' equals' read' ended' =>
          obtain ⟨rfl, rfl⟩ := named.unique named'
          obtain rfl := (List.cons.inj (equals.symm.trans equals')).2
          obtain ⟨rfl, rfl⟩ := read.unique read' rfl
          exact ⟨rfl, ended.unique ended'⟩
      | table opened' _ _ _ =>
          rw [(List.cons.inj (begun.symm.trans opened')).1] at bare
          exact absurd bare (by decide)
  | table opened named closed ended =>
      cases second with
      | blank ended' => obtain same | same := ended'.head opened <;> exact absurd same (by decide)
      | field named' _ _ _ =>
          obtain ⟨c, more, begun, bare⟩ := named'.head
          rw [(List.cons.inj (begun.symm.trans opened)).1] at bare
          exact absurd bare (by decide)
      | table opened' named' closed' ended' =>
          obtain rfl := (List.cons.inj (opened.symm.trans opened')).2
          obtain ⟨rfl, rfl⟩ := named.unique named'
          obtain rfl := (List.cons.inj (closed.symm.trans closed')).2
          exact ⟨rfl, ended.unique ended'⟩

theorem Lines.unique {text : List Char} {es : List Expression} (first : Lines text es) :
    ∀ {es' : List Expression}, Lines text es' → es' = es := by
  induction first with
  | last line =>
      intro es' second
      cases second with
      | last line' => rw [(line.unique line').1]
      | more line' _ => exact absurd (line.unique line').2 (by simp)
  | more line _ ih =>
      intro es' second
      cases second with
      | last line' => exact absurd (line.unique line').2 (by simp)
      | more line' lines' =>
          obtain ⟨rfl, same⟩ := line.unique line'
          obtain rfl := Option.some.inj same
          rw [ih lines']

theorem Denotes.unique {text : List Char} {t t' : Table} (first : Denotes text t)
    (second : Denotes text t') : t' = t := by
  obtain ⟨es, lines, rfl, -⟩ := first
  obtain ⟨es', lines', rfl, -⟩ := second
  rw [lines.unique lines']

end StoreWarden.Toml
