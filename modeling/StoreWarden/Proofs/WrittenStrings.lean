import Mathlib.Tactic.SplitIfs
import StoreWarden.Proofs.TomlGrammar

/-!
# Written strings are read back

Every text, whatever characters it is made of, is written as a string that means just this text.
Between quotes what could be misread is escaped, in each of the two forms; between apostrophes
nothing is, so the texts that are written there have to be free of it.
-/

set_option autoImplicit false

namespace StoreWarden.Toml

/-! ## Characters -/

theorem isPlain_of_not_isControl {c : Char} (printed : isControl c = false) (inLine : c ≠ '\n') :
    IsPlain c := by
  unfold isControl at printed
  simp only [Bool.or_eq_false_iff, Bool.and_eq_false_iff, decide_eq_false_iff_not] at printed
  unfold IsPlain
  by_cases tab : c = '\t'
  · exact Or.inl tab
  · refine Or.inr ⟨?_, printed.2⟩
    obtain (large | isTab) | isLine := printed.1
    · omega
    · exact absurd tab isTab
    · exact absurd inLine isLine

/-- The two digits after `u00` give the number of a character below 128. -/
theorem hexNumber?_hexDigit : ∀ n < 128,
    hexNumber? ['0', '0', hexDigit (n / 16), hexDigit (n % 16)] = some n := by
  decide

theorem lt_of_isControl {c : Char} (control : isControl c = true) : c.toNat < 128 := by
  unfold isControl at control
  simp only [Bool.or_eq_true, Bool.and_eq_true, decide_eq_true_eq] at control
  omega

theorem escape_of_isControl {c : Char} (control : isControl c = true) (rest : List Char) :
    Escape (['u', '0', '0', hexDigit (c.toNat / 16), hexDigit (c.toNat % 16)] ++ rest) c rest := by
  have number := hexNumber?_hexDigit c.toNat (lt_of_isControl control)
  have small := lt_of_isControl control
  have scalar : c.toNat.isValidChar := Or.inl (by omega)
  have one : Escape ('u' :: (['0', '0', hexDigit (c.toNat / 16), hexDigit (c.toNat % 16)] ++ rest))
      (Char.ofNat c.toNat) rest := .short rfl number scalar
  rwa [Char.ofNat_toNat] at one

/-- What a character other than a quote is written as means that character. -/
inductive Stands (lines : Bool) (c : Char) : List Char → Prop where
  | plain (own : IsPlain c) (unescaped : c ≠ '\\') : Stands lines c [c]
  | break_ (line : c = '\n') (allowed : lines = true) : Stands lines c [c]
  | escape {e : List Char} (one : ∀ rest, Escape (e ++ rest) c rest) : Stands lines c ('\\' :: e)

theorem stands_escapeChar (lines : Bool) (c : Char) : Stands lines c (escapeChar lines c) := by
  have sign {e : Char} (known : escapes.lookup e = some c) : Stands lines c ['\\', e] :=
    .escape fun rest => .sign known
  unfold escapeChar
  split_ifs with back tab feed return_ slash line allowed control
  · exact sign (by rw [back]; rfl)
  · exact sign (by rw [tab]; rfl)
  · exact sign (by rw [feed]; rfl)
  · exact sign (by rw [return_]; rfl)
  · exact sign (by rw [slash]; rfl)
  · subst line
    exact .break_ rfl allowed
  · exact sign (by rw [line]; rfl)
  · exact .escape (escape_of_isControl control)
  · exact .plain (isPlain_of_not_isControl (Bool.eq_false_iff.2 control) line) slash

/-! ## Between quotes -/

/-- The text as it is written in one line, with every quote and every break escaped. -/
theorem oneLine_escapeFrom (cs rest : List Char) :
    OneLine '"' (escapeFrom false 1 0 cs ++ '"' :: rest) cs rest := by
  induction cs with
  | nil => exact .closed
  | cons c cs ih =>
      by_cases quote : c = '"'
      · obtain rfl := quote
        rw [escapeFrom, if_pos rfl, if_pos rfl]
        exact .escape rfl (.sign rfl) ih
      · rw [escapeFrom, if_neg quote, List.append_assoc]
        have stands := stands_escapeChar false c
        generalize escapeChar false c = written at stands ⊢
        cases stands with
        | plain own unescaped => exact .plain own quote (fun _ => unescaped) ih
        | break_ _ allowed => exact nomatch allowed
        | escape one => exact .escape rfl (one _) ih

/-- The text as it is written in many lines, after `run` quotes: every third one is escaped. -/
theorem manyLines_escapeFrom (cs : List Char) {rest : List Char} (last : rest.head? ≠ some '"') :
    ∀ run < 3,
      ManyLines '"' run (escapeFrom true 3 run cs ++ '"' :: '"' :: '"' :: rest) cs rest := by
  induction cs with
  | nil => intro run _; exact .closed last
  | cons c cs ih =>
      intro run few
      by_cases quote : c = '"'
      · obtain rfl := quote
        rw [escapeFrom, if_pos rfl]
        by_cases third : run + 1 = 3
        · rw [if_pos third]
          exact .escape rfl (.sign rfl) (ih 0 (by omega))
        · rw [if_neg third]
          exact .mark (by omega) (ih (run + 1) (by omega))
      · rw [escapeFrom, if_neg quote, List.append_assoc]
        have more := ih 0 (by omega)
        have stands := stands_escapeChar true c
        generalize escapeChar true c = written at stands ⊢
        cases stands with
        | plain own unescaped => exact .plain (Or.inl own) quote (fun _ => unescaped) more
        | break_ line _ => exact .plain (Or.inr line) quote (fun _ => line ▸ by decide) more
        | escape one => exact .escape rfl (one _) more

/-! ## Between apostrophes -/

theorem le_longestRun (mark : Char) (cs : List Char) :
    ∀ run longest, longest ≤ longestRun mark run longest cs := by
  induction cs with
  | nil => intro run longest; exact Nat.le_refl longest
  | cons c cs ih =>
      intro run longest
      rw [longestRun]
      split_ifs
      · exact Nat.le_trans (Nat.le_max_left _ _) (ih _ _)
      · exact ih _ _

theorem not_mem_of_longestRun {mark : Char} {cs : List Char} :
    ∀ {run longest}, longestRun mark run longest cs = 0 → mark ∉ cs := by
  induction cs with
  | nil => intro run longest _; exact List.not_mem_nil
  | cons c cs ih =>
      intro run longest none_
      rw [longestRun] at none_
      split_ifs at none_ with same
      · have some_ := le_longestRun mark cs (run + 1) (max longest (run + 1))
        omega
      · rw [List.mem_cons, not_or]
        exact ⟨Ne.symm same, ih none_⟩

theorem oneLine_literal {cs : List Char} (rest : List Char) (printed : cs.any isControl = false)
    (inLine : '\n' ∉ cs) (markless : '\'' ∉ cs) : OneLine '\'' (cs ++ '\'' :: rest) cs rest := by
  induction cs with
  | nil => exact .closed
  | cons c cs ih =>
      rw [List.any_cons, Bool.or_eq_false_iff] at printed
      rw [List.mem_cons, not_or] at inLine markless
      obtain ⟨line, inLine⟩ := inLine
      obtain ⟨mark, markless⟩ := markless
      exact .plain (isPlain_of_not_isControl printed.1 (Ne.symm line)) (Ne.symm mark)
        (fun quotes => absurd quotes (by decide)) (ih printed.2 inLine markless)

theorem manyLines_literal {cs rest : List Char} (last : rest.head? ≠ some '\'')
    (printed : cs.any isControl = false) : ∀ run longest, longestRun '\'' run longest cs ≤ 2 →
      ManyLines '\'' run (cs ++ '\'' :: '\'' :: '\'' :: rest) cs rest := by
  induction cs with
  | nil => intro run longest _; exact .closed last
  | cons c cs ih =>
      intro run longest few
      rw [List.any_cons, Bool.or_eq_false_iff] at printed
      rw [longestRun] at few
      split_ifs at few with same
      · obtain rfl := same
        have longer := le_longestRun '\'' cs (run + 1) (max longest (run + 1))
        exact .mark (by omega) (ih printed.2 _ _ few)
      · refine .plain ?_ same (fun quotes => absurd quotes (by decide)) (ih printed.2 _ _ few)
        by_cases line : c = '\n'
        · exact Or.inr line
        · exact Or.inl (isPlain_of_not_isControl printed.1 line)

/-! ## Every text -/

theorem of_formOf_literal {cs : List Char} (form : formOf cs = .literal) :
    cs.any isControl = false ∧ '\n' ∉ cs ∧ '\'' ∉ cs := by
  unfold formOf at form
  simp only at form
  split_ifs at form with basic literal
  simp only [Bool.and_eq_true, Bool.not_eq_true', decide_eq_true_eq] at literal
  obtain ⟨⟨printed, markless⟩, inLine⟩ := literal
  refine ⟨printed, ?_, not_mem_of_longestRun markless⟩
  rw [← List.contains_iff_mem, inLine]
  exact Bool.false_ne_true

theorem of_formOf_literalLines {cs : List Char} (form : formOf cs = .literalLines) :
    cs.any isControl = false ∧ longestRun '\'' 0 0 cs ≤ 2 := by
  unfold formOf at form
  simp only at form
  split_ifs at form with basic literal basicLines literalLines
  simpa only [Bool.and_eq_true, Bool.not_eq_true', decide_eq_true_eq] using literalLines

/-- A string in one line is not taken for one of many lines. -/
theorem not_doubled {mark : Char} {text rest : List Char} (head : text.head? ≠ some mark)
    (last : rest.head? ≠ some mark) : ¬ [mark, mark] <+: text ++ mark :: rest := by
  intro ⟨more, same⟩
  cases text with
  | nil =>
      have begun : rest = mark :: more := (List.cons.inj same).2.symm
      rw [begun] at last
      exact last rfl
  | cons c text => exact head (congrArg some (List.cons.inj same).1.symm)

theorem dropBreak_opening {cs text : List Char} (head : '\n' ∉ cs → text.head? ≠ some '\n') :
    dropBreak ((if cs.contains '\n' then ['\n'] else []) ++ text) = text := by
  cases broken : cs.contains '\n' with
  | true => rfl
  | false =>
      have inLine : '\n' ∉ cs := by
        rw [← List.contains_iff_mem, broken]
        exact Bool.false_ne_true
      have other := head inLine
      cases text with
      | nil => rfl
      | cons c text =>
          unfold dropBreak
          split
          · rename_i same
            rw [(List.cons.inj same).1] at other
            exact absurd rfl other
          · rfl

theorem head_escapeChar {lines : Bool} {c d : Char} {text : List Char}
    (begun : (escapeChar lines c ++ text).head? = some d) : d = c ∨ d = '\\' := by
  have stands := stands_escapeChar lines c
  generalize escapeChar lines c = written at stands begun
  cases stands with
  | plain _ _ => exact Or.inl (Option.some.inj begun).symm
  | break_ _ _ => exact Or.inl (Option.some.inj begun).symm
  | escape _ => exact Or.inr (Option.some.inj begun).symm

theorem head_escapeFrom_oneLine (cs : List Char) : (escapeFrom false 1 0 cs).head? ≠ some '"' := by
  intro begun
  cases cs with
  | nil => exact nomatch begun
  | cons c cs =>
      by_cases quote : c = '"'
      · rw [escapeFrom, if_pos quote, if_pos rfl] at begun
        exact absurd begun (by simp)
      · rw [escapeFrom, if_neg quote] at begun
        obtain same | same := head_escapeChar begun
        · exact quote same.symm
        · exact absurd same (by decide)

theorem head_escapeFrom_manyLines {cs text : List Char} (inLine : '\n' ∉ cs)
    (after : text.head? ≠ some '\n') : (escapeFrom true 3 0 cs ++ text).head? ≠ some '\n' := by
  intro begun
  cases cs with
  | nil => exact after begun
  | cons c cs =>
      by_cases quote : c = '"'
      · rw [escapeFrom, if_pos quote, if_neg (by decide)] at begun
        exact absurd begun (by simp)
      · rw [escapeFrom, if_neg quote, List.append_assoc] at begun
        obtain same | same := head_escapeChar begun
        · exact inLine (same ▸ List.mem_cons_self)
        · exact absurd same (by decide)

theorem reads_stringText (cs : List Char) {rest : List Char} (last : rest.head? ≠ some '"')
    (last' : rest.head? ≠ some '\'') :
    Reads (stringText cs ++ rest) (.string (String.ofList cs)) rest := by
  unfold stringText
  cases form : formOf cs with
  | basic =>
      have string := oneLine_escapeFrom cs rest
      have read := Reads.oneLine (Or.inl rfl) (not_doubled (head_escapeFrom_oneLine cs) last) string
      simpa using read
  | literal =>
      obtain ⟨printed, inLine, markless⟩ := of_formOf_literal form
      have string := oneLine_literal rest printed inLine markless
      have head : cs.head? ≠ some '\'' := fun begun => markless (List.mem_of_head? begun)
      have read := Reads.oneLine (Or.inr rfl) (not_doubled head last') string
      simpa using read
  | basicLines =>
      have string := manyLines_escapeFrom cs last 0 (by omega)
      rw [← dropBreak_opening fun inLine => head_escapeFrom_manyLines inLine (by simp)] at string
      have read := Reads.manyLines (Or.inl rfl) string
      simpa using read
  | literalLines =>
      obtain ⟨printed, few⟩ := of_formOf_literalLines form
      have string := manyLines_literal last' printed 0 0 few
      have head : '\n' ∉ cs → (cs ++ '\'' :: '\'' :: '\'' :: rest).head? ≠ some '\n' := by
        intro inLine begun
        cases cs with
        | nil => exact absurd begun (by simp)
        | cons c cs =>
            rw [List.cons_append, List.head?_cons, Option.some.injEq] at begun
            exact inLine (begun ▸ List.mem_cons_self)
      rw [← dropBreak_opening head] at string
      have read := Reads.manyLines (Or.inr rfl) string
      simpa using read

end StoreWarden.Toml
