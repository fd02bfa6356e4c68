import StoreWarden.CommandLine.Invocation
import StoreWarden.Proofs.DecodedText

/-!
# How options are spelled

A list of arguments spells options with their values: a value is an argument of its own or is
joined to the name by an equals sign, and flags go by their names or by letters, several of them in
one argument.  Nothing but this is read, and what is read is the options in their order, one after
the other, whichever way each of them is spelled.
-/

set_option autoImplicit false

namespace StoreWarden.CommandLine

/-- An option with its value as it stands. -/
abbrev Use := Key × Bytes

def Key.argument (k : Key) : Bytes := 45 :: 45 :: Bytes.ofString k.long

/-- The option with its value in one argument. -/
def Key.joined (k : Key) (value : Bytes) : Bytes := k.argument ++ 61 :: value

def raisedValue : Bytes := Bytes.ofString "true"

/-- What may stand as a value by itself: an argument that no hyphen starts, or a hyphen alone. -/
def Loose (value : Bytes) : Prop := value.head? ≠ some 45 ∨ value = [45]

inductive Spells : List Bytes → List Use → Prop where
  | done : Spells [] []
  /-- Two hyphens end the options; nothing may follow them. -/
  | closed : Spells [[45, 45]] []
  | apart {k : Key} {value : Bytes} {args : List Bytes} {uses : List Use}
      (valued : k.form ≠ .flag) (loose : Loose value) (rest : Spells args uses) :
      Spells (k.argument :: value :: args) ((k, value) :: uses)
  | joined {k : Key} {value : Bytes} {args : List Bytes} {uses : List Use}
      (valued : k.form ≠ .flag) (rest : Spells args uses) :
      Spells (k.joined value :: args) ((k, value) :: uses)
  | named {k : Key} {args : List Bytes} {uses : List Use}
      (flag : k.form = .flag) (rest : Spells args uses) :
      Spells (k.argument :: args) ((k, raisedValue) :: uses)
  | letters {cs : List Char} {ks : List Key} {args : List Bytes} {uses : List Use}
      (filled : cs ≠ []) (known : ks.map Key.short? = cs.map some) (rest : Spells args uses) :
      Spells ((45 :: Text.Utf8.encode cs) :: args) (ks.map (·, raisedValue) ++ uses)

/-- Takes in one use.  Help and version are answered at once. -/
def Given.take (g : Given) : Use → Except Refusal Given
  | (.help, _) => .error .help
  | (.version, _) => .error .version
  | (k, raw) => g.add k raw

theorem Given.take_of_valued (g : Given) {k : Key} (valued : k.form ≠ .flag) (raw : Bytes) :
    g.take (k, raw) = g.add k raw := by
  cases k with
  | help => exact absurd rfl valued
  | version => exact absurd rfl valued
  | _ => rfl

/-! ## Names and letters -/

theorem Key.no_equals (k : Key) : ∀ b ∈ Bytes.ofString k.long, b ≠ 61 := by
  have others : (Bytes.ofString k.long).all (· != 61) = true := by cases k <;> decide
  exact fun b mem => bne_iff_ne.1 (List.all_eq_true.1 others b mem)

theorem Key.long_ne_nil (k : Key) : Bytes.ofString k.long ≠ [] := by
  cases k <;> decide

theorem Key.long_of_ofLong? {name : String} {k : Key} (found : Key.ofLong? name = some k) :
    k.long = name := by
  have same := List.find?_some found
  simpa using same

theorem Key.ofShort?_short {k : Key} {c : Char} (letter : k.short? = some c) :
    Key.ofShort? c = some k := by
  cases k <;> simp only [Key.short?, Option.some.injEq, reduceCtorEq] at letter <;>
    subst letter <;> decide

theorem Key.short_of_ofShort? {k : Key} {c : Char} (found : Key.ofShort? c = some k) :
    k.short? = some c := by
  have same := List.find?_some found
  simpa using same

/-- A letter is no hyphen. -/
theorem Key.encode_short {k : Key} {c : Char} (letter : k.short? = some c) (cs : List Char) :
    ∃ b, b ≠ 45 ∧ Text.Utf8.encode (c :: cs) = b :: Text.Utf8.encode cs := by
  cases k <;> simp only [Key.short?, Option.some.injEq, reduceCtorEq] at letter <;>
    subst letter <;> exact ⟨_, by decide, rfl⟩

theorem Key.encode_shorts {ks : List Key} {cs : List Char} (filled : cs ≠ [])
    (known : ks.map Key.short? = cs.map some) :
    ∃ b bytes, b ≠ 45 ∧ Text.Utf8.encode cs = b :: bytes := by
  cases cs with
  | nil => exact absurd rfl filled
  | cons c cs =>
      cases ks with
      | nil => exact absurd known.symm (List.cons_ne_nil _ _)
      | cons k ks =>
          obtain ⟨b, letter, encoded⟩ := Key.encode_short (List.cons.inj known).1 cs
          exact ⟨b, _, letter, encoded⟩

/-! ## Settling -/

namespace Reading

/-- Options taken in, with nothing in suspense. -/
def after (g : Given) : Reading := ⟨g, none, false⟩

/-- What is given once the option in suspense is taken in. -/
def settled (r : Reading) : Except Refusal Given := r.settle.map (·.given)

variable {r : Reading} {g : Given} {k : Key} {raw value : Bytes}

@[simp]
theorem settled_after (g : Given) : (after g).settled = .ok g := rfl

@[simp]
theorem settled_pending (g : Given) (k : Key) (raw : Bytes) (literal : Bool) :
    settled ⟨g, some (k, some raw), literal⟩ = g.add k raw := by
  change ((g.add k raw).map fun given => (⟨given, none, literal⟩ : Reading)).map (·.given) = _
  cases g.add k raw <;> rfl

theorem settled_literal (r : Reading) : settled { r with literal := true } = r.settled := by
  obtain ⟨g, pending, literal⟩ := r
  match pending with
  | none => rfl
  | some (k, none) => rfl
  | some (k, some raw) => rw [settled_pending, settled_pending]

theorem settle_eq (plain : r.literal = false) : r.settle = r.settled.map after := by
  obtain ⟨g, pending, literal⟩ := r
  obtain rfl : literal = false := plain
  match pending with
  | none => rfl
  | some (k, none) => rfl
  | some (k, some raw) =>
      rw [settled_pending]
      change ((g.add k raw).map fun given => (⟨given, none, false⟩ : Reading)) = _
      cases g.add k raw <;> rfl

theorem place_eq (plain : r.literal = false) (k : Key) (raw : Bytes) :
    r.place k raw = (r.settled.bind fun g => g.add k raw).map after := by
  unfold place
  rw [settle_eq plain]
  cases r.settled with
  | error refusal => rfl
  | ok g =>
      change (do let given ← g.add k raw; pure { after g with given }) = (g.add k raw).map after
      cases g.add k raw <;> rfl

theorem raise_eq (plain : r.literal = false) (k : Key) :
    r.raise k = (r.settled.bind fun g => g.take (k, raisedValue)).map after := by
  unfold raise
  rw [settle_eq plain]
  cases r.settled with
  | error refusal => rfl
  | ok g =>
      have placed : (after g).place k raisedValue = (g.add k raisedValue).map after :=
        place_eq rfl k _
      cases k with
      | help => rfl
      | version => rfl
      | _ => exact placed

/-! ## Arguments -/

theorem step_closing (plain : r.literal = false) :
    r.step [45, 45] = .ok { r with literal := true } := by
  have both : ([45, 45] : Bytes) = ['-'.toUInt8, '-'.toUInt8] := rfl
  simp only [step, plain, Bool.false_eq_true, if_false, if_pos both]

theorem step_long (plain : r.literal = false) {word : Bytes} (filled : word ≠ []) :
    r.step (45 :: 45 :: word) = r.long word := by
  have more : ¬ (45 :: 45 :: word : Bytes) = ['-'.toUInt8, '-'.toUInt8] := by
    intro same
    exact filled (List.cons.inj (List.cons.inj same).2).2
  simp only [step, plain, Bool.false_eq_true, if_false, if_neg more]

theorem step_short (plain : r.literal = false) {b : UInt8} (letter : b ≠ 45) (word : Bytes) :
    r.step (45 :: b :: word) = r.short (b :: word) := by
  have other : ¬ (45 :: b :: word : Bytes) = ['-'.toUInt8, '-'.toUInt8] := by
    intro same
    exact letter (List.cons.inj (List.cons.inj same).2).1
  simp only [step, plain, Bool.false_eq_true, if_false, if_neg other]

theorem step_loose (plain : r.literal = false) (loose : Loose value) :
    r.step value = match r.pending with
      | some (k, none) => .ok { r with pending := some (k, some value) }
      | _ => .error (.unknown (shownText value)) := by
  have other : ¬ value = ['-'.toUInt8, '-'.toUInt8] := by
    rintro rfl
    exact absurd loose (by unfold Loose; decide)
  simp only [step, plain, Bool.false_eq_true, if_false, if_neg other]
  split
  · exact absurd loose (by simp [Loose])
  · exact absurd loose (by simp [Loose])
  · rfl

theorem name_takeWhile (k : Key) (rest : Bytes) :
    (Bytes.ofString k.long ++ 61 :: rest).takeWhile (· ≠ '='.toUInt8) = Bytes.ofString k.long := by
  have equals : '='.toUInt8 = 61 := rfl
  rw [equals, List.takeWhile_append_of_pos (fun b mem => decide_eq_true (k.no_equals b mem)),
    List.takeWhile_cons_of_neg (by decide), List.append_nil]

theorem name_takeWhile_self (k : Key) :
    (Bytes.ofString k.long).takeWhile (· ≠ '='.toUInt8) = Bytes.ofString k.long := by
  have equals : '='.toUInt8 = 61 := rfl
  rw [equals, ← List.append_nil (Bytes.ofString k.long),
    List.takeWhile_append_of_pos (fun b mem => decide_eq_true (k.no_equals b mem)),
    List.takeWhile_nil]

/-- The value is joined to the name. -/
theorem step_joined (plain : r.literal = false) (valued : k.form ≠ .flag) :
    r.step (k.joined value) = (r.settled.bind fun g => g.add k value).map after := by
  have filled : Bytes.ofString k.long ++ 61 :: value ≠ [] := by simp
  rw [← place_eq plain, Key.joined, Key.argument, List.cons_append, List.cons_append,
    step_long plain filled, long]
  simp only [name_takeWhile, List.drop_left, List.tail?_cons, Bytes.toString?_ofString,
    Option.bind_some, Key.ofLong?_long]

/-- The value is to come: the option is in suspense. -/
theorem step_apart (plain : r.literal = false) (valued : k.form ≠ .flag) :
    r.step k.argument = r.settled.map fun g => ⟨g, some (k, none), false⟩ := by
  have settle : (r.settle.map fun r => { r with pending := some (k, none) }) =
      r.settled.map fun g => ⟨g, some (k, none), false⟩ := by
    rw [settle_eq plain]
    cases r.settled <;> rfl
  rw [← settle]
  rw [Key.argument, step_long plain k.long_ne_nil, long]
  simp only [name_takeWhile_self, List.drop_length, List.tail?_nil, Bytes.toString?_ofString,
    Option.bind_some, Key.ofLong?_long]

theorem step_named (plain : r.literal = false) (flag : k.form = .flag) :
    r.step k.argument = (r.settled.bind fun g => g.take (k, raisedValue)).map after := by
  rw [← raise_eq plain]
  rw [Key.argument, step_long plain k.long_ne_nil, long]
  simp only [name_takeWhile_self, List.drop_length, List.tail?_nil, Bytes.toString?_ofString,
    Option.bind_some, Key.ofLong?_long, flag]

/-! ## Letters -/

theorem letters_after (ks : List Key) : ∀ {cs : List Char} (g : Given),
    ks.map Key.short? = cs.map some →
      (after g).letters cs = ((ks.map (·, raisedValue)).foldlM Given.take g).map after := by
  induction ks with
  | nil =>
      intro cs g known
      obtain rfl : cs = [] := List.map_eq_nil_iff.1 known.symm
      rfl
  | cons k ks ih =>
      intro cs g known
      cases cs with
      | nil => exact absurd known (List.cons_ne_nil _ _)
      | cons c cs =>
          obtain ⟨letter, known⟩ := List.cons.inj known
          rw [letters, Key.ofShort?_short letter, List.map_cons, List.foldlM_cons]
          simp only
          rw [raise_eq rfl, settled_after]
          change ((g.take (k, raisedValue)).map after).bind (·.letters cs) =
            ((g.take (k, raisedValue)).bind _).map after
          cases g.take (k, raisedValue) with
          | error refusal => rfl
          | ok g => exact ih g known

/-- The first letter settles what was in suspense. -/
theorem letters_eq (plain : r.literal = false) {ks : List Key} {cs : List Char} (filled : cs ≠ [])
    (known : ks.map Key.short? = cs.map some) :
    r.letters cs =
      (r.settled.bind ((ks.map (·, raisedValue)).foldlM Given.take)).map after := by
  cases cs with
  | nil => exact absurd rfl filled
  | cons c cs =>
      cases ks with
      | nil => exact absurd known.symm (List.cons_ne_nil _ _)
      | cons k ks =>
          cases same : r.settled with
          | ok g =>
              change r.letters (c :: cs) =
                (((k :: ks).map (·, raisedValue)).foldlM Given.take g).map _
              rw [← letters_after (k :: ks) g known, letters, letters]
              simp only [raise_eq plain, raise_eq (r := after g) rfl, same, settled_after]
          | error refusal =>
              rw [letters, Key.ofShort?_short (List.cons.inj known).1]
              simp only [raise_eq plain, same]
              rfl

theorem short_encode (cs : List Char) : r.short (Text.Utf8.encode cs) = r.letters cs := by
  have whole : Text.Utf8.decodeStart (Text.Utf8.encode cs) = cs := by
    unfold Text.Utf8.decodeStart
    rw [Text.Utf8.pieces_encode]
    induction cs with
    | nil => rfl
    | cons c cs ih => exact congrArg (c :: ·) ih
  unfold short
  simp only [whole, List.drop_length]
  cases r.letters cs <;> rfl

theorem step_letters (plain : r.literal = false) {ks : List Key} {cs : List Char}
    (filled : cs ≠ []) (known : ks.map Key.short? = cs.map some) :
    r.step (45 :: Text.Utf8.encode cs) =
      (r.settled.bind ((ks.map (·, raisedValue)).foldlM Given.take)).map after := by
  obtain ⟨b, bytes, letter, encoded⟩ := Key.encode_shorts filled known
  rw [← letters_eq plain filled known, ← short_encode, encoded, step_short plain letter]

/-! ## Whole lists -/

/-- What comes of arguments once the last option is taken in. -/
def run (r : Reading) (args : List Bytes) : Except Refusal Given :=
  (args.foldlM step r).bind settled

theorem run_cons (r : Reading) (arg : Bytes) (args : List Bytes) :
    r.run (arg :: args) = (r.step arg).bind (·.run args) := by
  unfold run
  rw [List.foldlM_cons]
  cases r.step arg <;> rfl

/-- An argument that takes something in settles what was in suspense first. -/
theorem run_cons_of_taken {arg : Bytes} {args : List Bytes} {taken : Given → Except Refusal Given}
    (stepped : r.step arg = (r.settled.bind taken).map after) :
    r.run (arg :: args) = r.settled.bind fun g => (taken g).bind fun g => (after g).run args := by
  rw [run_cons, stepped]
  cases r.settled with
  | error refusal => rfl
  | ok g =>
      change ((taken g).map after).bind _ = (taken g).bind _
      cases taken g <;> rfl

/-- Arguments that spell options take these in one after the other. -/
theorem run_of_spells {args : List Bytes} {uses : List Use} (spelled : Spells args uses) :
    ∀ {r : Reading}, r.literal = false →
      r.run args = r.settled.bind (uses.foldlM Given.take) := by
  induction spelled with
  | done =>
      intro r _
      change r.settled = _
      cases r.settled <;> rfl
  | closed =>
      intro r plain
      rw [run_cons, step_closing plain]
      change settled { r with literal := true } = _
      rw [settled_literal]
      cases r.settled <;> rfl
  | @apart k value args uses valued loose _ ih =>
      intro r plain
      rw [run_cons, step_apart plain valued]
      cases r.settled with
      | error refusal => rfl
      | ok g =>
          -- the value is in suspense until the next option settles it
          have waiting : Reading.run ⟨g, some (k, none), false⟩ (value :: args) =
              Reading.run ⟨g, some (k, some value), false⟩ args := by
            rw [run_cons, step_loose rfl loose]
            rfl
          have settling := ih (r := ⟨g, some (k, some value), false⟩) rfl
          rw [settled_pending, ← Given.take_of_valued g valued] at settling
          exact waiting.trans settling
  | @joined k value args uses valued _ ih =>
      intro r plain
      rw [run_cons_of_taken (step_joined plain valued)]
      congr 1
      funext g
      rw [List.foldlM_cons, Given.take_of_valued g valued]
      congr 1
      funext g
      exact ih rfl
  | @named k args uses flag _ ih =>
      intro r plain
      rw [run_cons_of_taken (step_named plain flag)]
      congr 1
      funext g
      rw [List.foldlM_cons]
      congr 1
      funext g
      exact ih rfl
  | @letters cs ks args uses filled known _ ih =>
      intro r plain
      rw [run_cons_of_taken (step_letters plain filled known)]
      congr 1
      funext g
      rw [List.foldlM_append]
      congr 1
      funext g
      exact ih rfl

/-! ## Nothing else is read -/

/-- What stands before an equals sign names the option. -/
theorem long_eq_ok {word : Bytes} {next : Reading} (taken : r.long word = .ok next) :
    (∃ k : Key, word = Bytes.ofString k.long) ∨
      ∃ (k : Key) (value : Bytes), k.form ≠ .flag ∧
        word = Bytes.ofString k.long ++ 61 :: value := by
  unfold long at taken
  generalize started : word.takeWhile (· ≠ '='.toUInt8) = name at taken
  have parted : word = name ++ word.drop name.length := by
    rw [← started]
    exact (List.prefix_iff_eq_append.1 (List.takeWhile_prefix _)).symm
  simp only at taken
  cases found : (Bytes.toString? name).bind Key.ofLong? with
  | none => simp [found] at taken
  | some k =>
      obtain ⟨text, decoded, known⟩ := Option.bind_eq_some_iff.1 found
      have named : Bytes.ofString k.long = name := by
        rw [Key.long_of_ofLong? known]
        exact Bytes.ofString_of_toString? decoded
      rw [← named] at parted
      simp only [found] at taken
      cases after_ : word.drop name.length with
      | nil =>
          rw [named, after_, List.append_nil] at parted
          exact Or.inl ⟨k, parted.trans named.symm⟩
      | cons b value =>
          have equals : b = 61 := by
            have dropped : word.dropWhile (· ≠ '='.toUInt8) = b :: value := by
              have whole := List.takeWhile_append_dropWhile (p := (· ≠ '='.toUInt8)) (l := word)
              rw [started] at whole
              conv_rhs => rw [← after_, ← whole, List.drop_left]
            have head := List.head?_dropWhile_not (· ≠ '='.toUInt8) word
            rw [dropped] at head
            have equal : b = '='.toUInt8 := by simpa using head
            exact equal
          rw [named, after_, equals, ← named] at parted
          refine Or.inr ⟨k, value, ?_, parted⟩
          intro flag
          simp [after_, flag] at taken

theorem letters_eq_ok (cs : List Char) : ∀ {r next : Reading}, r.letters cs = .ok next →
    ∃ ks : List Key, ks.map Key.short? = cs.map some := by
  induction cs with
  | nil => intro r next _; exact ⟨[], rfl⟩
  | cons c cs ih =>
      intro r next taken
      rw [letters] at taken
      cases found : Key.ofShort? c with
      | none => simp [found] at taken
      | some k =>
          simp only [found] at taken
          cases raised : r.raise k with
          | error refusal => simp [raised, bind, Except.bind] at taken
          | ok r' =>
              simp only [raised, bind, Except.bind] at taken
              obtain ⟨ks, known⟩ := ih taken
              refine ⟨k :: ks, ?_⟩
              rw [List.map_cons, List.map_cons, Key.short_of_ofShort? found, known]

theorem short_eq_ok {word : Bytes} {next : Reading} (filled : word ≠ [])
    (taken : r.short word = .ok next) :
    ∃ (cs : List Char) (ks : List Key), cs ≠ [] ∧ ks.map Key.short? = cs.map some ∧
      word = Text.Utf8.encode cs := by
  unfold short at taken
  simp only at taken
  cases read : r.letters (Text.Utf8.decodeStart word) with
  | error refusal => simp [read, bind, Except.bind] at taken
  | ok r' =>
      simp only [read, bind, Except.bind] at taken
      obtain ⟨ks, known⟩ := letters_eq_ok _ read
      have whole := Text.Utf8.encode_decodeStart word
      cases rest : word.drop (Text.Utf8.encode (Text.Utf8.decodeStart word)).length with
      | cons b bytes => simp [rest] at taken
      | nil =>
          rw [rest, List.append_nil] at whole
          refine ⟨_, ks, ?_, known, whole.symm⟩
          intro none_
          rw [none_] at whole
          exact filled whole.symm

/-- What an argument is that is not refused. -/
inductive Shape : Bytes → Prop where
  | closing : Shape [45, 45]
  | name (k : Key) : Shape k.argument
  | joined (k : Key) (value : Bytes) (valued : k.form ≠ .flag) : Shape (k.joined value)
  | letters (cs : List Char) (ks : List Key) (filled : cs ≠ [])
      (known : ks.map Key.short? = cs.map some) : Shape (45 :: Text.Utf8.encode cs)
  | loose {value : Bytes} (loose : Loose value) : Shape value

theorem shape_of_step {arg : Bytes} {next : Reading} (plain : r.literal = false)
    (stepped : r.step arg = .ok next) : Shape arg := by
  rcases arg with _ | ⟨b, _ | ⟨b', word⟩⟩
  · exact .loose (Or.inl (by simp))
  · apply Shape.loose
    by_cases hyphen : b = 45
    · exact Or.inr (by rw [hyphen])
    · exact Or.inl (by simpa using hyphen)
  · by_cases hyphen : b = 45
    · obtain rfl := hyphen
      by_cases second : b' = 45
      · obtain rfl := second
        cases word with
        | nil => exact .closing
        | cons b word =>
            rw [step_long plain (List.cons_ne_nil _ _)] at stepped
            obtain ⟨k, same⟩ | ⟨k, value, valued, same⟩ := long_eq_ok stepped
            · rw [same]
              exact .name k
            · rw [same]
              exact .joined k value valued
      · rw [step_short plain second] at stepped
        obtain ⟨cs, ks, filled, known, same⟩ := short_eq_ok (List.cons_ne_nil _ _) stepped
        rw [same]
        exact .letters cs ks filled known
    · exact .loose (Or.inl (by simpa using hyphen))

theorem run_literal {args : List Bytes} {g : Given} (literal : r.literal = true)
    (read : r.run args = .ok g) : args = [] ∧ r.settled = .ok g := by
  cases args with
  | nil => exact ⟨rfl, read⟩
  | cons arg args =>
      have refused : r.step arg = .error (.unknown (shownText arg)) := by
        unfold step
        simp only [literal, if_true]
      rw [run_cons, refused] at read
      exact nomatch read

theorem run_of_taken {arg : Bytes} {args : List Bytes} {g : Given}
    {taken : Given → Except Refusal Given} (stepped : r.step arg = (r.settled.bind taken).map after)
    (read : r.run (arg :: args) = .ok g) :
    ∃ settled given, r.settled = .ok settled ∧ (after given).run args = .ok g := by
  rw [run_cons_of_taken stepped] at read
  cases settling : r.settled with
  | error refusal => simp [settling, Except.bind] at read
  | ok settled =>
      cases result : taken settled with
      | error refusal => simp [settling, result, Except.bind] at read
      | ok given =>
          simp only [settling, result, Except.bind] at read
          exact ⟨settled, given, rfl, read⟩

theorem exists_spells (args : List Bytes) :
    (∀ (g g' : Given) (k : Key), run ⟨g, some (k, none), false⟩ args = .ok g' →
      ∃ value rest uses, args = value :: rest ∧ Loose value ∧ Spells rest uses) ∧
    (∀ (r : Reading) (g : Given), r.literal = false → (∀ k, r.pending ≠ some (k, none)) →
      r.run args = .ok g → ∃ uses, Spells args uses) := by
  induction args with
  | nil => exact ⟨fun _ _ _ read => (nomatch read), fun _ _ _ _ _ => ⟨[], .done⟩⟩
  | cons arg args ih =>
      obtain ⟨awaited, free⟩ := ih
      constructor
      · intro g g' k read
        have unsettled : settled ⟨g, some (k, none), false⟩ = .error (.valueMissing k) := rfl
        cases stepped : step ⟨g, some (k, none), false⟩ arg with
        | error refusal =>
            rw [run_cons, stepped] at read
            exact nomatch read
        | ok next =>
            cases shape_of_step rfl stepped with
            | closing =>
                rw [run_cons, step_closing rfl] at read
                obtain ⟨-, settling⟩ := run_literal rfl read
                exact nomatch settling
            | name k =>
                by_cases flag : k.form = .flag
                · rw [step_named rfl flag] at stepped
                  exact nomatch stepped
                · rw [step_apart rfl flag] at stepped
                  exact nomatch stepped
            | joined k value valued =>
                rw [step_joined rfl valued] at stepped
                exact nomatch stepped
            | letters cs ks filled known =>
                rw [step_letters rfl filled known] at stepped
                exact nomatch stepped
            | loose loose =>
                rw [run_cons, step_loose rfl loose] at read
                obtain ⟨uses, spelled⟩ := free _ g' rfl (by simp) read
                exact ⟨arg, args, uses, rfl, loose, spelled⟩
      · intro r g plain unsuspended read
        cases stepped : r.step arg with
        | error refusal =>
            rw [run_cons, stepped] at read
            exact nomatch read
        | ok next =>
            cases shape_of_step plain stepped with
            | closing =>
                rw [run_cons, step_closing plain] at read
                obtain ⟨rfl, -⟩ := run_literal rfl read
                exact ⟨[], .closed⟩
            | name k =>
                by_cases flag : k.form = .flag
                · obtain ⟨_, given, -, read⟩ := run_of_taken (step_named plain flag) read
                  obtain ⟨uses, spelled⟩ := free _ g rfl (by simp [after]) read
                  exact ⟨_, .named flag spelled⟩
                · rw [run_cons, step_apart plain flag] at read
                  cases settling : r.settled with
                  | error refusal =>
                      rw [settling] at read
                      exact nomatch read
                  | ok settled =>
                      rw [settling] at read
                      obtain ⟨value, rest, uses, rfl, loose, spelled⟩ := awaited _ g k read
                      exact ⟨_, .apart flag loose spelled⟩
            | joined k value valued =>
                obtain ⟨_, given, -, read⟩ := run_of_taken (step_joined plain valued) read
                obtain ⟨uses, spelled⟩ := free _ g rfl (by simp [after]) read
                exact ⟨_, .joined valued spelled⟩
            | letters cs ks filled known =>
                obtain ⟨_, given, -, read⟩ := run_of_taken (step_letters plain filled known) read
                obtain ⟨uses, spelled⟩ := free _ g rfl (by simp [after]) read
                exact ⟨_, .letters filled known spelled⟩
            | loose loose =>
                rw [step_loose plain loose] at stepped
                split at stepped
                · rename_i k same
                  exact absurd same (unsuspended k)
                · exact nomatch stepped

end Reading

/-! ## Reading a command line -/

theorem read_eq (args : List Bytes) (env : Environment) :
    read args env = (Reading.start.run args).bind (Given.complete env Key.all) := by
  unfold read Reading.run
  cases args.foldlM Reading.step .start with
  | error refusal => rfl
  | ok r =>
      change (r.settle.bind fun r => Given.complete env Key.all r.given) = _
      change _ = (r.settle.map (·.given)).bind _
      cases r.settle <;> rfl

theorem read_of_spells {args : List Bytes} {uses : List Use} (spelled : Spells args uses)
    (env : Environment) :
    read args env = (uses.foldlM Given.take []).bind (Given.complete env Key.all) := by
  rw [read_eq, Reading.run_of_spells spelled rfl]
  rfl

theorem exists_spells_of_read {args : List Bytes} {env : Environment} {g : Given}
    (accepted : read args env = .ok g) : ∃ uses, Spells args uses := by
  rw [read_eq] at accepted
  cases ran : Reading.start.run args with
  | error refusal =>
      rw [ran] at accepted
      exact nomatch accepted
  | ok given => exact (Reading.exists_spells args).2 _ given rfl (by simp [Reading.start]) ran

end StoreWarden.CommandLine
