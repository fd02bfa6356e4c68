import Mathlib.Data.List.Nodup
import StoreWarden.Proofs.OptionValues
import StoreWarden.Proofs.SpelledOptions

/-!
# Where settings come from

Every setting has one option, and its value has one source: the option's use on the command line,
or else its variable, or else nothing, and then the setting is the default.  No other option and no
other variable has a part in it.  A variable whose option is used is not read at all, and neither
the order of the uses nor the way each of them is spelled makes a difference.
-/

set_option autoImplicit false

namespace StoreWarden.CommandLine

variable {g g' : Given} {k : Key} {raw : Bytes} {env : Environment} {uses : List Use}

/-- The value of the option's variable, as it stands. -/
def ambient? (env : Environment) (k : Key) : Option Bytes :=
  k.environmentName?.bind fun name => env.lookup name

/-- What an option is read from: its own use, or else its own variable. -/
def source? (uses : List Use) (env : Environment) (k : Key) : Option Bytes :=
  (uses.lookup k).or (ambient? env k)

def valueOf? (k : Key) (raw : Bytes) : Option k.form.Value := (readValue k raw).toOption

/-- Options that settings are made of. -/
def Key.isSetting : Key → Bool
  | .debug | .verbose | .quiet | .logFormat | .validate | .print | .help | .version => false
  | _ => true

/-- The setting that an option gives, if it has a value. -/
def told (s : Settings) : (k : Key) → Option k.form.Value
  | .sidecarHostPort => some s.sidecar.hostPort
  | .sidecarTlsEnabled => some s.sidecar.tlsEnabled
  | .sidecarBundle => s.sidecar.bundle
  | .serverName => s.client.serverName
  | .clientCa => s.client.ca
  | .clientCert => s.client.cert
  | .clientKey => s.client.key
  | .readyPort => some s.readyPort
  | .clientPort => some s.clientPort
  | .waitReady => some s.waitReadySeconds
  | .recordPath => some s.recordPath
  | .documentPath => some s.documentPath
  | .program => some s.program
  | .debug | .verbose | .quiet | .logFormat | .validate | .print | .help | .version => none

theorem eq_of_told {s s' : Settings} (same : ∀ k, k.isSetting = true → told s k = told s' k) :
    s = s' := by
  obtain ⟨_, _, _, _, _, _, ⟨_, _, _⟩, ⟨_, _, _, _⟩⟩ := s
  obtain ⟨_, _, _, _, _, _, ⟨_, _, _⟩, ⟨_, _, _, _⟩⟩ := s'
  have hostPort := Option.some.inj (same .sidecarHostPort rfl)
  have tlsEnabled := Option.some.inj (same .sidecarTlsEnabled rfl)
  have bundle := same .sidecarBundle rfl
  have serverName := same .serverName rfl
  have ca := same .clientCa rfl
  have cert := same .clientCert rfl
  have key := same .clientKey rfl
  have readyPort := Option.some.inj (same .readyPort rfl)
  have clientPort := Option.some.inj (same .clientPort rfl)
  have waitReady := Option.some.inj (same .waitReady rfl)
  have recordPath := Option.some.inj (same .recordPath rfl)
  have documentPath := Option.some.inj (same .documentPath rfl)
  have program := Option.some.inj (same .program rfl)
  simp only [told] at *
  subst_vars
  rfl

/-! ## One option -/

namespace Given

@[simp]
theorem get?_cons_self (g : Given) (k : Key) (value : k.form.Value) :
    get? (⟨k, value⟩ :: g) k = some value := by
  simp [get?]

theorem get?_cons_of_ne {k' : Key} (other : k' ≠ k) (g : Given) (value : k'.form.Value) :
    get? (⟨k', value⟩ :: g) k = g.get? k := by
  simp [get?, other]

theorem get?_cons_eq_none_iff {k' : Key} {value : k'.form.Value} :
    get? (⟨k', value⟩ :: g) k = none ↔ k' ≠ k ∧ g.get? k = none := by
  by_cases same : k' = k
  · subst same
    simp
  · simp [get?_cons_of_ne same, same]

theorem has_eq_false_iff : g.has k = false ↔ g.get? k = none := by
  induction g with
  | nil => simp [has, get?]
  | cons e g ih =>
      have whole : has (e :: g) k = (decide (e.key = k) || has g k) := rfl
      rw [whole, Bool.or_eq_false_iff, ih, decide_eq_false_iff_not]
      exact get?_cons_eq_none_iff.symm

theorem add_eq_ok_iff :
    g.add k raw = .ok g' ↔ g.get? k = none ∧ ∃ v, readValue k raw = .ok v ∧ g' = ⟨k, v⟩ :: g := by
  unfold add
  cases held : g.has k with
  | true =>
      have taken : g.get? k ≠ none := fun free => by
        rw [has_eq_false_iff.2 free] at held
        exact Bool.false_ne_true held
      simp [taken]
  | false =>
      rw [has_eq_false_iff] at held
      cases readValue k raw with
      | error refusal => simp [Except.map]
      | ok value => simp [Except.map, held, eq_comm]

theorem take_eq_ok_iff :
    g.take (k, raw) = .ok g' ↔ (k ≠ .help ∧ k ≠ .version) ∧ g.get? k = none ∧
      ∃ v, readValue k raw = .ok v ∧ g' = ⟨k, v⟩ :: g := by
  rw [← add_eq_ok_iff]
  cases k <;> simp [take]

/-! ## The uses -/

theorem foldlM_cons_eq_ok_iff {α : Type} {f : Given → α → Except Refusal Given} (a : α)
    (as : List α) :
    (a :: as).foldlM f g = .ok g' ↔ ∃ next, f g a = .ok next ∧ as.foldlM f next = .ok g' := by
  rw [List.foldlM_cons]
  cases f g a <;> simp [bind, Except.bind]

/-- Uses are taken in if no option is among them twice, none asks for help or the version and all
values can be read. -/
theorem takes_iff (uses : List Use) : ∀ g : Given,
    (∃ g', uses.foldlM take g = .ok g') ↔
      (uses.map Prod.fst).Nodup ∧ (∀ k ∈ uses.map Prod.fst, k ≠ .help ∧ k ≠ .version) ∧
        (∀ k ∈ uses.map Prod.fst, g.get? k = none) ∧
        ∀ u ∈ uses, ∃ v, readValue u.1 u.2 = .ok v := by
  induction uses with
  | nil => intro g; simp [pure, Except.pure]
  | cons u uses ih =>
      intro g
      obtain ⟨k, raw⟩ := u
      constructor
      · intro ⟨g', taken⟩
        obtain ⟨next, first, rest⟩ := (foldlM_cons_eq_ok_iff _ _).1 taken
        obtain ⟨unanswered, free, v, readable, rfl⟩ := take_eq_ok_iff.1 first
        obtain ⟨distinct, others, frees, readables⟩ := (ih _).1 ⟨g', rest⟩
        refine ⟨List.nodup_cons.2 ⟨?_, distinct⟩, ?_, ?_, ?_⟩
        · intro again
          exact (get?_cons_eq_none_iff.1 (frees k again)).1 rfl
        · exact List.forall_mem_cons.2 ⟨unanswered, others⟩
        · have others := fun k mem => (get?_cons_eq_none_iff.1 (frees k mem)).2
          exact List.forall_mem_cons.2 ⟨free, others⟩
        · exact List.forall_mem_cons.2 ⟨⟨v, readable⟩, readables⟩
      · intro ⟨distinct, unanswered, frees, readables⟩
        obtain ⟨fresh, distinct⟩ := List.nodup_cons.1 distinct
        obtain ⟨first, unanswered⟩ := List.forall_mem_cons.1 unanswered
        obtain ⟨free, frees⟩ := List.forall_mem_cons.1 frees
        obtain ⟨⟨v, readable⟩, readables⟩ := List.forall_mem_cons.1 readables
        have next := take_eq_ok_iff.2 ⟨first, free, v, readable, rfl⟩
        obtain ⟨g', rest⟩ := (ih (⟨k, v⟩ :: g)).2 ⟨distinct, unanswered, fun k' mem =>
          get?_cons_eq_none_iff.2 ⟨fun same => fresh (same ▸ mem), frees k' mem⟩, readables⟩
        exact ⟨g', (foldlM_cons_eq_ok_iff _ _).2 ⟨_, next, rest⟩⟩

theorem get?_of_takes (uses : List Use) : ∀ {g g' : Given}, uses.foldlM take g = .ok g' →
    ∀ k, g'.get? k = ((uses.lookup k).bind (valueOf? k)).or (g.get? k) := by
  induction uses with
  | nil =>
      intro g g' taken k
      obtain rfl : g = g' := Except.ok.inj taken
      rfl
  | cons u uses ih =>
      intro g g' taken k
      obtain ⟨k', raw⟩ := u
      obtain ⟨next, first, rest⟩ := (foldlM_cons_eq_ok_iff _ _).1 taken
      obtain ⟨-, free, v, readable, rfl⟩ := take_eq_ok_iff.1 first
      rw [ih rest k]
      by_cases same : k' = k
      · obtain rfl := same
        -- it is not used again
        have once : uses.lookup k' = none := by
          rw [List.lookup_eq_none_iff]
          intro u mem
          have frees := ((takes_iff uses _).1 ⟨g', rest⟩).2.2.1 u.1 (List.mem_map_of_mem mem)
          exact bne_iff_ne.2 (get?_cons_eq_none_iff.1 frees).1
        rw [once, List.lookup_cons_self, get?_cons_self]
        simp [valueOf?, readable, Except.toOption]
      · have other : (k == k') = false := beq_eq_false_iff_ne.2 (Ne.symm same)
        rw [List.lookup_cons, other, get?_cons_of_ne same]

/-! ## The variables -/

/-- Takes in the option's variable unless the option is given. -/
def fill (env : Environment) (g : Given) (k : Key) : Except Refusal Given :=
  match ambient? env k with
  | some raw => if g.has k then .ok g else g.add k raw
  | none => .ok g

theorem complete_eq_foldlM (env : Environment) (ks : List Key) : ∀ g : Given,
    complete env ks g = ks.foldlM (fill env) g := by
  induction ks with
  | nil => intro g; rfl
  | cons k ks ih =>
      intro g
      rw [List.foldlM_cons, fill, complete]
      change (match ambient? env k with
        | some raw => _
        | none => _) = _
      cases ambient? env k with
      | none => exact ih g
      | some raw =>
          cases g.has k with
          | true => exact ih g
          | false =>
              simp only [Bool.false_eq_true, if_false]
              cases g.add k raw with
              | error refusal => rfl
              | ok next => exact ih next

theorem fill_of_given (given : g.get? k ≠ none) : fill env g k = .ok g := by
  have held : g.has k = true := by
    rw [← Bool.not_eq_false]
    exact fun free => given (has_eq_false_iff.1 free)
  unfold fill
  rw [held]
  cases ambient? env k <;> rfl

theorem fill_of_free (free : g.get? k = none) :
    fill env g k = match ambient? env k with
      | some raw => g.add k raw
      | none => .ok g := by
  unfold fill
  rw [has_eq_false_iff.2 free]
  rfl

theorem fill_isOk_iff :
    (∃ g', fill env g k = .ok g') ↔
      (g.get? k = none → ∀ raw, ambient? env k = some raw → ∃ v, readValue k raw = .ok v) := by
  by_cases free : g.get? k = none
  · rw [fill_of_free free]
    cases same : ambient? env k with
    | none => simp
    | some raw =>
        constructor
        · intro ⟨g', filled⟩ _ raw' same'
          obtain rfl := Option.some.inj same'
          obtain ⟨-, v, readable, -⟩ := add_eq_ok_iff.1 filled
          exact ⟨v, readable⟩
        · intro readable
          obtain ⟨v, readable⟩ := readable free raw rfl
          exact ⟨_, add_eq_ok_iff.2 ⟨free, v, readable, rfl⟩⟩
  · rw [fill_of_given free]
    simp [free]

theorem get?_of_fill {k' : Key} (filled : fill env g k = .ok g') :
    g'.get? k' =
      (g.get? k').or (if k' = k then (ambient? env k').bind (valueOf? k') else none) := by
  by_cases free : g.get? k = none
  · rw [fill_of_free free] at filled
    cases same : ambient? env k with
    | none =>
        rw [same] at filled
        obtain rfl : g = g' := Except.ok.inj filled
        by_cases own : k' = k
        · obtain rfl := own
          rw [same, Option.bind_none, ite_self, Option.or_none]
        · rw [if_neg own, Option.or_none]
    | some raw =>
        rw [same] at filled
        obtain ⟨-, v, readable, rfl⟩ := add_eq_ok_iff.1 filled
        by_cases own : k' = k
        · obtain rfl := own
          rw [get?_cons_self, free, if_pos rfl, same]
          simp [valueOf?, readable, Except.toOption]
        · rw [get?_cons_of_ne (Ne.symm own), if_neg own, Option.or_none]
  · rw [fill_of_given free] at filled
    obtain rfl : g = g' := Except.ok.inj filled
    by_cases own : k' = k
    · obtain rfl := own
      obtain ⟨v, given⟩ := Option.ne_none_iff_exists'.1 free
      rw [given, Option.some_or]
    · rw [if_neg own, Option.or_none]

theorem get?_of_fills (ks : List Key) : ∀ {g g' : Given}, ks.foldlM (fill env) g = .ok g' →
    ∀ k, g'.get? k =
      (g.get? k).or (if k ∈ ks then (ambient? env k).bind (valueOf? k) else none) := by
  induction ks with
  | nil =>
      intro g g' filled k
      obtain rfl : g = g' := Except.ok.inj filled
      simp
  | cons k' ks ih =>
      intro g g' filled k
      obtain ⟨next, first, rest⟩ := (foldlM_cons_eq_ok_iff _ _).1 filled
      rw [ih rest k, get?_of_fill first, Option.or_assoc]
      congr 1
      by_cases own : k = k'
      · have mem : k ∈ k' :: ks := own ▸ List.mem_cons_self
        rw [if_pos own, if_pos mem]
        split
        · exact Option.or_self
        · exact Option.or_none
      · rw [if_neg own, Option.none_or]
        simp [own]

/-- Of the variables only those of options that are not given have to be readable. -/
theorem fills_iff (ks : List Key) (distinct : ks.Nodup) : ∀ g : Given,
    (∃ g', ks.foldlM (fill env) g = .ok g') ↔
      ∀ k ∈ ks, g.get? k = none → ∀ raw, ambient? env k = some raw →
        ∃ v, readValue k raw = .ok v := by
  induction ks with
  | nil => intro g; simp [pure, Except.pure]
  | cons k ks ih =>
      intro g
      obtain ⟨fresh, distinct⟩ := List.nodup_cons.1 distinct
      have later {next : Given} (first : fill env g k = .ok next) {k' : Key} (mem : k' ∈ ks) :
          next.get? k' = g.get? k' := by
        have other : k' ≠ k := fun same => fresh (same ▸ mem)
        rw [get?_of_fill first, if_neg other, Option.or_none]
      rw [List.forall_mem_cons, ← fill_isOk_iff]
      constructor
      · intro ⟨g', filled⟩
        obtain ⟨next, first, rest⟩ := (foldlM_cons_eq_ok_iff _ _).1 filled
        refine ⟨⟨next, first⟩, fun k' mem free => ?_⟩
        exact (ih distinct next).1 ⟨g', rest⟩ k' mem ((later first mem).trans free)
      · intro ⟨⟨next, first⟩, readable⟩
        obtain ⟨g', rest⟩ := (ih distinct next).2 fun k' mem free =>
          readable k' mem ((later first mem).symm.trans free)
        exact ⟨g', (foldlM_cons_eq_ok_iff _ _).2 ⟨next, first, rest⟩⟩

/-- The variables of options that are given are not looked at. -/
theorem fills_congr {env' : Environment} (ks : List Key) : ∀ {g : Given},
    (∀ k, g.get? k = none → ambient? env' k = ambient? env k) →
      ks.foldlM (fill env') g = ks.foldlM (fill env) g := by
  induction ks with
  | nil => intro g _; rfl
  | cons k ks ih =>
      intro g same
      have first : fill env' g k = fill env g k := by
        by_cases free : g.get? k = none
        · rw [fill_of_free free, fill_of_free free, same k free]
        · rw [fill_of_given free, fill_of_given free]
      rw [List.foldlM_cons, List.foldlM_cons, first]
      cases filled : fill env g k with
      | error refusal => rfl
      | ok next =>
          apply ih
          intro k' free
          rw [get?_of_fill filled, Option.or_eq_none_iff] at free
          exact same k' free.1

/-! ## What settings are made of -/

theorem invocation_congr (same : ∀ k, g.get? k = g'.get? k) : g.invocation = g'.invocation := by
  have flags (k : Key) (flag : k.form = .flag) : g.raised k flag = g'.raised k flag := by
    unfold raised
    rw [same]
  simp only [invocation, settings, level, same, flags .sidecarTlsEnabled rfl, flags .debug rfl,
    flags .verbose rfl, flags .quiet rfl, flags .validate rfl, flags .print rfl]

theorem told_settings (setting : k.isSetting = true) :
    told g.settings k = (g.get? k).or (told Settings.default k) := by
  cases k with
  | debug | verbose | quiet | logFormat | validate | print | help | version =>
      exact absurd setting Bool.false_ne_true
  | sidecarBundle | serverName | clientCa | clientCert | clientKey => exact Option.or_none.symm
  | sidecarTlsEnabled =>
      have flag : g.settings.sidecar.tlsEnabled = (g.get? .sidecarTlsEnabled).getD false := by
        simp only [settings, raised]
        cases g.get? .sidecarTlsEnabled <;> rfl
      rw [told, flag]
      exact Option.or_some.symm
  | _ =>
      rw [told, told]
      exact Option.or_some.symm

end Given

/-! ## Command lines -/

theorem Key.all_nodup : Key.all.Nodup := by decide

theorem read_eq_of_spells {args : List Bytes} (spelled : Spells args uses) (env : Environment) :
    read args env = (uses.foldlM Given.take []).bind (Key.all.foldlM (Given.fill env)) := by
  rw [read_of_spells spelled]
  congr 1
  funext g
  exact Given.complete_eq_foldlM env Key.all g

theorem read_eq_ok_iff {args : List Bytes} (spelled : Spells args uses) :
    read args env = .ok g ↔
      ∃ given, uses.foldlM Given.take [] = .ok given ∧
        Key.all.foldlM (Given.fill env) given = .ok g := by
  rw [read_eq_of_spells spelled]
  cases uses.foldlM Given.take [] <;> simp [Except.bind]

theorem mem_of_lookup (used : uses.lookup k = some raw) : (k, raw) ∈ uses := by
  obtain ⟨before, after, rfl, -⟩ := List.lookup_eq_some_iff.1 used
  exact List.mem_append_right before List.mem_cons_self

theorem lookup_eq_some_iff_mem (distinct : (uses.map Prod.fst).Nodup) :
    uses.lookup k = some raw ↔ (k, raw) ∈ uses := by
  constructor
  · exact mem_of_lookup
  · intro mem
    obtain ⟨before, after, rfl⟩ := List.append_of_mem mem
    refine List.lookup_eq_some_iff.2 ⟨before, after, rfl, fun u earlier => bne_iff_ne.2 ?_⟩
    intro same
    rw [List.map_append, List.map_cons] at distinct
    have apart := List.disjoint_of_nodup_append distinct
    exact apart (List.mem_map_of_mem earlier) (same ▸ List.mem_cons_self)

theorem lookup_eq_none_iff_not_mem : uses.lookup k = none ↔ k ∉ uses.map Prod.fst := by
  rw [List.lookup_eq_none_iff]
  constructor
  · intro unused used
    obtain ⟨u, mem, rfl⟩ := List.mem_map.1 used
    exact bne_iff_ne.1 (unused u mem) rfl
  · intro unused u mem
    exact bne_iff_ne.2 fun same => unused (same ▸ List.mem_map_of_mem mem)

/-- What is used has a value. -/
theorem value_of_used {given : Given} (taken : uses.foldlM Given.take [] = .ok given)
    (used : uses.lookup k = some raw) : ∃ v, valueOf? k raw = some v ∧ given.get? k = some v := by
  obtain ⟨-, -, -, readable⟩ := (Given.takes_iff uses []).1 ⟨given, taken⟩
  obtain ⟨v, readable⟩ := readable (k, raw) (mem_of_lookup used)
  have value : valueOf? k raw = some v := congrArg Except.toOption readable
  refine ⟨v, value, ?_⟩
  rw [Given.get?_of_takes _ taken, used, Option.bind_some, value, Option.some_or]

theorem free_iff {given : Given} (taken : uses.foldlM Given.take [] = .ok given) :
    given.get? k = none ↔ k ∉ uses.map Prod.fst := by
  rw [← lookup_eq_none_iff_not_mem]
  cases used : uses.lookup k with
  | none =>
      rw [Given.get?_of_takes _ taken, used, Option.bind_none, Option.none_or]
      exact iff_of_true rfl rfl
  | some raw =>
      obtain ⟨v, -, given⟩ := value_of_used taken used
      simp [given]

/-- Every option has the value of its source. -/
theorem get?_of_read {args : List Bytes} (spelled : Spells args uses)
    (accepted : read args env = .ok g) (k : Key) :
    g.get? k = (source? uses env k).bind (valueOf? k) := by
  obtain ⟨given, taken, filled⟩ := (read_eq_ok_iff spelled).1 accepted
  rw [Given.get?_of_fills _ filled, if_pos k.mem_all, source?]
  cases used : uses.lookup k with
  | none =>
      rw [(free_iff taken).2 (lookup_eq_none_iff_not_mem.1 used)]
      rfl
  | some raw =>
      obtain ⟨v, value, given⟩ := value_of_used taken used
      rw [given, Option.some_or, Option.some_or, Option.bind_some, value]

/-- What a command line needs in order to be accepted: no option is used twice, neither help nor the
version is asked for, and every source can be read. -/
structure Acceptable (uses : List Use) (env : Environment) : Prop where
  distinct : (uses.map Prod.fst).Nodup
  unanswered : ∀ k ∈ uses.map Prod.fst, k ≠ .help ∧ k ≠ .version
  readable : ∀ k raw, source? uses env k = some raw → ∃ v, readValue k raw = .ok v

theorem read_isOk_iff {args : List Bytes} (spelled : Spells args uses) :
    (∃ g, read args env = .ok g) ↔ Acceptable uses env := by
  constructor
  · intro ⟨g, accepted⟩
    obtain ⟨given, taken, filled⟩ := (read_eq_ok_iff spelled).1 accepted
    obtain ⟨distinct, unanswered, -, readable⟩ := (Given.takes_iff uses []).1 ⟨given, taken⟩
    refine ⟨distinct, unanswered, fun k raw from_ => ?_⟩
    cases used : uses.lookup k with
    | some raw' =>
        rw [source?, used, Option.some_or] at from_
        obtain rfl := Option.some.inj from_
        exact readable _ (mem_of_lookup used)
    | none =>
        rw [source?, used, Option.none_or] at from_
        have free := (free_iff taken).2 (lookup_eq_none_iff_not_mem.1 used)
        exact (Given.fills_iff Key.all Key.all_nodup given).1 ⟨g, filled⟩ k k.mem_all free raw from_
  · intro acceptable
    have readable : ∀ u ∈ uses, ∃ v, readValue u.1 u.2 = .ok v := by
      intro u mem
      apply acceptable.readable u.1 u.2
      rw [source?, (lookup_eq_some_iff_mem acceptable.distinct).2 mem, Option.some_or]
    obtain ⟨given, taken⟩ := (Given.takes_iff uses []).2
      ⟨acceptable.distinct, acceptable.unanswered, fun _ _ => rfl, readable⟩
    have fillable : ∀ k ∈ Key.all, given.get? k = none → ∀ raw, ambient? env k = some raw →
        ∃ v, readValue k raw = .ok v := by
      intro k _ free raw from_
      apply acceptable.readable k raw
      rw [source?, lookup_eq_none_iff_not_mem.2 ((free_iff taken).1 free), Option.none_or, from_]
    obtain ⟨g, filled⟩ := (Given.fills_iff Key.all Key.all_nodup given).2 fillable
    exact ⟨g, (read_eq_ok_iff spelled).2 ⟨given, taken, filled⟩⟩

/-! ## Other spellings -/

theorem Key.argument_injective {k k' : Key} (same : k.argument = k'.argument) : k = k' := by
  have names := (List.cons.inj (List.cons.inj same).2).2
  have long : k.long = k'.long := by
    apply Option.some.inj
    rw [← Bytes.toString?_ofString, ← Bytes.toString?_ofString, names]
  apply Option.some.inj
  rw [← Key.ofLong?_long, ← Key.ofLong?_long, long]

theorem Key.joined_ne_argument (k k' : Key) (value : Bytes) : k.joined value ≠ k'.argument := by
  intro same
  have mem : (61 : UInt8) ∈ k'.argument := by
    rw [← same]
    exact List.mem_append_right _ List.mem_cons_self
  have name : (61 : UInt8) ∈ Bytes.ofString k'.long := by
    simpa [Key.argument] using mem
  exact k'.no_equals 61 name rfl

/-- An option and its value may be joined wherever they stand apart. -/
theorem Spells.rejoin {args : List Bytes} (spelled : Spells args uses) :
    ∀ {before after : List Bytes}, k.form ≠ .flag → args = before ++ k.argument :: raw :: after →
      Spells (before ++ k.joined raw :: after) uses := by
  induction spelled with
  | done => intro before after _ same; simp at same
  | closed => intro before after _ same; cases before <;> simp at same
  | @apart k' value args uses valued loose rest ih =>
      intro before after flagless same
      rcases before with _ | ⟨first, _ | ⟨second, before⟩⟩
      · obtain ⟨name, same⟩ := List.cons.inj same
        obtain ⟨rfl, rfl⟩ := List.cons.inj same
        obtain rfl := Key.argument_injective name
        exact .joined valued rest
      · -- the option itself would be a value, which is loose
        obtain ⟨rfl, same⟩ := List.cons.inj (List.cons.inj same).2
        exact absurd loose (by simp [Loose, Key.argument])
      · obtain ⟨rfl, tail⟩ := List.cons.inj same
        obtain ⟨rfl, more⟩ := List.cons.inj tail
        exact .apart valued loose (ih flagless more)
  | @joined k' value args uses valued rest ih =>
      intro before after flagless same
      cases before with
      | nil => exact absurd (List.cons.inj same).1 (k'.joined_ne_argument k value)
      | cons first before =>
          obtain ⟨rfl, tail⟩ := List.cons.inj same
          exact .joined valued (ih flagless tail)
  | @named k' args uses flag rest ih =>
      intro before after flagless same
      cases before with
      | nil =>
          obtain rfl := Key.argument_injective (List.cons.inj same).1
          exact absurd flag flagless
      | cons first before =>
          obtain ⟨rfl, tail⟩ := List.cons.inj same
          exact .named flag (ih flagless tail)
  | @letters cs ks args uses filled known rest ih =>
      intro before after flagless same
      cases before with
      | nil =>
          obtain ⟨b, bytes, letter, encoded⟩ := Key.encode_shorts filled known
          have name := (List.cons.inj (List.cons.inj same).1).2
          rw [encoded] at name
          exact absurd (List.cons.inj name).1 letter
      | cons first before =>
          obtain ⟨rfl, tail⟩ := List.cons.inj same
          exact .letters filled known (ih flagless tail)

/-! ## The law -/

/-- The setting is what the option's source says, or else the default. -/
def Sourced (uses : List Use) (env : Environment) (s : Settings) (k : Key) : Prop :=
  match source? uses env k with
  | some raw => ∃ v, readValue k raw = .ok v ∧ told s k = some v
  | none => told s k = told Settings.default k

/-- What an accepted command line says of the settings. -/
structure SourceLaw (args : List Bytes) (env : Environment) : Prop where
  accepted_iff : (∃ i, invocation args env = .ok i) ↔ ∃ uses, Spells args uses ∧ Acceptable uses env
  /-- The settings are the ones of which each has its own source. -/
  sourced : ∀ uses i, Spells args uses → invocation args env = .ok i → ∀ s, s = i.settings ↔
    ∀ k, k.isSetting = true → Sourced uses env s k
  /-- A source is read by the form of its option. -/
  readable : ∀ k raw v, readValue k raw = .ok v ↔ k.form.Tells raw v
  /-- Whatever else is used, and whatever the other variables are, the setting is the same. -/
  alone : ∀ uses i args' env' uses' i', Spells args uses → invocation args env = .ok i →
    Spells args' uses' → invocation args' env' = .ok i' → ∀ k, k.isSetting = true →
      source? uses env k = source? uses' env' k → told i.settings k = told i'.settings k
  /-- The variables of the options that are used may be anything. -/
  hidden : ∀ uses env', Spells args uses →
    (∀ k, k ∉ uses.map Prod.fst → ambient? env' k = ambient? env k) →
      invocation args env' = invocation args env
  /-- The same uses in any order, each of them spelled in any way. -/
  reordered : ∀ uses i args' uses', Spells args uses → invocation args env = .ok i →
    Spells args' uses' → uses'.Perm uses → invocation args' env = .ok i
  rejoined : ∀ (before after : List Bytes) (k : Key) (value : Bytes) (i : Invocation),
    k.form ≠ .flag → args = before ++ k.argument :: value :: after →
      invocation args env = .ok i → invocation (before ++ k.joined value :: after) env = .ok i

theorem invocation_eq_ok_iff {args : List Bytes} {i : Invocation} :
    invocation args env = .ok i ↔ ∃ g, read args env = .ok g ∧ g.invocation = i := by
  unfold invocation
  cases read args env <;> simp [Except.map]

theorem Given.invocation_settings (g : Given) : g.invocation.settings = g.settings := rfl

theorem sourced_settings {args : List Bytes} {i : Invocation} (spelled : Spells args uses)
    (accepted : invocation args env = .ok i) (setting : k.isSetting = true) :
    Sourced uses env i.settings k := by
  obtain ⟨g, parsed, rfl⟩ := invocation_eq_ok_iff.1 accepted
  have acceptable := (read_isOk_iff spelled).1 ⟨g, parsed⟩
  have told_ := Given.told_settings (g := g) setting
  rw [get?_of_read spelled parsed] at told_
  rw [Given.invocation_settings]
  unfold Sourced
  cases from_ : source? uses env k with
  | none =>
      rw [from_, Option.bind_none, Option.none_or] at told_
      exact told_
  | some raw =>
      obtain ⟨v, readable⟩ := acceptable.readable k raw from_
      have value : valueOf? k raw = some v := congrArg Except.toOption readable
      rw [from_, Option.bind_some, value, Option.some_or] at told_
      exact ⟨v, readable, told_⟩

theorem told_eq_of_sourced {uses' : List Use} {env' : Environment} {s s' : Settings}
    (first : Sourced uses env s k) (second : Sourced uses' env' s' k)
    (same : source? uses env k = source? uses' env' k) : told s k = told s' k := by
  unfold Sourced at first second
  rw [← same] at second
  cases from_ : source? uses env k with
  | none =>
      simp only [from_] at first second
      rw [first, second]
  | some raw =>
      simp only [from_] at first second
      obtain ⟨v, readable, first⟩ := first
      obtain ⟨v', readable', second⟩ := second
      obtain rfl := Except.ok.inj (readable.symm.trans readable')
      rw [first, second]

theorem bind_congr_ok {ε α β : Type} {x : Except ε α} {f f' : α → Except ε β}
    (same : ∀ a, x = .ok a → f a = f' a) : x.bind f = x.bind f' := by
  cases x with
  | error refusal => rfl
  | ok a => exact same a rfl

theorem hidden_of_spells {args : List Bytes} {env' : Environment} (spelled : Spells args uses)
    (same : ∀ k, k ∉ uses.map Prod.fst → ambient? env' k = ambient? env k) :
    read args env' = read args env := by
  rw [read_eq_of_spells spelled, read_eq_of_spells spelled]
  apply bind_congr_ok
  intro given taken
  exact Given.fills_congr _ fun k free => same k ((free_iff taken).1 free)

theorem source?_perm {uses' : List Use} (distinct : (uses.map Prod.fst).Nodup)
    (perm : uses'.Perm uses) (env : Environment) (k : Key) :
    source? uses' env k = source? uses env k := by
  have distinct' : (uses'.map Prod.fst).Nodup := (perm.map Prod.fst).nodup_iff.2 distinct
  have same : uses'.lookup k = uses.lookup k := by
    apply Option.ext
    intro raw
    rw [lookup_eq_some_iff_mem distinct', lookup_eq_some_iff_mem distinct]
    exact perm.mem_iff
  rw [source?, same, source?]

theorem reordered_of_spells {args args' : List Bytes} {uses' : List Use}
    (spelled : Spells args uses) (accepted : read args env = .ok g) (spelled' : Spells args' uses')
    (perm : uses'.Perm uses) : ∃ g', read args' env = .ok g' ∧ g'.invocation = g.invocation := by
  have acceptable := (read_isOk_iff spelled).1 ⟨g, accepted⟩
  have sources := source?_perm acceptable.distinct perm env
  have keys {k : Key} : k ∈ uses'.map Prod.fst ↔ k ∈ uses.map Prod.fst := (perm.map _).mem_iff
  obtain ⟨g', accepted'⟩ := (read_isOk_iff spelled').2
    { distinct := (perm.map Prod.fst).nodup_iff.2 acceptable.distinct
      unanswered := fun k mem => acceptable.unanswered k (keys.1 mem)
      readable := fun k raw from_ => acceptable.readable k raw (sources k ▸ from_) }
  refine ⟨g', accepted', Given.invocation_congr fun k => ?_⟩
  rw [get?_of_read spelled' accepted', get?_of_read spelled accepted, sources k]

theorem invocation_sources (args : List Bytes) (env : Environment) : SourceLaw args env where
  accepted_iff := by
    constructor
    · intro ⟨i, accepted⟩
      obtain ⟨g, accepted, -⟩ := invocation_eq_ok_iff.1 accepted
      obtain ⟨uses, spelled⟩ := exists_spells_of_read accepted
      exact ⟨uses, spelled, (read_isOk_iff spelled).1 ⟨g, accepted⟩⟩
    · intro ⟨uses, spelled, acceptable⟩
      obtain ⟨g, accepted⟩ := (read_isOk_iff spelled).2 acceptable
      exact ⟨_, invocation_eq_ok_iff.2 ⟨g, accepted, rfl⟩⟩
  sourced := by
    intro uses i spelled accepted s
    constructor
    · intro same k setting
      rw [same]
      exact sourced_settings spelled accepted setting
    · intro sourced
      apply eq_of_told
      intro k setting
      exact told_eq_of_sourced (sourced k setting) (sourced_settings spelled accepted setting) rfl
  readable := readValue_eq_ok_iff
  alone := by
    intro uses i args' env' uses' i' spelled accepted spelled' accepted' k setting same
    exact told_eq_of_sourced (sourced_settings spelled accepted setting)
      (sourced_settings spelled' accepted' setting) same
  hidden := by
    intro uses env' spelled same
    rw [invocation, invocation, hidden_of_spells spelled same]
  reordered := by
    intro uses i args' uses' spelled accepted spelled' perm
    obtain ⟨g, parsed, rfl⟩ := invocation_eq_ok_iff.1 accepted
    exact invocation_eq_ok_iff.2 (reordered_of_spells spelled parsed spelled' perm)
  rejoined := by
    intro before after k value i flagless same accepted
    obtain ⟨g, parsed, rfl⟩ := invocation_eq_ok_iff.1 accepted
    obtain ⟨uses, spelled⟩ := exists_spells_of_read parsed
    exact invocation_eq_ok_iff.2
      (reordered_of_spells spelled parsed (spelled.rejoin flagless same) (.refl uses))

def portsGiven : List Bytes := [Key.readyPort.joined (Bytes.ofString "9000")]

def portsAround : Environment :=
  [("ETCD_WRAPPER_READY_PORT", Bytes.ofString "none"),
    ("ETCD_WRAPPER_CLIENT_PORT", Bytes.ofString "+9001")]

/-- An option, a variable and a default, with a variable that is no number and hidden. -/
theorem invocation_sources_hidden : ∃ i, invocation portsGiven portsAround = .ok i ∧
    i.settings.readyPort = 9000 ∧ i.settings.clientPort = 9001 ∧
      i.settings.waitReadySeconds = Settings.default.waitReadySeconds := by
  have laws := invocation_sources portsGiven portsAround
  have spelled : Spells portsGiven [(.readyPort, Bytes.ofString "9000")] :=
    .joined (by decide) .done
  have accepted : ∃ i, invocation portsGiven portsAround = .ok i := ⟨_, rfl⟩
  obtain ⟨i, accepted⟩ := accepted
  have sourced := (laws.sourced _ i spelled accepted i.settings).1 rfl
  obtain ⟨ready, readyRead, readyTold⟩ : ∃ v, readValue .readyPort (Bytes.ofString "9000") = .ok v ∧
    told i.settings .readyPort = some v := sourced .readyPort rfl
  obtain ⟨client, clientRead, clientTold⟩ : ∃ v,
    readValue .clientPort (Bytes.ofString "+9001") = .ok v ∧
      told i.settings .clientPort = some v := sourced .clientPort rfl
  have waits : told i.settings .waitReady = told Settings.default .waitReady :=
    sourced .waitReady rfl
  obtain rfl : ready = (9000 : UInt16) := Except.ok.inj (readyRead.symm.trans rfl)
  obtain rfl : client = (9001 : UInt16) := Except.ok.inj (clientRead.symm.trans rfl)
  exact ⟨i, accepted, Option.some.inj readyTold, Option.some.inj clientTold, Option.some.inj waits⟩

end StoreWarden.CommandLine
