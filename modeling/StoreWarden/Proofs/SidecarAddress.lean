import Mathlib.Data.List.TakeWhile
import StoreWarden.Settings.Basic

/-!
# Which addresses of a sidecar are accepted

The rules look at the first colon of an address and at what stands before it; the address is
divided at the last.  So a colon is all that is known of an accepted address, and that neither of
two words stands before its first colon.  What stands behind the last one may be blank, and any
other scheme may be given; then the address that is built has two schemes, or no port.
-/

set_option autoImplicit false

namespace StoreWarden

namespace Text

/-- The text in the middle is what is left without the blanks around it. -/
structure Trims (cs inner : List Char) : Prop where
  around : ∃ lead trail, cs = lead ++ inner ++ trail ∧ ∀ c ∈ lead ++ trail, isBlank c = true
  first : ∀ c ∈ inner.head?, isBlank c = false
  last : ∀ c ∈ inner.getLast?, isBlank c = false

variable {cs inner : List Char}

theorem trimLeft_spec (cs : List Char) : (∃ lead, cs = lead ++ trimLeft cs ∧
    ∀ c ∈ lead, isBlank c = true) ∧ ∀ c ∈ (trimLeft cs).head?, isBlank c = false := by
  refine ⟨⟨cs.takeWhile isBlank, List.takeWhile_append_dropWhile.symm, ?_⟩, ?_⟩
  · exact fun c mem => List.mem_takeWhile_imp mem
  · intro c first
    have bound := List.head?_dropWhile_not isBlank cs
    rw [Option.mem_def, trimLeft] at first
    rwa [first] at bound

theorem trimRight_eq (cs : List Char) : trimRight cs = (trimLeft cs.reverse).reverse := rfl

theorem trims_trim (cs : List Char) : Trims cs (trim cs) := by
  obtain ⟨⟨lead, left, leads⟩, first⟩ := trimLeft_spec cs
  obtain ⟨⟨trail, right, trails⟩, last⟩ := trimLeft_spec (trimLeft cs).reverse
  have cut : trimLeft cs = trim cs ++ trail.reverse := by
    rw [trim, trimRight_eq, ← List.reverse_append, ← right, List.reverse_reverse]
  constructor
  case around =>
    refine ⟨lead, trail.reverse, ?_, ?_⟩
    · rw [List.append_assoc, ← cut, ← left]
    · intro c mem
      rcases List.mem_append.1 mem with mem | mem
      · exact leads c mem
      · exact trails c (List.mem_reverse.1 mem)
  case first =>
    intro c own
    apply first c
    rw [cut, List.head?_append, Option.mem_def.1 own]
    rfl
  case last =>
    intro c own
    apply last c
    rwa [trim, trimRight_eq, List.getLast?_reverse] at own

theorem Trims.eq_nil_iff (trims : Trims cs inner) : inner = [] ↔ isAllBlank cs = true := by
  obtain ⟨lead, trail, rfl, blank⟩ := trims.around
  rw [isAllBlank, List.all_eq_true]
  constructor
  · rintro rfl
    rwa [List.append_nil]
  · intro all
    cases inner with
    | nil => rfl
    | cons c inner =>
        have mem : c ∈ lead ++ c :: inner ++ trail := by simp
        cases (all c mem).symm.trans (trims.first c rfl)

end Text

namespace SidecarSettings

structure Divides (s : SidecarSettings) (given port : List Char) : Prop where
  whole : s.hostPort.toList = given ++ ':' :: port
  last : ':' ∉ port

/-- The address begins with a scheme, in whatever spelling, but for blanks. -/
structure Schemed (s : SidecarSettings) (lead word : List Char) : Prop where
  blank : ∀ c ∈ lead, Text.isBlank c = true
  some_ : word ≠ []
  letters : ∀ c ∈ word, c.isAlpha = true
  starts : lead ++ word ++ "://".toList <+: s.hostPort.toList

/-- The address that is built from the two parts, without the blanks around them. -/
structure Builds (s : SidecarSettings) (given port host part : List Char) : Prop where
  divides : s.Divides given port
  named : Text.Trims given host
  numbered : Text.Trims port part
  address : s.baseAddress = s.scheme ++ "://" ++
    (if host = [] then "localhost" else String.ofList host) ++ ":" ++ String.ofList part

/-- What the rules are meant to ensure. -/
structure WellFormed (s : SidecarSettings) : Prop where
  schemeless : ∀ lead word, ¬ s.Schemed lead word
  address : ∃ given port host part, s.Builds given port host part ∧ part ≠ []

/-- The two schemes that are looked for, in the one spelling that is. -/
def knownSchemes : List (List Char) := ["http".toList, "https".toList]

def Trusts (s : SidecarSettings) : Prop := s.tlsEnabled = true → s.bundleBlank = false

/-- What the rules make of an address. -/
structure AddressLaw (s : SidecarSettings) : Prop where
  accepted : s.validate = .ok () ↔ ':' ∈ s.hostPort.toList ∧
    s.hostPort.toList.takeWhile (· ≠ ':') ∉ knownSchemes ∧ s.Trusts
  /-- Any other scheme is accepted, and so are these after a blank. -/
  schemed : ∀ lead word, s.Schemed lead word →
    (s.validate = .ok () ↔ lead ++ word ∉ knownSchemes ∧ s.Trusts)
  /-- Nothing is asked of what stands behind the last colon. -/
  divided : ∀ given port, s.Divides given port →
    (s.validate = .ok () ↔ given.takeWhile (· ≠ ':') ∉ knownSchemes ∧ s.Trusts)
  built : s.validate = .ok () → ∃ given port host part, s.Builds given port host part
  /-- It is as it is meant to be exactly if nobody has given a scheme or left out the port. -/
  exact : s.validate = .ok () → (s.WellFormed ↔
    (∀ lead word, s.Schemed lead word → lead ++ word ∈ knownSchemes) ∧ s.port ≠ "")

variable {s : SidecarSettings} {given port lead word rest : List Char}

/-! ## The first colon and the last -/

theorem ne_colon (none' : ':' ∉ word) : ∀ c ∈ word, decide (c ≠ ':') = true := by
  intro c mem
  rw [decide_eq_true_eq]
  rintro rfl
  exact none' mem

theorem takeWhile_colon (none' : ':' ∉ word) :
    (word ++ ':' :: rest).takeWhile (· ≠ ':') = word := by
  rw [List.takeWhile_append_of_pos (ne_colon none'), List.takeWhile_cons_of_neg (by simp),
    List.append_nil]

theorem dropWhile_colon (none' : ':' ∉ word) :
    (word ++ ':' :: rest).dropWhile (· ≠ ':') = ':' :: rest := by
  rw [List.dropWhile_append_of_pos (ne_colon none'), List.dropWhile_cons_of_neg (by simp)]

theorem first_of_starts {cs : List Char} (none' : ':' ∉ word)
    (starts : word ++ ':' :: rest <+: cs) : ':' ∈ cs ∧ cs.takeWhile (· ≠ ':') = word := by
  obtain ⟨more, rfl⟩ := starts
  rw [List.append_assoc]
  exact ⟨by simp, takeWhile_colon none'⟩

theorem splitAtLastColon_append (none' : ':' ∉ port) :
    splitAtLastColon (given ++ ':' :: port) = some (given, port) := by
  have back : (given ++ ':' :: port).reverse = port.reverse ++ ':' :: given.reverse := by simp
  have none'' : ':' ∉ port.reverse := by simpa using none'
  simp only [splitAtLastColon, back, takeWhile_colon none'', dropWhile_colon none'',
    List.reverse_reverse]

theorem exists_divides (colon : ':' ∈ s.hostPort.toList) : ∃ given port, s.Divides given port := by
  obtain ⟨back, front, whole, none'⟩ :=
    List.eq_append_cons_of_mem (List.mem_reverse.2 colon)
  refine ⟨front.reverse, back.reverse, ?_, by simpa using none'⟩
  rw [← List.reverse_reverse s.hostPort.toList, whole]
  simp

theorem Divides.host_eq (divides : s.Divides given port) :
    s.host = if Text.trim given = [] then "localhost" else String.ofList (Text.trim given) := by
  simp only [host, divides.whole, splitAtLastColon_append divides.last, Option.map_some,
    Option.getD_some]

theorem Divides.port_eq (divides : s.Divides given port) :
    s.port = String.ofList (Text.trim port) := by
  unfold SidecarSettings.port
  rw [divides.whole, splitAtLastColon_append divides.last]

theorem Divides.builds (divides : s.Divides given port) :
    s.Builds given port (Text.trim given) (Text.trim port) := by
  refine ⟨divides, Text.trims_trim given, Text.trims_trim port, ?_⟩
  rw [baseAddress, divides.host_eq, divides.port_eq]

theorem Builds.port_eq_empty_iff {host part : List Char} (builds : s.Builds given port host part) :
    s.port = "" ↔ part = [] := by
  have same : Text.trim port = [] ↔ part = [] :=
    (Text.trims_trim port).eq_nil_iff.trans builds.numbered.eq_nil_iff.symm
  rw [builds.divides.port_eq, ← same, ← String.toList_inj, String.toList_ofList]
  rfl

/-- The first colon is where it is whatever stands behind the last. -/
theorem takeWhile_of_given (given port : List Char) :
    (given ++ ':' :: port).takeWhile (· ≠ ':') = given.takeWhile (· ≠ ':') := by
  induction given with
  | nil => simp
  | cons c given ih =>
      rw [List.cons_append, List.takeWhile_cons, List.takeWhile_cons, ih]

theorem Schemed.first (schemed : s.Schemed lead word) :
    ':' ∈ s.hostPort.toList ∧ s.hostPort.toList.takeWhile (· ≠ ':') = lead ++ word := by
  have none' : ':' ∉ lead ++ word := by
    intro mem
    rcases List.mem_append.1 mem with mem | mem
    · exact absurd (schemed.blank _ mem) (by decide)
    · exact absurd (schemed.letters _ mem) (by decide)
  exact first_of_starts none' schemed.starts

/-! ## The rules -/

theorem startsWith_iff {start : String} (none' : ':' ∉ word)
    (same : start.toList = word ++ [':']) : startsWith start s.hostPort = true ↔
      ':' ∈ s.hostPort.toList ∧ s.hostPort.toList.takeWhile (· ≠ ':') = word := by
  rw [startsWith, List.isPrefixOf_iff_prefix, same]
  constructor
  · exact first_of_starts none'
  · rintro ⟨colon, rfl⟩
    obtain ⟨front, rest, whole, none''⟩ := List.eq_append_cons_of_mem colon
    rw [whole, takeWhile_colon none'']
    exact ⟨rest, by simp⟩

theorem validate_eq_ok_iff_problems : s.validate = .ok () ↔ s.problems = [] := by
  unfold validate
  cases s.problems <;> simp

theorem validate_eq_ok_iff : s.validate = .ok () ↔ ':' ∈ s.hostPort.toList ∧
    s.hostPort.toList.takeWhile (· ≠ ':') ∉ knownSchemes ∧ s.Trusts := by
  have http : startsWith "http:" s.hostPort = true ↔ ':' ∈ s.hostPort.toList ∧
      s.hostPort.toList.takeWhile (· ≠ ':') = "http".toList :=
    startsWith_iff (by decide) (by decide)
  have https : startsWith "https:" s.hostPort = true ↔ ':' ∈ s.hostPort.toList ∧
      s.hostPort.toList.takeWhile (· ≠ ':') = "https".toList :=
    startsWith_iff (by decide) (by decide)
  have trusts : (s.tlsEnabled && s.bundleBlank) = false ↔ s.Trusts := by
    unfold Trusts
    cases s.tlsEnabled <;> simp
  rw [validate_eq_ok_iff_problems, problems, List.append_eq_nil_iff, List.append_eq_nil_iff,
    ← trusts, knownSchemes]
  by_cases colon : ':' ∈ s.hostPort.toList
  · simp [colon, http, https]
  · simp [colon]

/-! ## What is accepted -/

theorem Schemed.validate_eq_ok_iff (schemed : s.Schemed lead word) :
    s.validate = .ok () ↔ lead ++ word ∉ knownSchemes ∧ s.Trusts := by
  obtain ⟨colon, first⟩ := schemed.first
  rw [SidecarSettings.validate_eq_ok_iff, first, and_iff_right colon]

theorem Divides.validate_eq_ok_iff (divides : s.Divides given port) : s.validate = .ok () ↔
    given.takeWhile (· ≠ ':') ∉ knownSchemes ∧ s.Trusts := by
  rw [SidecarSettings.validate_eq_ok_iff, divides.whole, takeWhile_of_given,
    and_iff_right (by simp)]

theorem wellFormed_iff (accepted : s.validate = .ok ()) : s.WellFormed ↔
    (∀ lead word, s.Schemed lead word → lead ++ word ∈ knownSchemes) ∧ s.port ≠ "" := by
  constructor
  · intro wellFormed
    obtain ⟨given, port, host, part, builds, some_⟩ := wellFormed.address
    refine ⟨fun lead word schemed => absurd schemed (wellFormed.schemeless lead word), ?_⟩
    exact fun none' => some_ (builds.port_eq_empty_iff.1 none')
  · rintro ⟨known, some_⟩
    obtain ⟨given, port, divides⟩ :=
      exists_divides (SidecarSettings.validate_eq_ok_iff.1 accepted).1
    constructor
    case schemeless =>
      intro lead word schemed
      exact (schemed.validate_eq_ok_iff.1 accepted).1 (known lead word schemed)
    case address =>
      refine ⟨given, port, _, _, divides.builds, ?_⟩
      exact fun none' => some_ (divides.builds.port_eq_empty_iff.2 none')

theorem address_law (s : SidecarSettings) : AddressLaw s := by
  constructor
  case accepted => exact validate_eq_ok_iff
  case schemed => exact fun lead word => Schemed.validate_eq_ok_iff
  case divided => exact fun given port => Divides.validate_eq_ok_iff
  case built =>
    intro accepted
    obtain ⟨given, port, divides⟩ := exists_divides (validate_eq_ok_iff.1 accepted).1
    exact ⟨given, port, _, _, divides.builds⟩
  case exact => exact wellFormed_iff

def shouting : SidecarSettings := ⟨"HTTP://backup:8080", false, none⟩

def unnumbered : SidecarSettings := ⟨"backup:", false, none⟩

/-- Both are accepted, and the addresses that are built have two schemes and no port. -/
theorem malformed_accepted :
    shouting.validate = .ok () ∧ shouting.baseAddress = "http://HTTP://backup:8080" ∧
      ¬ shouting.WellFormed ∧
    unnumbered.validate = .ok () ∧ unnumbered.baseAddress = "http://backup:" ∧
      ¬ unnumbered.WellFormed := by
  have schemed : shouting.Schemed [] "HTTP".toList :=
    ⟨by simp, by decide, List.all_eq_true.1 (by decide), by decide⟩
  have accepted : unnumbered.validate = .ok () := by rfl
  refine ⟨by rfl, by decide, fun well => well.schemeless _ _ schemed, accepted, by decide, ?_⟩
  intro well
  exact ((wellFormed_iff accepted).1 well).2 (by decide)

end SidecarSettings

end StoreWarden
