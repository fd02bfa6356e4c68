import StoreWarden.Proofs.SidecarAddress

/-!
# The parts of a sidecar's address

Host and port are found by dividing a text at its last colon and trimming both sides, whatever the
text is.  Written with a colon between them they are a normal form: they are found again as they
are, and the address is the same.  So it does not matter how often an address is taken apart and
put together, and two addresses are the same exactly if their parts are.
-/

set_option autoImplicit false

namespace StoreWarden

namespace Text

/-- There are no blanks around the text. -/
structure Bare (cs : List Char) : Prop where
  first : ∀ c ∈ cs.head?, isBlank c = false
  last : ∀ c ∈ cs.getLast?, isBlank c = false

variable {cs inner lead : List Char}

theorem Trims.bare (trims : Trims cs inner) : Bare inner := ⟨trims.first, trims.last⟩

theorem Bare.trims (bare : Bare cs) : Trims cs cs :=
  ⟨⟨[], [], (List.append_nil cs).symm, by simp⟩, bare.first, bare.last⟩

theorem Trims.subset (trims : Trims cs inner) : inner ⊆ cs := by
  obtain ⟨lead, trail, rfl, -⟩ := trims.around
  intro c mem
  simp [mem]

theorem trimLeft_of_first (first : ∀ c ∈ cs.head?, isBlank c = false) : trimLeft cs = cs := by
  cases cs with
  | nil => rfl
  | cons c cs => exact List.dropWhile_cons_of_neg (by simp [first c rfl])

theorem trimLeft_append (blank : ∀ c ∈ lead, isBlank c = true) :
    trimLeft (lead ++ cs) = trimLeft cs :=
  List.dropWhile_append_of_pos blank

/-- Trimming is the only way to leave out just the blanks around a text. -/
theorem Trims.trim_eq (trims : Trims cs inner) : trim cs = inner := by
  obtain ⟨lead, trail, rfl, blank⟩ := trims.around
  obtain ⟨leads, trails⟩ := List.forall_mem_append.1 blank
  have left : trimLeft (lead ++ inner ++ trail) = trimLeft (inner ++ trail) := by
    rw [List.append_assoc, trimLeft_append leads]
  have right : trimRight (inner ++ trail) = inner := by
    rw [trimRight_eq, List.reverse_append,
      trimLeft_append (fun c mem => trails c (List.mem_reverse.1 mem)),
      trimLeft_of_first (by simpa using trims.last), List.reverse_reverse]
  rw [trim, left]
  cases some_ : inner with
  | nil =>
      have none_ : trimLeft trail = [] := by simpa [trimLeft] using trails
      rw [List.nil_append, none_]
      rfl
  | cons c rest =>
      have first : ∀ d ∈ (inner ++ trail).head?, isBlank d = false := by
        rw [some_]
        exact fun d own => trims.first d (some_ ▸ own)
      rw [← some_, trimLeft_of_first first, right]

end Text

namespace SidecarSettings

/-- A host and a port as they are found in an address. -/
structure Normal (host port : String) : Prop where
  named : host ≠ ""
  bareHost : Text.Bare host.toList
  barePort : Text.Bare port.toList
  undivided : ':' ∉ port.toList

/-- The settings with the two parts in place of the address they were found in. -/
def respelled (s : SidecarSettings) : SidecarSettings :=
  { s with hostPort := s.host ++ ":" ++ s.port }

/-- What is found in an address, and what comes of putting it together again. -/
structure PartsLaw (s : SidecarSettings) : Prop where
  normal : Normal s.host s.port
  host : s.respelled.host = s.host
  port : s.respelled.port = s.port
  address : s.respelled.baseAddress = s.baseAddress
  /-- Parts in normal form are found as they were written. -/
  found : ∀ host port, Normal host port → s.hostPort = host ++ ":" ++ port →
    s.host = host ∧ s.port = port
  /-- Blanks around them make no difference. -/
  trimmed : ∀ given number host port, s.Divides given number → Text.Trims given host.toList →
    Text.Trims number port.toList → host ≠ "" → s.host = host ∧ s.port = port
  /-- An address stays as it is exactly if it is two parts in normal form. -/
  kept : s.respelled = s ↔ ∃ host port, Normal host port ∧ s.hostPort = host ++ ":" ++ port
  /-- The parts are all that an address tells, and it tells both. -/
  told : ∀ t : SidecarSettings, t.tlsEnabled = s.tlsEnabled →
    (t.baseAddress = s.baseAddress ↔ t.host = s.host ∧ t.port = s.port)

variable {s : SidecarSettings} {given number : List Char} {host port : String}

/-! ## The two parts -/

def hostOf (given : List Char) : String :=
  if Text.trim given = [] then "localhost" else String.ofList (Text.trim given)

theorem splitAtLastColon_eq_none (none' : ':' ∉ given) : splitAtLastColon given = none := by
  have all : given.reverse.dropWhile (· ≠ ':') = [] := by
    rw [List.dropWhile_eq_nil_iff]
    exact fun c mem => ne_colon none' c (List.mem_reverse.1 mem)
  simp only [splitAtLastColon, all]

/-- Without a colon the whole text is the host, and there is no port. -/
theorem parts (s : SidecarSettings) : ∃ given number, s.host = hostOf given ∧
    s.port = String.ofList (Text.trim number) ∧ ':' ∉ number := by
  by_cases colon : ':' ∈ s.hostPort.toList
  · obtain ⟨given, number, divides⟩ := exists_divides colon
    exact ⟨given, number, divides.host_eq, divides.port_eq, divides.last⟩
  · have undivided := splitAtLastColon_eq_none colon
    refine ⟨s.hostPort.toList, [], ?_, ?_, List.not_mem_nil⟩
    · simp only [SidecarSettings.host, undivided, hostOf]
      rfl
    · simp only [SidecarSettings.port, undivided]
      rfl

theorem bare_hostOf (given : List Char) : hostOf given ≠ "" ∧ Text.Bare (hostOf given).toList := by
  unfold hostOf
  split
  case isTrue =>
    have first : "localhost".toList.head? = some 'l' := by rfl
    have last : "localhost".toList.getLast? = some 't' := by rfl
    refine ⟨by decide, ?_, ?_⟩
    · rw [first]
      rintro c ⟨⟩
      rfl
    · rw [last]
      rintro c ⟨⟩
      rfl
  case isFalse some_ =>
    rw [String.toList_ofList]
    refine ⟨fun empty => some_ ?_, (Text.trims_trim given).bare⟩
    rw [← String.toList_inj, String.toList_ofList] at empty
    exact empty

theorem normal_parts (s : SidecarSettings) : Normal s.host s.port := by
  obtain ⟨given, number, host, port, undivided⟩ := s.parts
  have trims := Text.trims_trim number
  rw [host, port]
  constructor
  case named => exact (bare_hostOf given).1
  case bareHost => exact (bare_hostOf given).2
  case barePort =>
    rw [String.toList_ofList]
    exact trims.bare
  case undivided =>
    rw [String.toList_ofList]
    exact fun colon => undivided (trims.subset colon)

/-! ## Parts in normal form -/

theorem found_of_trims (divides : s.Divides given number) (named : host ≠ "")
    (trims : Text.Trims given host.toList) (trims' : Text.Trims number port.toList) :
    s.host = host ∧ s.port = port := by
  have some_ : host.toList ≠ [] := by simpa using named
  constructor
  · rw [divides.host_eq, trims.trim_eq, if_neg some_, String.ofList_toList]
  · rw [divides.port_eq, trims'.trim_eq, String.ofList_toList]

theorem Normal.divides (normal : Normal host port) (spelled : s.hostPort = host ++ ":" ++ port) :
    s.Divides host.toList port.toList := by
  refine ⟨?_, normal.undivided⟩
  rw [spelled, String.toList_append, String.toList_append, List.append_assoc]
  rfl

theorem Normal.found (normal : Normal host port) (spelled : s.hostPort = host ++ ":" ++ port) :
    s.host = host ∧ s.port = port :=
  found_of_trims (normal.divides spelled) normal.named normal.bareHost.trims normal.barePort.trims

theorem found_respelled (s : SidecarSettings) :
    s.respelled.host = s.host ∧ s.respelled.port = s.port :=
  s.normal_parts.found rfl

theorem respelled_eq_iff : s.respelled = s ↔ s.hostPort = s.host ++ ":" ++ s.port := by
  cases s
  simp [respelled, eq_comm]

theorem baseAddress_eq (s : SidecarSettings) :
    s.baseAddress = s.scheme ++ "://" ++ s.respelled.hostPort := by
  simp only [baseAddress, respelled, String.append_assoc]

theorem baseAddress_eq_iff {t : SidecarSettings} (same : t.tlsEnabled = s.tlsEnabled) :
    t.baseAddress = s.baseAddress ↔ t.host = s.host ∧ t.port = s.port := by
  have scheme : t.scheme = s.scheme := by rw [SidecarSettings.scheme, same, SidecarSettings.scheme]
  constructor
  · intro told
    rw [baseAddress_eq, baseAddress_eq, scheme, String.append_right_inj] at told
    obtain ⟨host, port⟩ := Normal.found s.normal_parts told
    rw [← host, ← port]
    exact ⟨t.found_respelled.1.symm, t.found_respelled.2.symm⟩
  · rintro ⟨host, port⟩
    rw [baseAddress, baseAddress, scheme, host, port]

theorem parts_law (s : SidecarSettings) : PartsLaw s := by
  constructor
  case normal => exact s.normal_parts
  case host => exact s.found_respelled.1
  case port => exact s.found_respelled.2
  case address => exact (baseAddress_eq_iff (s := s) (t := s.respelled) rfl).2 s.found_respelled
  case found => exact fun host port => Normal.found
  case trimmed =>
    intro given number host port divides trims trims' named
    exact found_of_trims divides named trims trims'
  case kept =>
    rw [respelled_eq_iff]
    constructor
    · exact fun spelled => ⟨_, _, s.normal_parts, spelled⟩
    · rintro ⟨host, port, normal, spelled⟩
      obtain ⟨rfl, rfl⟩ := normal.found spelled
      exact spelled
  case told => exact fun t => baseAddress_eq_iff

example : respelled ⟨"\u2003[::1] :8080\n", false, none⟩ = ⟨"[::1]:8080", false, none⟩ := by decide

end SidecarSettings

end StoreWarden
