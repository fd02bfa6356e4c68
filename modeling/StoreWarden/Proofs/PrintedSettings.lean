import StoreWarden.Command
import StoreWarden.Proofs.DecodedText
import StoreWarden.Proofs.PrintableSettings
import StoreWarden.Proofs.WrittenTables
import StoreWarden.Settings.Decode

/-!
# Printed settings lose nothing

Settings that can be printed are printed as a document that means them and nothing else: every
value under its name in its own table, and options that are not set left out.  Strictly read, the
document gives the settings back.  For other settings nothing is printed but a message.
-/

set_option autoImplicit false

namespace StoreWarden

namespace Toml

def Value.document : Value → Document.Value
  | .integer n => .integer n none
  | .boolean b => .boolean b none
  | .string s => .text s none

def entries (fs : Fields) : List (String × Document.Value) :=
  fs.map fun (name, value) => (name, value.document)

/-- The content of a table, without the marks of the language. -/
def Table.document (t : Table) : Document.Value :=
  .table (entries t.fields ++ t.tables.map fun (name, fs) => (name, .table (entries fs) none)) none

def Table.top? (t : Table) (name : String) : Option Value := t.fields.lookup name

def Table.under? (t : Table) (table name : String) : Option Value :=
  (t.tables.lookup table).bind (·.lookup name)

/-- A path and the string that spells it, or neither. -/
inductive ShowsPath : Option Value → Option Path → Prop where
  | missing : ShowsPath none none
  | given (text : String) : ShowsPath (some (.string text)) (some (.ofString text))

end Toml

namespace Settings

open Toml (Value Fields Table ShowsPath)

def topNames : List String :=
  ["ready_port", "client_port", "wait_ready_timeout_seconds", "crash_marker_path",
    "engine_config_path", "etcd_binary"]

def sidecarNames : List String := ["host_port", "tls_enabled", "ca_cert_bundle_path"]

def clientNames : List String := ["server_name", "ca_path", "cert_path", "key_path"]

/-- The table has every setting under its name, and no other names. -/
structure Holds (t : Table) (s : Settings) : Prop where
  readyPort : t.top? "ready_port" = some (.integer s.readyPort.toNat)
  clientPort : t.top? "client_port" = some (.integer s.clientPort.toNat)
  waitReady : t.top? "wait_ready_timeout_seconds" = some (.integer s.waitReadySeconds.toNat)
  recordPath : ShowsPath (t.top? "crash_marker_path") (some s.recordPath)
  documentPath : ShowsPath (t.top? "engine_config_path") (some s.documentPath)
  program : t.top? "etcd_binary" = some (.string s.program)
  hostPort : t.under? "sidecar" "host_port" = some (.string s.sidecar.hostPort)
  tlsEnabled : t.under? "sidecar" "tls_enabled" = some (.boolean s.sidecar.tlsEnabled)
  bundle : ShowsPath (t.under? "sidecar" "ca_cert_bundle_path") s.sidecar.bundle
  serverName : t.under? "client" "server_name" = s.client.serverName.map .string
  ca : ShowsPath (t.under? "client" "ca_path") s.client.ca
  cert : ShowsPath (t.under? "client" "cert_path") s.client.cert
  key : ShowsPath (t.under? "client" "key_path") s.client.key
  topOnly : t.fields.map Prod.fst = topNames
  tablesOnly : t.tables.map Prod.fst = ["sidecar", "client"]
  sidecarOnly : ∀ name, t.under? "sidecar" name ≠ none → name ∈ sidecarNames
  clientOnly : ∀ name, t.under? "client" name ≠ none → name ∈ clientNames

/-! ## The table -/

def pathText (p : Path) : String := p.toString?.getD ""

def pathString (p : Path) : Value := .string (pathText p)

/-- A field that is left out if it has no value. -/
def entry (name : String) (value : Option Value) : Fields := value.toList.map fun v => (name, v)

def sidecarTable (s : SidecarSettings) : Fields :=
  [("host_port", .string s.hostPort), ("tls_enabled", .boolean s.tlsEnabled)] ++
    entry "ca_cert_bundle_path" (s.bundle.map pathString)

def clientTable (c : ClientSettings) : Fields :=
  entry "server_name" (c.serverName.map .string) ++ entry "ca_path" (c.ca.map pathString) ++
    entry "cert_path" (c.cert.map pathString) ++ entry "key_path" (c.key.map pathString)

def shownTable (s : Settings) : Table where
  fields := [("ready_port", .integer s.readyPort.toNat),
    ("client_port", .integer s.clientPort.toNat),
    ("wait_ready_timeout_seconds", .integer s.waitReadySeconds.toNat),
    ("crash_marker_path", pathString s.recordPath),
    ("engine_config_path", pathString s.documentPath), ("etcd_binary", .string s.program)]
  tables := [("sidecar", sidecarTable s.sidecar), ("client", clientTable s.client)]

/-- All paths are UTF-8. -/
structure Readable (s : Settings) : Prop where
  recordPath : s.recordPath.toString?.isSome = true
  documentPath : s.documentPath.toString?.isSome = true
  bundle : ∀ p ∈ s.sidecar.bundle, p.toString?.isSome = true
  ca : ∀ p ∈ s.client.ca, p.toString?.isSome = true
  cert : ∀ p ∈ s.client.cert, p.toString?.isSome = true
  key : ∀ p ∈ s.client.key, p.toString?.isSome = true

variable {s : Settings}

theorem isPrintable_iff :
    s.isPrintable = true ↔ s.Readable ∧ s.waitReadySeconds.toNat ≤ maxNumber := by
  unfold isPrintable pathsReadable
  rw [Bool.and_eq_true, decide_eq_true_eq]
  simp only [List.all_append, List.all_cons, List.all_nil, Bool.and_true, Bool.and_eq_true,
    List.all_eq_true, Option.mem_toList]
  constructor
  · intro ⟨⟨⟨⟨⟨⟨record, document⟩, bundle⟩, ca⟩, cert⟩, key⟩, small⟩
    exact ⟨⟨record, document, bundle, ca, cert, key⟩, small⟩
  · intro ⟨readable, small⟩
    exact ⟨⟨⟨⟨⟨⟨readable.recordPath, readable.documentPath⟩, readable.bundle⟩, readable.ca⟩,
      readable.cert⟩, readable.key⟩, small⟩

theorem pathValue_eq {p : Path} (readable : p.toString?.isSome = true) :
    pathValue p = .ok (pathString p) := by
  obtain ⟨text, same⟩ := Option.isSome_iff_exists.1 readable
  rw [pathValue, pathString, pathText, same]
  rfl

theorem ofString_pathText {p : Path} (readable : p.toString?.isSome = true) :
    Path.ofString (pathText p) = p := by
  obtain ⟨text, same⟩ := Option.isSome_iff_exists.1 readable
  rw [pathText, same]
  exact Path.ofString_of_toString? same

theorem optionField_eq {α : Type} {name : String} {f : α → Except PrintFault Value} {g : α → Value}
    {value : Option α} (same : ∀ a ∈ value, f a = .ok (g a)) :
    optionField name f value = .ok (entry name (value.map g)) := by
  cases value with
  | none => rfl
  | some a =>
      rw [optionField, same a rfl]
      rfl

theorem sidecarFields_eq (readable : s.Readable) :
    sidecarFields s.sidecar = .ok (sidecarTable s.sidecar) := by
  unfold sidecarFields
  rw [optionField_eq fun p mem => pathValue_eq (readable.bundle p mem)]
  rfl

theorem clientFields_eq (readable : s.Readable) :
    clientFields s.client = .ok (clientTable s.client) := by
  unfold clientFields
  rw [optionField_eq (g := Value.string) fun _ _ => rfl,
    optionField_eq fun p mem => pathValue_eq (readable.ca p mem),
    optionField_eq fun p mem => pathValue_eq (readable.cert p mem),
    optionField_eq fun p mem => pathValue_eq (readable.key p mem)]
  rfl

theorem table_eq (readable : s.Readable) (small : s.waitReadySeconds.toNat ≤ maxNumber) :
    s.table = .ok s.shownTable := by
  have number : numberValue s.waitReadySeconds.toNat = .ok (.integer s.waitReadySeconds.toNat) :=
    if_pos small
  unfold table
  rw [number, pathValue_eq readable.recordPath, pathValue_eq readable.documentPath,
    sidecarFields_eq readable, clientFields_eq readable]
  rfl

/-! ## The names -/

theorem names_entry (name : String) (value : Option Value) :
    ((entry name value).map Prod.fst).Sublist [name] := by
  cases value with
  | none => exact List.nil_sublist _
  | some v => exact List.Sublist.refl _

theorem names_sidecarTable (s : SidecarSettings) :
    ((sidecarTable s).map Prod.fst).Sublist sidecarNames := by
  unfold sidecarTable
  rw [List.map_append]
  exact (List.Sublist.refl ["host_port", "tls_enabled"]).append (names_entry _ _)

theorem names_clientTable (c : ClientSettings) :
    ((clientTable c).map Prod.fst).Sublist clientNames := by
  unfold clientTable
  rw [List.map_append, List.map_append, List.map_append]
  exact (((names_entry _ _).append (names_entry _ _)).append (names_entry _ _)).append
    (names_entry _ _)

theorem writable_of_names {fs : Fields} {known : List String}
    (names : (fs.map Prod.fst).Sublist known) (bare : ∀ name ∈ known, Toml.IsBareName name)
    (small : ∀ field ∈ fs, field.2.Small) :
    Toml.Writable fs where
  bare field mem := bare field.1 (names.subset (List.mem_map_of_mem mem))
  small := small

theorem small_entry {α : Type} {name : String} {g : α → Value} (small : ∀ a, (g a).Small)
    (value : Option α) : ∀ field ∈ entry name (value.map g), field.2.Small := by
  intro field mem
  cases value with
  | none => exact absurd mem List.not_mem_nil
  | some a =>
      rw [List.mem_singleton.1 mem]
      exact small a

theorem writable_sidecarTable (s : SidecarSettings) : Toml.Writable (sidecarTable s) := by
  apply writable_of_names (names_sidecarTable s) (by decide)
  unfold sidecarTable
  rw [List.forall_mem_append]
  refine ⟨?_, small_entry (g := pathString) (fun _ => trivial) _⟩
  exact List.forall_mem_cons.2 ⟨trivial, List.forall_mem_singleton.2 trivial⟩

theorem writable_clientTable (c : ClientSettings) : Toml.Writable (clientTable c) := by
  apply writable_of_names (names_clientTable c) (by decide)
  unfold clientTable
  have paths (name : String) (value : Option Path) :
      ∀ field ∈ entry name (value.map pathString), field.2.Small :=
    small_entry (g := pathString) (fun _ => trivial) value
  rw [List.forall_mem_append, List.forall_mem_append, List.forall_mem_append]
  exact ⟨⟨⟨small_entry (g := Value.string) (fun _ => trivial) _, paths _ _⟩, paths _ _⟩, paths _ _⟩

theorem port_le_greatest (p : UInt16) : p.toNat ≤ Toml.greatest := by
  have bound := p.toNat_lt
  have far : (65536 : Nat) ≤ Toml.greatest := by decide
  omega

theorem writable_shownTable (small : s.waitReadySeconds.toNat ≤ maxNumber) :
    s.shownTable.Writable where
  top := by
    have names : (s.shownTable.fields.map Prod.fst).Sublist topNames := List.Sublist.refl topNames
    apply writable_of_names names (by decide)
    simp only [shownTable, List.forall_mem_cons]
    exact ⟨port_le_greatest _, port_le_greatest _, small, trivial, trivial, trivial,
      fun _ mem => nomatch mem⟩
  bare := List.forall_mem_cons.2 ⟨(by decide : Toml.IsBareName "sidecar"),
    List.forall_mem_singleton.2 (by decide : Toml.IsBareName "client")⟩
  within := List.forall_mem_cons.2
    ⟨writable_sidecarTable _, List.forall_mem_singleton.2 (writable_clientTable _)⟩
  distinct :=
    { top := (by decide : (topNames ++ ["sidecar", "client"]).Nodup)
      within := List.forall_mem_cons.2 ⟨(names_sidecarTable _).nodup (by decide),
        List.forall_mem_singleton.2 ((names_clientTable _).nodup (by decide))⟩ }

/-! ## The values -/

theorem lookup_entry_self (name : String) (value : Option Value) :
    (entry name value).lookup name = value := by
  cases value with
  | none => rfl
  | some v => exact List.lookup_cons_self

theorem lookup_entry_of_ne {name other : String} (apart : other ≠ name) (value : Option Value) :
    (entry name value).lookup other = none := by
  cases value with
  | none => rfl
  | some v =>
      have differs : (other == name) = false := beq_eq_false_iff_ne.2 apart
      simp [entry, List.lookup_cons, differs]

theorem showsPath_of_readable {p : Path} (readable : p.toString?.isSome = true) :
    ShowsPath (some (pathString p)) (some p) := by
  have shows_ := ShowsPath.given (pathText p)
  rwa [ofString_pathText readable] at shows_

theorem showsPath_map {value : Option Path} (readable : ∀ p ∈ value, p.toString?.isSome = true) :
    ShowsPath (value.map pathString) value := by
  cases value with
  | none => exact .missing
  | some p => exact showsPath_of_readable (readable p rfl)

theorem mem_names_iff {α : Type} {es : List (String × α)} {name : String} :
    name ∈ es.map Prod.fst ↔ es.lookup name ≠ none := by
  rw [ne_eq, List.lookup_eq_none_iff]
  constructor
  · intro named absent
    obtain ⟨field, mem, rfl⟩ := List.mem_map.1 named
    exact bne_iff_ne.1 (absent field mem) rfl
  · intro given
    by_contra absent
    apply given
    intro field mem
    exact bne_iff_ne.2 fun same => absent (same ▸ List.mem_map_of_mem mem)

theorem holds_shownTable (readable : s.Readable) : Holds s.shownTable s := by
  have sidecar (name : String) : s.shownTable.under? "sidecar" name =
      (sidecarTable s.sidecar).lookup name := rfl
  have client (name : String) : s.shownTable.under? "client" name =
      (clientTable s.client).lookup name := rfl
  have bundle : (sidecarTable s.sidecar).lookup "ca_cert_bundle_path" =
      s.sidecar.bundle.map pathString := by
    simp [sidecarTable, List.lookup_cons, lookup_entry_self]
  have serverName : (clientTable s.client).lookup "server_name" =
      s.client.serverName.map .string := by
    simp [clientTable, List.lookup_append, lookup_entry_self, lookup_entry_of_ne]
  have ca : (clientTable s.client).lookup "ca_path" = s.client.ca.map pathString := by
    simp [clientTable, List.lookup_append, lookup_entry_self, lookup_entry_of_ne]
  have cert : (clientTable s.client).lookup "cert_path" = s.client.cert.map pathString := by
    simp [clientTable, List.lookup_append, lookup_entry_self, lookup_entry_of_ne]
  have key : (clientTable s.client).lookup "key_path" = s.client.key.map pathString := by
    simp [clientTable, List.lookup_append, lookup_entry_self, lookup_entry_of_ne]
  exact
    { readyPort := rfl
      clientPort := rfl
      waitReady := rfl
      recordPath := showsPath_of_readable readable.recordPath
      documentPath := showsPath_of_readable readable.documentPath
      program := rfl
      hostPort := rfl
      tlsEnabled := rfl
      bundle := by rw [sidecar, bundle]; exact showsPath_map readable.bundle
      serverName := by rw [client, serverName]
      ca := by rw [client, ca]; exact showsPath_map readable.ca
      cert := by rw [client, cert]; exact showsPath_map readable.cert
      key := by rw [client, key]; exact showsPath_map readable.key
      topOnly := rfl
      tablesOnly := rfl
      sidecarOnly := fun name given => (names_sidecarTable _).subset (mem_names_iff.2 given)
      clientOnly := fun name given => (names_clientTable _).subset (mem_names_iff.2 given) }

/-! ## Reading back -/

open Document.Strict (word16 word64 path optional text boolean field)

theorem lookup_entries (fs : Fields) (name : String) :
    (Toml.entries fs).lookup name = (fs.lookup name).map Value.document := by
  induction fs with
  | nil => rfl
  | cons field fs ih =>
      change ((field.1, field.2.document) :: Toml.entries fs).lookup name = _
      rw [List.lookup_cons, List.lookup_cons, ih]
      cases name == field.1 <;> rfl

theorem natBelow_document {n bound : Nat} (inRange : n < bound) :
    Document.Strict.natBelow bound (Value.integer n).document = some n := by
  simp [Document.Strict.natBelow, Value.document, inRange]

theorem word16_document (p : UInt16) : word16 (Value.integer p.toNat).document = some p := by
  rw [word16, natBelow_document p.toNat_lt]
  simp

theorem word64_document (n : UInt64) : word64 (Value.integer n.toNat).document = some n := by
  rw [word64, natBelow_document n.toNat_lt]
  simp

section Fields

variable {names : List String} {es : List (String × Document.Value)} {i : Nat} {name : String}
  (place : names[i]? = some name)

include place

theorem getD_fields :
    (names.map (Document.Value.get? es)).getD i none = es.lookup name := by
  rw [List.getD_eq_getElem?_getD, List.getElem?_map, place]
  rfl

theorem field_of_lookup {α : Type} {d : Document.Strict.Decoder α} {default a : α}
    {v : Document.Value} (looked : es.lookup name = some v) (decoded : d v = some a) :
    field (names.map (Document.Value.get? es)) i d default = some a := by
  rw [field, getD_fields place, looked]
  exact decoded

variable {value : Option Value} (looked : es.lookup name = value.map Value.document)

include looked

theorem field_of_some {α : Type} {d : Document.Strict.Decoder α} {default a : α} {v : Value}
    (given : value = some v) (decoded : d v.document = some a) :
    field (names.map (Document.Value.get? es)) i d default = some a := by
  rw [given] at looked
  exact field_of_lookup place looked decoded

theorem field_path {p default : Path} (shown : ShowsPath value (some p)) :
    field (names.map (Document.Value.get? es)) i path default = some p := by
  cases shown
  exact field_of_lookup place looked rfl

theorem field_optional_path {p : Option Path} (shown : ShowsPath value p) :
    field (names.map (Document.Value.get? es)) i (optional path) none = some p := by
  cases shown with
  | missing =>
      rw [field, getD_fields place, looked]
      rfl
  | given text => exact field_of_lookup place looked rfl

theorem field_optional_text {text? : Option String} (given : value = text?.map .string) :
    field (names.map (Document.Value.get? es)) i (optional text) none = some text? := by
  cases text? with
  | none =>
      rw [field, getD_fields place, looked, given]
      rfl
  | some text => exact field_of_some place looked given rfl

end Fields

/-- One step of a decoder that succeeds. -/
theorem bind_of_some {α β : Type} {x : Option α} {f : α → Option β} {a : α} {b : β}
    (first : x = some a) (rest : f a = some b) : (x >>= f) = some b := by
  rw [first]
  exact rest

theorem decode_sidecar {fs : Fields} {s : SidecarSettings}
    (hostPort : fs.lookup "host_port" = some (.string s.hostPort))
    (tlsEnabled : fs.lookup "tls_enabled" = some (.boolean s.tlsEnabled))
    (bundle : ShowsPath (fs.lookup "ca_cert_bundle_path") s.bundle) :
    SidecarSettings.decode (.table (Toml.entries fs) none) = some s := by
  unfold SidecarSettings.decode
  refine bind_of_some rfl ?_
  refine bind_of_some (field_of_some rfl (lookup_entries fs _) hostPort rfl) ?_
  refine bind_of_some (field_of_some rfl (lookup_entries fs _) tlsEnabled rfl) ?_
  refine bind_of_some (field_optional_path rfl (lookup_entries fs _) bundle) ?_
  rfl

theorem decode_client {fs : Fields} {c : ClientSettings}
    (serverName : fs.lookup "server_name" = c.serverName.map .string)
    (ca : ShowsPath (fs.lookup "ca_path") c.ca) (cert : ShowsPath (fs.lookup "cert_path") c.cert)
    (key : ShowsPath (fs.lookup "key_path") c.key) :
    ClientSettings.decode (.table (Toml.entries fs) none) = some c := by
  unfold ClientSettings.decode
  refine bind_of_some rfl ?_
  refine bind_of_some (field_optional_text rfl (lookup_entries fs _) serverName) ?_
  refine bind_of_some (field_optional_path rfl (lookup_entries fs _) ca) ?_
  refine bind_of_some (field_optional_path rfl (lookup_entries fs _) cert) ?_
  refine bind_of_some (field_optional_path rfl (lookup_entries fs _) key) ?_
  rfl

theorem lookup_tables (tables : List (String × Fields)) (name : String) :
    (tables.map fun (name, fs) => (name, Document.Value.table (Toml.entries fs) none)).lookup name =
      (tables.lookup name).map fun fs => .table (Toml.entries fs) none := by
  induction tables with
  | nil => rfl
  | cons entry tables ih =>
      rw [List.map_cons, List.lookup_cons, List.lookup_cons, ih]
      cases name == entry.1 <;> rfl

/-- Names at the top come before the tables. -/
theorem lookup_top {t : Table} {name : String} (given : t.top? name ≠ none) :
    t.document.entries.lookup name = (t.top? name).map Value.document := by
  obtain ⟨v, same⟩ := Option.ne_none_iff_exists'.1 given
  rw [Toml.Table.top?] at same
  rw [Toml.Table.document, Document.Value.entries, List.lookup_append, lookup_entries,
    Toml.Table.top?, same]
  rfl

theorem lookup_table {t : Table} {name : String} (absent : t.top? name = none)
    (given : name ∈ t.tables.map Prod.fst) : ∃ fs,
      t.document.entries.lookup name = some (.table (Toml.entries fs) none) ∧
        ∀ inner, t.under? name inner = fs.lookup inner := by
  obtain ⟨fs, same⟩ := Option.ne_none_iff_exists'.1 (mem_names_iff.1 given)
  rw [Toml.Table.top?] at absent
  refine ⟨fs, ?_, fun inner => ?_⟩
  · rw [Toml.Table.document, Document.Value.entries, List.lookup_append, lookup_entries, absent,
      lookup_tables, same]
    rfl
  · rw [Toml.Table.under?, same]
    rfl

theorem ne_none_of_showsPath {value : Option Value} {p : Path} (shown : ShowsPath value (some p)) :
    value ≠ none := by
  cases shown
  exact Option.some_ne_none _

theorem decode_of_holds {t : Table} (holds : Holds t s) :
    Settings.decode t.document = some s := by
  have absent {name : String} (other : name ∉ topNames) : t.top? name = none := by
    by_contra given
    exact other (holds.topOnly ▸ mem_names_iff.2 given)
  have listed (name : String) (known : name ∈ ["sidecar", "client"]) :
      name ∈ t.tables.map Prod.fst := by
    rw [holds.tablesOnly]
    exact known
  have given {name : String} {v : Value} (same : t.top? name = some v) : t.top? name ≠ none := by
    rw [same]
    exact Option.some_ne_none v
  obtain ⟨sidecar, sidecarFound, inSidecar⟩ :=
    lookup_table (absent (by decide)) (listed "sidecar" (by decide))
  obtain ⟨client, clientFound, inClient⟩ :=
    lookup_table (absent (by decide)) (listed "client" (by decide))
  have sidecarRead := decode_sidecar (inSidecar _ ▸ holds.hostPort)
    (inSidecar _ ▸ holds.tlsEnabled) (inSidecar _ ▸ holds.bundle)
  have clientRead := decode_client (inClient _ ▸ holds.serverName) (inClient _ ▸ holds.ca)
    (inClient _ ▸ holds.cert) (inClient _ ▸ holds.key)
  unfold Settings.decode
  refine bind_of_some rfl ?_
  refine bind_of_some (field_of_some rfl (lookup_top (given holds.readyPort)) holds.readyPort
    (word16_document _)) ?_
  refine bind_of_some (field_of_some rfl (lookup_top (given holds.clientPort)) holds.clientPort
    (word16_document _)) ?_
  refine bind_of_some (field_of_some rfl (lookup_top (given holds.waitReady)) holds.waitReady
    (word64_document _)) ?_
  refine bind_of_some (field_path rfl (lookup_top (ne_none_of_showsPath holds.recordPath))
    holds.recordPath) ?_
  refine bind_of_some (field_path rfl (lookup_top (ne_none_of_showsPath holds.documentPath))
    holds.documentPath) ?_
  refine bind_of_some (field_of_some rfl (lookup_top (given holds.program)) holds.program rfl) ?_
  refine bind_of_some (field_of_lookup rfl sidecarFound sidecarRead) ?_
  refine bind_of_some (field_of_lookup rfl clientFound clientRead) ?_
  rfl

/-! ## What is printed -/

/-- What printing comes to, for any settings. -/
structure PrintLaw (s : Settings) : Prop where
  /-- The text is a document, of a table that holds the settings and gives them back. -/
  whole : s.Readable → s.waitReadySeconds.toNat ≤ Toml.greatest → ∃ text t,
    s.toToml = .ok text ∧ (∀ t', Toml.Denotes text.toList t' ↔ t' = t) ∧ Holds t s ∧
      Settings.decode t.document = some s
  refused : ¬ (s.Readable ∧ s.waitReadySeconds.toNat ≤ Toml.greatest) →
    ∃ fault, s.toToml = .error fault
  /-- The command prints the text and nothing else, or else no text. -/
  command : ∀ (w : World) args env fs i, CommandLine.invocation args env = .ok i →
    i.printOnly = true → i.settings = s → ∃ report, w.command args env fs = (some report, none) ∧
      ((∃ text, s.toToml = .ok text ∧ report = ⟨0, text, ""⟩) ∨
        ∃ fault, s.toToml = .error fault ∧
          report = ⟨1, "", "Error: " ++ fault.message ++ "\n"⟩)

theorem toToml_printed (s : Settings) : PrintLaw s where
  whole := by
    intro readable small
    refine ⟨String.ofList s.shownTable.text, s.shownTable, ?_, ?_, ?_, ?_⟩
    · rw [toToml, table_eq readable small]
      rfl
    · intro t'
      rw [String.toList_ofList]
      exact Toml.denotes_text_iff (writable_shownTable small)
    · exact holds_shownTable readable
    · exact decode_of_holds (holds_shownTable readable)
  refused := by
    intro unprintable
    have failed : s.toToml.isOk = false := by
      rw [isOk_toToml, ← Bool.not_eq_true, isPrintable_iff]
      exact unprintable
    cases same : s.toToml with
    | error fault => exact ⟨fault, rfl⟩
    | ok text =>
        rw [same] at failed
        exact absurd failed.symm Bool.false_ne_true
  command := by
    intro w args env fs i invoked printing same
    subst same
    have plan : Plan.ofArguments args env = .print i.settings.toToml := by
      rw [Plan.ofArguments, invoked]
      exact if_pos printing
    have silent : i.warning = "" := by
      unfold CommandLine.Invocation.warning
      cases i.logFormat with
      | none => rfl
      | some format => rw [printing]; rfl
    refine ⟨Report.ofText i.settings.toToml, ?_, ?_⟩
    · rw [World.command, World.upshot, plan, invoked, World.carryOut, Upshot.atOnce]
      simp only [silent, Option.map_some, String.empty_append]
    · cases i.settings.toToml with
      | ok text => exact Or.inl ⟨text, rfl, rfl⟩
      | error fault => exact Or.inr ⟨fault, rfl, rfl⟩

end Settings

end StoreWarden
