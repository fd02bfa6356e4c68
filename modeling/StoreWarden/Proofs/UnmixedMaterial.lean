import StoreWarden.Proofs.BrokenStartup

/-!
# Certificates and keys of two sources are never mixed

The operator and the member's document may both name the files of the readiness check, some of them
or all.  Either one of them supplies all three or there are none, and what is named in part counts
as if nothing were, `Supplied`.  The readiness server shows the certificate of the very same choice,
and speaks TLS exactly if there is one, whoever has made the check: of one launch, of any sequence
of setups and launches, and of a whole run.
-/

set_option autoImplicit false

namespace StoreWarden

/-- All three files are named. -/
structure ClientSettings.Names (client : ClientSettings) (ca cert key : Path) : Prop where
  ca : client.ca = some ca
  cert : client.cert = some cert
  key : client.key = some key

def ClientSettings.Complete (client : ClientSettings) : Prop :=
  ∃ ca cert key, client.Names ca cert key

/-- None of the three names is empty. -/
structure Engine.Settings.Complete (document : Engine.Settings) : Prop where
  ca : document.security.trustedCaFile ≠ ""
  cert : document.security.certFile ≠ ""
  key : document.security.keyFile ≠ ""

/-- What is supplied, and by whom.  The name of the member is always that of the operator. -/
inductive Tls.Supplied (client : ClientSettings) (document : Engine.Settings) :
    Option Tls.Material → Prop
  | operator {ca cert key : Path} (names : client.Names ca cert key) :
      Tls.Supplied client document (some ⟨client.serverName, ca, cert, key⟩)
  | document (silent : ¬ client.Complete) (complete : document.Complete) :
      Tls.Supplied client document (some ⟨client.serverName,
        .ofString document.security.trustedCaFile, .ofString document.security.certFile,
        .ofString document.security.keyFile⟩)
  | nobody (silent : ¬ client.Complete) (lacking : ¬ document.Complete) :
      Tls.Supplied client document none

/-- The server speaks TLS exactly if there is material, and then shows the certificate of it. -/
structure Readiness.Server.Shows (server : Readiness.Server) (material : Option Tls.Material) :
    Prop where
  tls : server.isTls = true ↔ ∃ m, material = some m
  own : ∀ m, material = some m → server.credential = some ⟨m.cert, m.key⟩

namespace Life

open Readiness (Server)

def Demand.PutsUp (s : Life) (demand : Demand) : Prop :=
  ∃ p, demand = .launch p ∧ ∀ need : Need, need.met p s = .ok ()

/-- The last launch that could be prepared has put up this server. -/
inductive PutUpLast (s : Life) : List Demand → Server → Prop
  | now {demands : List Demand} {p : Parts} {document : Engine.Settings}
      {material : Option Tls.Material} {server : Server}
      (given : (s.after demands).document = some document)
      (met : ∀ need : Need, need.met p (s.after demands) = .ok ())
      (supplied : Tls.Supplied p.settings.client document material)
      (shows : server.Shows material) : PutUpLast s (demands ++ [.launch p]) server
  | before {demands : List Demand} {demand : Demand} {server : Server}
      (before : PutUpLast s demands server) (no : ¬ demand.PutsUp (s.after demands)) :
      PutUpLast s (demands ++ [demand]) server

/-- What a launch after some demands serves, and a whole run. -/
structure Unmixed (m : Moment) (demands : List Demand) (p : Parts) (s : Life) : Prop where
  supplied : ∀ document material, Tls.Material.choose p.settings.client document = material ↔
    Tls.Supplied p.settings.client document material
  /-- One or two files that the operator names make no difference. -/
  silent : ∀ document (other : ClientSettings), ¬ p.settings.client.Complete → ¬ other.Complete →
    other.serverName = p.settings.client.serverName →
      Tls.Material.choose other document = Tls.Material.choose p.settings.client document
  /-- Who has made the check is not asked. -/
  serves : ∀ document, s.document = some document → (∀ need : Need, need.met p s = .ok ()) →
    ∃ server, (s.launch p).life.server = some server ∧
      server.Shows (Tls.Material.choose p.settings.client document) ∧
      Server.bind s.moment.files p.portFault server.credential = .ok server
  spares : ¬ (∀ need : Need, need.met p s = .ok ()) → (s.launch p).life.server = s.server
  last : ∀ server, s.server = some server ↔ PutUpLast (start m) demands server
  run : ∀ server, ((start m).run p).life.server = some server ↔ ∃ now document,
    Clears p (start m) now document ∧
      server.Shows (Tls.Material.choose p.settings.client document)

end Life

namespace Tls

variable {client other : ClientSettings} {document : Engine.Settings} {material : Option Material}

theorem choose_of_names {ca cert key : Path} (names : client.Names ca cert key) :
    Material.choose client document = some ⟨client.serverName, ca, cert, key⟩ := by
  simp only [Material.choose, names.ca, names.cert, names.key]

theorem choose_of_silent (silent : ¬ client.Complete) :
    Material.choose client document = document.clientFiles?.map fun files =>
      ⟨client.serverName, files.ca, files.cert, files.key⟩ := by
  unfold Material.choose
  split
  · rename_i ca cert key hca hcert hkey
    exact absurd ⟨ca, cert, key, hca, hcert, hkey⟩ silent
  · rfl

theorem clientFiles?_of_complete (complete : document.Complete) : document.clientFiles? =
    some ⟨.ofString document.security.certFile, .ofString document.security.keyFile,
      .ofString document.security.trustedCaFile⟩ := by
  simp [Engine.Settings.clientFiles?, complete.ca, complete.cert, complete.key]

theorem clientFiles?_of_not_complete (lacking : ¬ document.Complete) :
    document.clientFiles? = none := by
  unfold Engine.Settings.clientFiles?
  apply if_pos
  by_contra named
  apply lacking
  simp only [Bool.or_eq_true, decide_eq_true_eq, not_or] at named
  exact ⟨named.2, named.1.1, named.1.2⟩

theorem supplied_choose (client : ClientSettings) (document : Engine.Settings) :
    Supplied client document (Material.choose client document) := by
  by_cases complete : client.Complete
  · obtain ⟨ca, cert, key, names⟩ := complete
    rw [choose_of_names names]
    exact .operator names
  · rw [choose_of_silent complete]
    by_cases named : document.Complete
    · rw [clientFiles?_of_complete named]
      exact .document complete named
    · rw [clientFiles?_of_not_complete named]
      exact .nobody complete named

theorem choose_eq_iff : Material.choose client document = material ↔
    Supplied client document material := by
  constructor
  · intro same
    rw [← same]
    exact supplied_choose client document
  · intro supplied
    cases supplied with
    | operator names => exact choose_of_names names
    | document silent complete =>
        rw [choose_of_silent silent, clientFiles?_of_complete complete]
        rfl
    | nobody silent lacking =>
        rw [choose_of_silent silent, clientFiles?_of_not_complete lacking]
        rfl

theorem choose_congr_of_silent (silent : ¬ client.Complete) (silent' : ¬ other.Complete)
    (same : other.serverName = client.serverName) :
    Material.choose other document = Material.choose client document := by
  rw [choose_of_silent silent, choose_of_silent silent', same]

end Tls

namespace Life

open Readiness (Server)

variable {p : Parts} {s : Life} {m : Moment} {document : Engine.Settings}
  {material : Option Tls.Material} {server : Server} {demands : List Demand} {demand : Demand}

/-! ## One server -/

theorem shows_iff : server.Shows (Tls.Material.choose p.settings.client document) ↔
    server = p.server document := by
  obtain ⟨credential⟩ := server
  unfold Parts.server
  constructor
  · intro shows
    cases chosen : Tls.Material.choose p.settings.client document with
    | none =>
        cases credential with
        | none => rfl
        | some c =>
            obtain ⟨m, made⟩ := shows.tls.1 rfl
            cases chosen.symm.trans made
    | some m =>
        rw [Option.map_some]
        exact congrArg Server.mk (shows.own m chosen)
  · intro same
    obtain rfl := Server.mk.inj same
    constructor
    case tls =>
      rw [Server.isTls, Option.isSome_map, Option.isSome_iff_exists]
    case own =>
      intro m chosen
      rw [chosen]
      rfl

theorem chosen_of_document (given : s.document = some document) :
    chosen p s = Tls.Material.choose p.settings.client document := by
  rw [chosen, given, Option.bind_some]

theorem bind_of_met (given : s.document = some document)
    (met : ∀ need : Need, need.met p s = .ok ()) :
    Server.bind s.moment.files p.portFault (p.server document).credential =
      .ok (p.server document) := by
  have loaded := met .material
  have free := met .port
  rw [Need.met, chosen_of_document given] at loaded
  have port : p.portFault = none := by
    cases taken : p.portFault with
    | none => rfl
    | some fault =>
        rw [Need.met, taken] at free
        cases free
  unfold Server.bind Parts.server
  cases chosen : Tls.Material.choose p.settings.client document with
  | none =>
      rw [port]
      rfl
  | some m =>
      rw [chosen] at loaded
      simp only [Option.map_some, loaded, port]
      rfl

theorem server_launch (met : ∀ need : Need, need.met p s = .ok ()) :
    (s.launch p).life.server = s.document.map p.server := by
  have way : Settles p s (s.launch p) := settles_launch p s
  generalize s.launch p = o at way ⊢
  obtain ⟨document, given, prepared⟩ := equipped_iff.2 met
  cases way with
  | undocumented missing => cases missing.symm.trans given
  | unprepared given' failed =>
      obtain rfl := Option.some.inj (given'.symm.trans given)
      cases failed.symm.trans prepared
  | launching | unlaunched | waiting | cancelled | serving | stopped | tooLate => rfl

theorem server_launch_of_unmet (unmet : ¬ ∀ need : Need, need.met p s = .ok ()) :
    (s.launch p).life.server = s.server := by
  rw [launch_of_not_equipped]
  exact fun equipped => unmet (equipped_iff.1 equipped)

/-! ## Servers of a sequence of demands -/

theorem server_setup (p : Parts) (s : Life) : (s.setup p).life.server = s.server := by
  unfold setup perform
  cases p.obtain s.moment with
  | none => rfl
  | some result =>
      obtain ⟨m, answer⟩ := result
      cases answer <;> rfl

theorem server_of_not_putsUp (no : ¬ demand.PutsUp s) : (demand.fulfil s).server = s.server := by
  cases demand with
  | setup p => exact server_setup p s
  | launch p => exact server_launch_of_unmet fun met => no ⟨p, rfl, met⟩
  | elsewhere m => rfl

theorem putUpLast_concat_iff : PutUpLast s (demands ++ [demand]) server ↔
    (∃ (p : Parts) (document : Engine.Settings), demand = .launch p ∧
      (s.after demands).document = some document ∧
      (∀ need : Need, need.met p (s.after demands) = .ok ()) ∧ server = p.server document) ∨
    (PutUpLast s demands server ∧ ¬ demand.PutsUp (s.after demands)) := by
  constructor
  · intro last
    generalize same : demands ++ [demand] = all at last
    cases last with
    | now given met supplied shows =>
        obtain ⟨rfl, last⟩ := List.append_inj' same rfl
        obtain rfl := List.head_eq_of_cons_eq last
        rw [← Tls.choose_eq_iff] at supplied
        subst supplied
        exact Or.inl ⟨_, _, rfl, given, met, shows_iff.1 shows⟩
    | before before no =>
        obtain ⟨rfl, last⟩ := List.append_inj' same rfl
        obtain rfl := List.head_eq_of_cons_eq last
        exact Or.inr ⟨before, no⟩
  · intro either
    rcases either with ⟨p, document, rfl, given, met, same⟩ | ⟨before, no⟩
    · exact .now given met (Tls.supplied_choose _ _) (shows_iff.2 same)
    · exact .before before no

theorem server_after (m : Moment) (demands : List Demand) (server : Server) :
    ((start m).after demands).server = some server ↔ PutUpLast (start m) demands server := by
  induction demands using List.reverseRecOn with
  | nil =>
      refine iff_of_false nofun ?_
      intro last
      generalize same : ([] : List Demand) = all at last
      cases last <;> simp at same
  | append_singleton demands demand ih =>
      -- the last demand has put up a server, or has left the one from before it
      rw [putUpLast_concat_iff, after_concat, ← ih]
      by_cases putsUp : demand.PutsUp ((start m).after demands)
      · obtain ⟨p, rfl, met⟩ := putsUp
        obtain ⟨document, given, -⟩ := equipped_iff.2 met
        rw [Demand.fulfil, server_launch met, given, Option.map_some, Option.some.injEq]
        constructor
        · intro same
          exact Or.inl ⟨p, document, rfl, rfl, met, same.symm⟩
        · intro either
          rcases either with ⟨q, own, asked, given', -, rfl⟩ | ⟨-, no⟩
          · obtain rfl := Demand.launch.inj asked
            rw [Option.some.inj given']
          · exact absurd ⟨p, rfl, met⟩ no
      · rw [server_of_not_putsUp putsUp, and_iff_left putsUp]
        refine (or_iff_right ?_).symm
        intro now
        obtain ⟨p, document, asked, -, met, -⟩ := now
        exact putsUp ⟨p, asked, met⟩

/-! ## The server of a whole run -/

theorem server_attend (p : Parts) (s : Life) (b : Engine.Member) :
    (attend p s b).life.server = s.server := by
  have way := attends p s b
  generalize attend p s b = o at way ⊢
  cases way <;> rfl

theorem server_attempt_of_clears (clears : Clears p s m document) :
    (s.attempt p).life.server = some (p.server document) := by
  rw [attempt_of_clears clears]
  unfold perform
  cases p.launcher p.settings.documentPath (s.calling p m document).moment with
  | none => rfl
  | some result =>
      obtain ⟨next, answer⟩ := result
      cases answer with
      | error failure => rfl
      | ok b => exact server_attend p { s.calling p m document with moment := next } b

theorem server_attempt_of_not_clears (bare : ∀ m document, ¬ Clears p s m document) :
    (s.attempt p).life.server = s.server := by
  have way : Goes p s (s.attempt p) := goes p s
  generalize s.attempt p = o at way ⊢
  cases way with
  | obtaining | unobtained | unprepared => rfl
  | launching clears | unlaunched clears | launched clears => exact absurd clears (bare _ _)

theorem server_run (p : Parts) (s : Life) : (s.run p).life.server = (s.attempt p).life.server := by
  cases ended : (s.attempt p).answer with
  | none => rw [run_of_endless ended]
  | some answer =>
      rw [run_of_answer ended]
      rfl

theorem server_run_eq_some_iff (m : Moment) (p : Parts) (server : Server) :
    ((start m).run p).life.server = some server ↔ ∃ now document,
      Clears p (start m) now document ∧
        server.Shows (Tls.Material.choose p.settings.client document) := by
  rw [server_run]
  constructor
  · intro up
    by_cases clears : ∃ now document, Clears p (start m) now document
    · obtain ⟨now, document, clears⟩ := clears
      rw [server_attempt_of_clears clears] at up
      exact ⟨now, document, clears, shows_iff.2 (Option.some.inj up).symm⟩
    · rw [server_attempt_of_not_clears] at up
      · cases up
      · exact fun now document own => clears ⟨now, document, own⟩
  · intro shown
    obtain ⟨now, document, clears, shows⟩ := shown
    rw [server_attempt_of_clears clears, shows_iff.1 shows]

theorem launch_unmixed (m : Moment) (demands : List Demand) (p : Parts) :
    Unmixed m demands p ((start m).after demands) := by
  constructor
  case supplied =>
    intro document material
    exact Tls.choose_eq_iff
  case silent =>
    intro document other silent silent' same
    exact Tls.choose_congr_of_silent silent silent' same
  case serves =>
    intro document given met
    refine ⟨p.server document, ?_, shows_iff.2 rfl, bind_of_met given met⟩
    rw [server_launch met, given, Option.map_some]
  case spares => exact server_launch_of_unmet
  case last => exact server_after m demands
  case run => exact server_run_eq_some_iff m p

end Life

end StoreWarden
