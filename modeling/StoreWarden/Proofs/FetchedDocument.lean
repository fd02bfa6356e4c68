import StoreWarden.Engine.Settings
import StoreWarden.Proofs.NamedNode
import StoreWarden.Proofs.WholeReplies

/-!
# A fetched document is what has come back

A fetch may be sent on from address to address, break off, be cancelled or be refused by the files.
One that succeeds has got, from the last address, a good code and a body as a whole, and the file
then holds this body and nothing of what was there before, `document_of_run_ok`.

What is read from a file hangs on its bytes alone, `load_of_read`: the names in messages need the
directory from which relative paths start, and nothing else.
-/

set_option autoImplicit false

namespace StoreWarden

/-! ## Requests that are sent on -/

namespace Http

variable {peer : Peer} {limit : Nat}

/-- Requests of which each is sent on by the response to the one before, up to a response that is
the last. -/
inductive Leads (peer : Peer) : List (Nat × Request) → Response → Prop
  | last {t d : Nat} {request : Request} {response : Response}
      (came : peer t request = ⟨some d, .ok response⟩) (settled : response.next? request = none) :
      Leads peer [(t, request)] response
  | onward {t d : Nat} {request next : Request} {response final : Response}
      {rest : List (Nat × Request)} (came : peer t request = ⟨some d, .ok response⟩)
      (moved : response.next? request = some next) (begins : rest.head? = some (t + d, next))
      (leads : Leads peer rest final) : Leads peer ((t, request) :: rest) final

theorem leads_of_follow (addresses : Nat) : ∀ {now spent : Nat} {request : Request}
    {response : Response}, (follow peer limit addresses now spent request).answer = .ok response →
      Leads peer (follow peer limit addresses now spent request).asked response ∧
        (follow peer limit addresses now spent request).asked.head? = some (now, request) := by
  induction addresses with
  | zero => intro now spent request response answered; cases answered
  | succ addresses ih =>
      intro now spent request response answered
      unfold follow at answered ⊢
      cases came : (peer now request).within (limit - spent) with
      | mk d answer =>
          rw [came] at answered
          cases answer with
          | error fault => cases answered
          | ok head =>
              have arrived := Arrival.eq_of_within came
              simp only at answered ⊢
              cases moved : head.next? request with
              | none =>
                  rw [moved] at answered
                  obtain rfl := Except.ok.inj answered
                  exact ⟨.last arrived moved, rfl⟩
              | some next =>
                  rw [moved] at answered
                  obtain ⟨leads, begins⟩ := ih answered
                  exact ⟨.onward arrived moved begins leads, rfl⟩

end Http

/-! ## Fetching -/

/-- A call that has succeeded has had its effect. -/
theorem Call.effect_of_run_ok {α : Type} {c : Call α} {m next : Moment} {value : α}
    (answered : c.run m = some (next, .ok value)) :
    (c.effect m.files).2 = .ok value ∧ next.files = (c.effect m.files).1 := by
  obtain ⟨-, gaveUp⟩ | ⟨d, -, rfl, answer⟩ := run_cases answered
  · cases gaveUp
  · exact ⟨answer.symm, concluded_files c m d⟩

namespace Sidecar.Client

variable {c : Client} {peer : Http.Peer} {t : Nat} {request : Request} {body : Bytes}

/-- What came back for a request made at time `t`: in the end a response with a good code, and its
body as a whole. -/
structure Reply (c : Client) (peer : Http.Peer) (t : Nat) (request : Request) (body : Bytes)
    (response : Http.Response) : Prop where
  begins : (c.exchange peer t request).asked.head? =
    some (t, .get (c.baseAddress ++ request.target))
  leads : Http.Leads peer (c.exchange peer t request).asked response
  good : response.status.code ∈ goodCodes
  whole : ∃ d, response.body = ⟨some d, .ok body⟩

theorem exchange_asked (c : Client) (peer : Http.Peer) (t : Nat) (request : Request) :
    (c.exchange peer t request).asked =
      (Http.send peer requestLimit t (.get (c.baseAddress ++ request.target))).asked := by
  unfold exchange
  generalize Http.send peer requestLimit t (.get (c.baseAddress ++ request.target)) = sent
  obtain ⟨asked, elapsed, answer⟩ := sent
  cases answer with
  | error fault => rfl
  | ok response =>
      simp only
      split
      · rfl
      · split <;> rfl

theorem exchange_eq_ok (wants : request.wantsBody = true)
    (answered : (c.exchange peer t request).answer = .ok body) :
    ∃ response d, (Http.send peer requestLimit t (.get (c.baseAddress ++ request.target))).answer =
      .ok response ∧ response.status.code ∈ goodCodes ∧ response.body = ⟨some d, .ok body⟩ := by
  have delivers := (exchange_eq_ok_iff wants).1 answered
  generalize (c.exchange peer t request).elapsed = d at delivers
  cases delivers with
  | whole head good came inTime => exact ⟨_, _, (sent_iff.2 head).2, good, came⟩

theorem reply_of_exchange (wants : request.wantsBody = true)
    (answered : (c.exchange peer t request).answer = .ok body) :
    ∃ response, c.Reply peer t request body response := by
  obtain ⟨response, d, sent, good, whole⟩ := exchange_eq_ok wants answered
  obtain ⟨leads, begins⟩ := Http.leads_of_follow Http.maxAddresses sent
  have asked := exchange_asked c peer t request
  refine ⟨response, ?_, ?_, good, d, whole⟩
  · rw [asked]
    exact begins
  · rw [asked]
    exact leads

theorem store_of_create {fs opened : Os.FileSystem} {loc : Os.Location}
    (created : fs.create c.document documentMode = .ok (loc, opened)) :
    c.store body fs = (fs.put loc (.file body documentMode), .ok c.document) := by
  obtain ⟨bits, fits, -, rfl, -⟩ := Os.FileSystem.create_eq_ok created
  simp only [store, created, Os.FileSystem.append_put_file fs fits.ne_nil, List.nil_append,
    Os.FileSystem.setMode_put_file fs fits.ne_nil]

theorem store_eq_ok {fs files : Os.FileSystem} {path : Path}
    (stored : c.store body fs = (files, .ok path)) :
    path = c.document ∧ files.named? c.document = some (.file body documentMode) := by
  cases created : fs.create c.document documentMode with
  | error fault => simp [store, created] at stored
  | ok found =>
      obtain ⟨loc, opened⟩ := found
      rw [store_of_create created, Prod.mk.injEq, Except.ok.injEq] at stored
      obtain ⟨rfl, rfl⟩ := stored
      obtain ⟨bits, fits, free, -, -⟩ := Os.FileSystem.create_eq_ok created
      exact ⟨rfl, Os.FileSystem.named?_put_file_self fits free body documentMode⟩

theorem document_of_run_ok {n : Nat} {m next : Moment} {path : Path}
    (answered : ((c.service peer).document n m.now).run m = some (next, .ok path)) :
    path = c.document ∧ ∃ body response, c.Reply peer m.now .document body response ∧
      next.files.named? c.document = some (.file body documentMode) := by
  obtain ⟨done, files⟩ := Call.effect_of_run_ok answered
  simp only [service, call] at done files
  cases got : (c.exchange peer m.now .document).answer with
  | error failure =>
      rw [got] at done
      cases done
  | ok body =>
      rw [got] at done files
      have stored : c.store body m.files = (next.files, .ok path) := Prod.ext files.symm done
      obtain ⟨same, holds⟩ := store_eq_ok stored
      obtain ⟨response, reply⟩ := reply_of_exchange rfl got
      exact ⟨same, body, response, reply, holds⟩

end Sidecar.Client

/-! ## Reading -/

namespace Document

theorem locate?_of_isFile {fs : Os.FileSystem} {path : Path} (file : fs.isFile path = true) :
    locate? fs path = some path := by
  unfold locate? candidates
  cases path.fileName? with
  | none => simp [file]
  | some name => simp [file]

theorem isFile_of_read {fs : Os.FileSystem} {path : Path} {body : Bytes}
    (read : fs.read path = .ok body) : fs.isFile path = true := by
  unfold Os.FileSystem.read at read
  unfold Os.FileSystem.isFile
  cases found : fs.find path with
  | error fault => simp [found] at read
  | ok entry =>
      obtain ⟨loc, node⟩ := entry
      cases node with
      | directory => simp [found] at read
      | file content mode => rfl

end Document

namespace Engine.Settings

/-- Settings are read from the bytes of their file, and from nothing else. -/
theorem load_of_read {fs other : Os.FileSystem} {path : Path} {body : Bytes}
    (home : other.home = fs.home) (read : fs.read path = .ok body)
    (read' : other.read path = .ok body) : load other path = load fs path := by
  have located := Document.locate?_of_isFile (Document.isFile_of_read read)
  have located' := Document.locate?_of_isFile (Document.isFile_of_read read')
  have text : other.readText path = fs.readText path := by
    simp only [Os.FileSystem.readText, read, read']
  have shown : Document.shownFile other path = Document.shownFile fs path := by
    simp only [Document.shownFile, home]
  have table : Document.read other path = Document.read fs path := by
    simp only [Document.read, located, located', text, shown]
  simp only [load, table]

theorem dataDir_of_load {fs : Os.FileSystem} {path : Path} {document : Settings}
    (loaded : load fs path = .ok document) : Text.isBlankString document.dataDir = false := by
  unfold load at loaded
  cases table : Document.read fs path with
  | error failure => simp [table] at loaded
  | ok root =>
      simp only [table] at loaded
      cases read : Settings.ofValue root with
      | error failure => simp [read] at loaded
      | ok settings =>
          simp only [read, validate] at loaded
          cases blank : Text.isBlankString settings.dataDir with
          | true => simp [blank] at loaded
          | false =>
              simp only [blank, Bool.false_eq_true, if_false, Except.ok.injEq] at loaded
              exact loaded ▸ blank

end Engine.Settings

end StoreWarden
