import StoreWarden.Proofs.PlainText
import StoreWarden.Proofs.WholeReplies

/-!
# The sidecar is believed to be done only when it says so

A body is decoded before it is compared with the words for a state, and decoding may give one text
for different bytes.  Both words are plain, so that only their own bytes come out as them.  What a
request for the state ends with is then known from what has been delivered: one of the two words,
anything else as a whole, or a failure.
-/

set_option autoImplicit false

namespace StoreWarden.Sidecar

namespace Progress

variable {body : Bytes}

/-- The words may as well be looked for among the bytes themselves. -/
theorem ofBody_eq (body : Bytes) : ofBody body =
    if body = Bytes.ofString "New" then .new
    else if body = Bytes.ofString "Successful" then .successful else .inProgress := by
  have new : body.toStringLossy = "New" ↔ body = Bytes.ofString "New" :=
    Text.Utf8.toStringLossy_eq_iff (by decide)
  have successful : body.toStringLossy = "Successful" ↔ body = Bytes.ofString "Successful" :=
    Text.Utf8.toStringLossy_eq_iff (by decide)
  simp only [ofBody, ofText, new, successful]

theorem ofBody_eq_new_iff : ofBody body = .new ↔ body = Bytes.ofString "New" := by
  rw [ofBody_eq]
  split_ifs with new successful <;> simp [new]

theorem ofBody_eq_successful_iff :
    ofBody body = .successful ↔ body = Bytes.ofString "Successful" := by
  rw [ofBody_eq]
  split_ifs with new successful
  · have apart : Bytes.ofString "New" ≠ Bytes.ofString "Successful" := by decide
    simp [new, apart]
  · simp [successful]
  · simp [successful]

theorem ofBody_eq_inProgress_iff : ofBody body = .inProgress ↔
    body ≠ Bytes.ofString "New" ∧ body ≠ Bytes.ofString "Successful" := by
  rw [ofBody_eq]
  split_ifs <;> simp [*]

theorem ofBody_ne_unknown (body : Bytes) : ofBody body ≠ .unknown := by
  rw [ofBody_eq]
  split_ifs <;> simp

end Progress

namespace Client

variable {c : Client} {peer : Http.Peer} {m last : Moment} {progress : Progress} {n : Nat}

theorem run_status_eq_ok_iff : ((c.service peer).status n m.now).run m =
    some (last, .ok progress) ↔
      ∃ body, c.Gets peer m .status body last ∧ Progress.ofBody body = progress := by
  have found : ∀ {body next}, c.Gets peer m .status body next →
      ((c.service peer).status n m.now).run m = some (next, .ok (.ofBody body)) := by
    intro body next gets
    have ended := run_call_of_gets
      (fun body fs => (fs, .ok (Progress.ofBody body))) gets rfl
    obtain ⟨-, d, -, rfl⟩ := gets
    exact ended
  constructor
  · intro ended
    obtain ⟨body, next, gets⟩ | ⟨next, failure, failed, -, -⟩ :=
      gets_or_failed c peer m .status rfl fun body fs => (fs, .ok (Progress.ofBody body))
    · have same := (found gets).symm.trans ended
      simp only [Option.some.injEq, Prod.mk.injEq, Except.ok.injEq] at same
      obtain ⟨rfl, rfl⟩ := same
      exact ⟨body, gets, rfl⟩
    · have same := failed.symm.trans ended
      simp at same
  · rintro ⟨body, gets, rfl⟩
    exact found gets

/-- What a request for the state ends with, by what has come. -/
structure Believed (c : Client) (peer : Http.Peer) (m : Moment) (ending : Ending Progress) :
    Prop where
  successful : ∀ last, ending = some (last, .ok .successful) ↔
    c.Gets peer m .status (Bytes.ofString "Successful") last
  new : ∀ last, ending = some (last, .ok .new) ↔
    c.Gets peer m .status (Bytes.ofString "New") last
  inProgress : ∀ last, ending = some (last, .ok .inProgress) ↔
    ∃ body, body ≠ Bytes.ofString "New" ∧ body ≠ Bytes.ofString "Successful" ∧
      c.Gets peer m .status body last
  unknown : ∀ last, ending ≠ some (last, .ok .unknown)
  otherwise : (∀ body last, ¬ c.Gets peer m .status body last) →
    ∃ last failure, ending = some (last, .error failure)
  fails : c.Fails peer m .status ending

theorem status_believed (c : Client) (peer : Http.Peer) (n : Nat) (m : Moment) :
    c.Believed peer m (((c.service peer).status n m.now).run m) := by
  constructor
  case successful =>
    intro last
    simp only [run_status_eq_ok_iff, Progress.ofBody_eq_successful_iff, exists_eq_right]
  case new =>
    intro last
    simp only [run_status_eq_ok_iff, Progress.ofBody_eq_new_iff, exists_eq_right]
  case inProgress =>
    intro last
    rw [run_status_eq_ok_iff]
    apply exists_congr
    intro body
    rw [Progress.ofBody_eq_inProgress_iff, and_comm, and_assoc]
  case unknown =>
    intro last ended
    obtain ⟨body, -, unknown⟩ := run_status_eq_ok_iff.1 ended
    exact Progress.ofBody_ne_unknown body unknown
  case otherwise =>
    intro nothing
    obtain ⟨body, next, gets⟩ | ⟨next, failure, failed, -, -⟩ :=
      gets_or_failed c peer m .status rfl fun body fs => (fs, .ok (Progress.ofBody body))
    · exact absurd gets (nothing body next)
    · exact ⟨next, failure, failed⟩
  case fails => exact call_fails rfl c peer m _

def loopback : Client := ⟨"http://s", .ofString "etcd.yaml"⟩

def saying (code : Http.Status) (body : Bytes) : Http.Peer :=
  fun _ _ => ⟨some 1, .ok ⟨code, none, ⟨some 1, .ok body⟩⟩⟩

theorem gets_saying {code : Http.Status} (body : Bytes) (good : code.code ∈ goodCodes) :
    loopback.Gets (saying code body) ⟨0, .never, .empty⟩ .status body ⟨2, .never, .empty⟩ :=
  ⟨rfl, 1 + 1, .whole ⟨.here rfl rfl, by decide⟩ good rfl (by decide), rfl⟩

/-- Words that are almost the right one, and the right one with almost the right code. -/
theorem status_believed_nearMisses :
    (∀ body ∈ [Bytes.ofString "successful", Bytes.ofString "Successful\n",
        Bytes.ofString "Successful" ++ [0xFF]],
      ((loopback.service (saying .ok body)).status 0 0).run ⟨0, .never, .empty⟩ =
        some (⟨2, .never, .empty⟩, .ok .inProgress)) ∧
    ((loopback.service (saying .ok (Bytes.ofString "Successful"))).status 0 0).run
        ⟨0, .never, .empty⟩ = some (⟨2, .never, .empty⟩, .ok .successful) ∧
    ∀ last progress, ((loopback.service (saying ⟨203, by decide, by decide⟩
      (Bytes.ofString "Successful"))).status 0 0).run ⟨0, .never, .empty⟩ ≠
        some (last, .ok progress) := by
  refine ⟨?_, ?_, ?_⟩
  · intro body mem
    have laws := status_believed loopback (saying .ok body) 0 ⟨0, .never, .empty⟩
    have other : body ≠ Bytes.ofString "New" ∧ body ≠ Bytes.ofString "Successful" := by
      simp only [List.mem_cons, List.not_mem_nil, or_false] at mem
      obtain rfl | rfl | rfl := mem <;> decide
    exact (laws.inProgress _).2 ⟨body, other.1, other.2, gets_saying body (by decide)⟩
  · have laws := status_believed loopback (saying .ok (Bytes.ofString "Successful")) 0
      ⟨0, .never, .empty⟩
    exact (laws.successful _).2 (gets_saying _ (by decide))
  · intro last progress ended
    have laws := status_believed loopback (saying ⟨203, by decide, by decide⟩
      (Bytes.ofString "Successful")) 0 ⟨0, .never, .empty⟩
    obtain ⟨next, failed, -⟩ := laws.fails.refused 1 _ ⟨.here rfl rfl, by decide⟩ (by decide)
    have same := failed.symm.trans ended
    simp at same

end Client

end StoreWarden.Sidecar
