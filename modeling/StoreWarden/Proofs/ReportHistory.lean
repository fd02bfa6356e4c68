import Mathlib.Data.List.Induction
import StoreWarden.Engine.Member

/-!
# The history of a member's reports

Reports come in, failures are taken or waited for, the latches are looked at, and the reporting
side goes away, in any number and order.  What each of these is answered is known from the answers
before it: both readers together are handed the failures that were accepted, each once and in
order, a failure is refused only while four others have not been read, and a latch shows whether
it was fired.

A single operation lets in and out just what its answer says (`Acts.items`), so that what is queued
is always what was accepted less what was handed out (`Stands`).  The failures and the two latches
do not touch each other: a history without the operations on the others is the same history.
-/

set_option autoImplicit false

namespace StoreWarden.Engine.Reports

/-! ## Operations and their history -/

inductive Latch where
  | ready
  | stopped
deriving DecidableEq, Repr

def Latch.report : Latch → Report
  | .ready => .ready
  | .stopped => .stopped

def latch (r : Reports) : Latch → Bool
  | .ready => r.ready
  | .stopped => r.stopped

inductive Operation where
  /-- The reporting side reports, and does not wait for a place. -/
  | report (report : Report)
  /-- Somebody else who holds a latch fires it. -/
  | fire (latch : Latch)
  /-- The last of the reporting side goes away. -/
  | abandon
  /-- A failure is taken if one is there. -/
  | take
  /-- Somebody who waits for a failure looks whether it has come. -/
  | await
  | ask (latch : Latch)
deriving DecidableEq, Repr

inductive Answer where
  | delivery (delivery : Delivery)
  | failure (failure : Failure)
  | nothing
  | pending
  | fired (fired : Bool)
  | done
deriving DecidableEq, Repr

def operate (r : Reports) : Operation → Reports × Answer
  | .report report =>
    let (r, delivery) := r.receive report
    (r, .delivery delivery)
  | .fire latch => (r.after (.reported latch.report), .done)
  | .abandon => (r.abandon, .done)
  | .take =>
    let (r, failure) := r.takeFailure
    (r, failure.elim .nothing .failure)
  | .await =>
    let (r, failure) := r.takeFailure
    (r, failure.elim .pending .failure)
  | .ask latch => (r, .fired (r.latch latch))

structure Session where
  reports : Reports
  past : List (Operation × Answer)

def Session.step (s : Session) (o : Operation) : Session :=
  let (reports, answer) := s.reports.operate o
  ⟨reports, s.past ++ [(o, answer)]⟩

def session (os : List Operation) : Session := os.foldl .step ⟨.none, []⟩

def history (os : List Operation) : List (Operation × Answer) := (session os).past

def answer (os : List Operation) (o : Operation) : Answer := ((session os).reports.operate o).2

/-! ## What a history comes to -/

def accepted? : Operation × Answer → Option Failure
  | (.report (.failure failure), .delivery .sent) => some failure
  | _ => .none

def handedOut? : Operation × Answer → Option Failure
  | (_, .failure failure) => some failure
  | _ => .none

/-- The latch is fired, by the reporting side or somebody else. -/
def fires (latch : Latch) : Operation × Answer → Bool
  | (.fire other, _) => other = latch
  | (.report report, .delivery .sent) => report = latch.report
  | _ => false

def accepted (os : List Operation) : List Failure := (history os).filterMap accepted?

def handedOut (os : List Operation) : List Failure := (history os).filterMap handedOut?

/-- The oldest failure that was accepted and not handed out. -/
def oldest? (os : List Operation) : Option Failure := (accepted os)[(handedOut os).length]?

namespace Operation

def reads : Operation → Bool
  | .take | .await => true
  | _ => false

def ofQueue : Operation → Bool
  | .report (.failure _) | .abandon | .take | .await => true
  | _ => false

def ofLatch (latch : Latch) : Operation → Bool
  | .report own => own = latch.report
  | .fire other | .ask other => other = latch
  | .abandon => true
  | .take | .await => false

end Operation

/-- What everybody is told after some operations, by what went before. -/
structure Faithful (os : List Operation) : Prop where
  /-- No failure is lost, handed out twice, or handed out before an older one. -/
  inOrder : handedOut os <+: accepted os
  taken : answer os .take = (oldest? os).elim .nothing .failure
  awaited : answer os .await = (oldest? os).elim .pending .failure
  /-- A wait that goes on is over with the next failure that is accepted. -/
  woken : answer os .await = .pending → ∀ failure,
    answer os (.report (.failure failure)) = .delivery .sent →
    answer (os ++ [.report (.failure failure)]) .await = .failure failure
  /-- A failure is refused exactly if four that were accepted have not been handed out. -/
  sent : .abandon ∉ os → ∀ failure, answer os (.report (.failure failure)) =
    .delivery (if (accepted os).length = (handedOut os).length + 4 then .full else .sent)
  dropped : .abandon ∈ os → ∀ report, answer os (.report report) = .delivery .dropped
  /-- Whoever reads after the reporting side has gone is given what was accepted before. -/
  drained : ∀ before after, os = before ++ .abandon :: after → accepted os = accepted before ∧
    handedOut os =
      (accepted before).take ((handedOut before).length + after.countP Operation.reads)
  dry : .abandon ∈ os → handedOut os = accepted os →
    ∀ more, answer (os ++ more) .take = .nothing ∧ answer (os ++ more) .await = .pending
  noted : .abandon ∉ os → ∀ latch : Latch, answer os (.report latch.report) = .delivery .sent
  /-- A latch shows that it was fired, and nothing else changes it. -/
  shown : ∀ latch, answer os (.ask latch) = .fired ((history os).any (fires latch))
  lasting : ∀ latch, answer os (.ask latch) = .fired true →
    ∀ more, answer (os ++ more) (.ask latch) = .fired true
  /-- The failures are reported and read as if there were no latches. -/
  queueAlone : history (os.filter Operation.ofQueue) = (history os).filter (·.1.ofQueue)
  /-- A latch is fired and shown as if there were neither failures nor the other latch. -/
  latchAlone : ∀ latch, history (os.filter (Operation.ofLatch latch)) =
    (history os).filter (·.1.ofLatch latch)

variable {r : Reports} {os : List Operation}

/-! ## One operation -/

theorem receive_latch_eq (r : Reports) (latch : Latch) : r.receive latch.report =
    if r.failures.unattended then (r, .dropped)
    else (r.after (.reported latch.report), .sent) := by
  cases latch <;> rfl

theorem report_cases (report : Report) :
    (∃ failure, report = .failure failure) ∨ ∃ latch : Latch, report = latch.report := by
  cases report with
  | ready => exact Or.inr ⟨.ready, rfl⟩
  | stopped => exact Or.inr ⟨.stopped, rfl⟩
  | failure failure => exact Or.inl ⟨failure, rfl⟩

theorem after_latch (r : Reports) (latch : Latch) :
    (r.after (.reported latch.report)).failures = r.failures ∧
      ∀ other, (r.after (.reported latch.report)).latch other =
        (r.latch other || decide (latch = other)) := by
  cases latch <;> refine ⟨rfl, fun other => ?_⟩ <;>
    cases other <;> simp [Latch.report, after, Reports.latch]

/-- All that one operation can come to while somebody is there to take failures in. -/
inductive Acts (r : Reports) : Operation → Reports × Answer → Prop
  | dropped (gone : r.failures.unattended = true) (report : Report) :
      Acts r (.report report) (r, .delivery .dropped)
  | refused (here : r.failures.unattended = false)
      (taken : r.failures.items.length = queueCapacity) (failure : Failure) :
      Acts r (.report (.failure failure)) (r, .delivery .full)
  | queued (here : r.failures.unattended = false)
      (room : r.failures.items.length < queueCapacity) {failure : Failure}
      {next : Mailbox Failure queueCapacity} (items : next.items = r.failures.items ++ [failure])
      (same : next.unattended = r.failures.unattended ∧ next.closed = r.failures.closed) :
      Acts r (.report (.failure failure)) ({ r with failures := next }, .delivery .sent)
  | noted (here : r.failures.unattended = false) (latch : Latch) :
      Acts r (.report latch.report) (r.after (.reported latch.report), .delivery .sent)
  | fired (latch : Latch) : Acts r (.fire latch) (r.after (.reported latch.report), .done)
  | abandoned : Acts r .abandon (r.abandon, .done)
  | nothing (empty : r.failures.items = []) : Acts r .take (r, .nothing)
  | pending (empty : r.failures.items = []) : Acts r .await (r, .pending)
  | handed {o : Operation} (reads : o.reads = true) {failure : Failure}
      {next : Mailbox Failure queueCapacity} (items : r.failures.items = failure :: next.items)
      (same : next.unattended = r.failures.unattended ∧ next.closed = r.failures.closed) :
      Acts r o ({ r with failures := next }, .failure failure)
  | shown (latch : Latch) : Acts r (.ask latch) (r, .fired (r.latch latch))

theorem acts_report (open_ : r.failures.closed = false) (report : Report) :
    Acts r (.report report) (r.operate (.report report)) := by
  rcases report_cases report with ⟨failure, rfl⟩ | ⟨latch, rfl⟩
  · have way := r.failures.sends failure
    simp only [operate, receive_failure_eq]
    generalize r.failures.send failure = result at way
    cases way with
    | dropped gone => exact .dropped gone _
    | closed here left => cases left.symm.trans open_
    | full here _ taken => exact .refused here taken failure
    | sent here _ room items same => exact .queued here room items same
  · simp only [operate, receive_latch_eq]
    split
    case isTrue gone => exact .dropped gone _
    case isFalse here => exact .noted (Bool.eq_false_iff.2 here) latch

theorem acts_read {o : Operation} (reads : o.reads = true) : Acts r o (r.operate o) := by
  have way := r.failures.takes
  cases o with
  | take | await =>
      simp only [operate, takeFailure]
      generalize r.failures.take = result at way
      cases way with
      | none empty => constructor; exact empty
      | some items same => exact .handed reads items same
  | report | fire | abandon | ask => cases reads

theorem acts (open_ : r.failures.closed = false) (o : Operation) : Acts r o (r.operate o) := by
  cases o with
  | report report => exact acts_report open_ report
  | fire latch => exact .fired latch
  | abandon => exact .abandoned
  | take | await => exact acts_read rfl
  | ask latch => exact .shown latch

variable {o : Operation} {result : Reports × Answer}

theorem Acts.same (way : Acts r o result) :
    result.1.failures.unattended = (r.failures.unattended || decide (o = .abandon)) ∧
      result.1.failures.closed = r.failures.closed := by
  cases way with
  | dropped | refused | nothing | pending | shown => simp
  | queued here room items same => simpa using same
  | noted here latch | fired latch => simp [after_latch]
  | abandoned => simp [Reports.abandon, Mailbox.abandon]
  | handed reads items same =>
      have other : o ≠ .abandon := by rintro rfl; cases reads
      simpa [other] using same

theorem Acts.latch (way : Acts r o result) (latch : Latch) :
    result.1.latch latch = (r.latch latch || fires latch (o, result.2)) := by
  cases way with
  | dropped | refused | nothing | pending | shown => simp [fires]
  | queued => cases latch <;> simp [Reports.latch, fires, Latch.report]
  | noted here own => cases own <;> cases latch <;> simp [Reports.latch, fires, Latch.report, after]
  | fired own => simp [after_latch, fires]
  | abandoned => cases latch <;> simp [Reports.latch, fires, Reports.abandon]
  | handed reads items same =>
      cases o with
      | take | await => cases latch <;> simp [Reports.latch, fires]
      | report | fire | abandon | ask => cases reads

/-- What is queued and what comes in is what is handed out and what is queued then. -/
theorem Acts.items (way : Acts r o result) :
    r.failures.items ++ (accepted? (o, result.2)).toList =
      (handedOut? (o, result.2)).toList ++ result.1.failures.items := by
  cases way with
  | dropped | refused | nothing | pending | shown => simp [accepted?, handedOut?]
  | abandoned => simp [accepted?, handedOut?, Reports.abandon, Mailbox.abandon]
  | queued here room items same => simp [accepted?, handedOut?, items]
  | noted here latch => cases latch <;> exact List.append_nil _
  | fired latch => simp [accepted?, handedOut?, after_latch]
  | handed reads items same =>
      cases o with
      | take | await => simp [accepted?, handedOut?, items]
      | report | fire | abandon | ask => cases reads

/-! ## One operation more -/

theorem reports_concat (os : List Operation) (o : Operation) :
    (session (os ++ [o])).reports = ((session os).reports.operate o).1 := by
  simp only [session, List.foldl_append, List.foldl_cons, List.foldl_nil, Session.step]

theorem history_concat (os : List Operation) (o : Operation) :
    history (os ++ [o]) = history os ++ [(o, answer os o)] := by
  simp only [history, answer, session, List.foldl_append, List.foldl_cons, List.foldl_nil,
    Session.step]

theorem accepted_concat (os : List Operation) (o : Operation) :
    accepted (os ++ [o]) = accepted os ++ (accepted? (o, answer os o)).toList := by
  rw [accepted, history_concat, List.filterMap_append, accepted]
  cases came : accepted? (o, answer os o) <;> simp [came]

theorem handedOut_concat (os : List Operation) (o : Operation) :
    handedOut (os ++ [o]) = handedOut os ++ (handedOut? (o, answer os o)).toList := by
  rw [handedOut, history_concat, List.filterMap_append, handedOut]
  cases came : handedOut? (o, answer os o) <;> simp [came]

theorem history_prefix_append (os more : List Operation) : history os <+: history (os ++ more) := by
  induction more using List.reverseRecOn with
  | nil => exact (List.append_nil os).symm ▸ List.prefix_rfl
  | append_singleton more o ih =>
      rw [← List.append_assoc, history_concat]
      exact ih.trans (List.prefix_append _ _)

/-- The state of the reports after some operations, by what was answered. -/
structure Stands (os : List Operation) : Prop where
  gone : (session os).reports.failures.unattended = decide (.abandon ∈ os)
  open_ : (session os).reports.failures.closed = false
  queued : accepted os = handedOut os ++ (session os).reports.failures.items
  latches : ∀ latch, (session os).reports.latch latch = (history os).any (fires latch)

theorem Stands.concat (stands : Stands os) (o : Operation) : Stands (os ++ [o]) := by
  have way := acts stands.open_ o
  obtain ⟨gone, open_⟩ := way.same
  constructor
  case gone => rw [reports_concat, gone, stands.gone]; simp [eq_comm]
  case open_ => rw [reports_concat, open_, stands.open_]
  case queued =>
    calc accepted (os ++ [o])
        = handedOut os ++ ((session os).reports.failures.items ++
            (accepted? (o, answer os o)).toList) := by
          rw [accepted_concat, stands.queued, List.append_assoc]
      _ = handedOut os ++ ((handedOut? (o, answer os o)).toList ++
            ((session os).reports.operate o).1.failures.items) := by
          rw [answer, way.items]
      _ = handedOut (os ++ [o]) ++ (session (os ++ [o])).reports.failures.items := by
          rw [handedOut_concat, reports_concat, List.append_assoc]
  case latches =>
    intro latch
    rw [reports_concat, way.latch, stands.latches, history_concat, List.any_append]
    simp [answer]

theorem stands (os : List Operation) : Stands os := by
  induction os using List.reverseRecOn with
  | nil => exact ⟨rfl, rfl, rfl, fun latch => by cases latch <;> rfl⟩
  | append_singleton os o ih => exact ih.concat o

/-! ## What readers and reporters are told -/

theorem Stands.oldest (stands : Stands os) :
    oldest? os = (session os).reports.failures.items.head? := by
  rw [oldest?, stands.queued, List.getElem?_append_right (Nat.le_refl _), Nat.sub_self,
    List.head?_eq_getElem?]

theorem answer_read (os : List Operation) : answer os .take = (oldest? os).elim .nothing .failure ∧
    answer os .await = (oldest? os).elim .pending .failure := by
  rw [(stands os).oldest]
  have taken := (session os).reports.failures.takes
  simp only [answer, operate, takeFailure]
  generalize (session os).reports.failures.take = result at taken
  cases taken with
  | none empty => simp [empty]
  | some items same => simp [items]

theorem prefix_accepted (os : List Operation) : handedOut os <+: accepted os := by
  rw [(stands os).queued]
  exact List.prefix_append _ _

theorem answer_report (here : .abandon ∉ os) (failure : Failure) :
    answer os (.report (.failure failure)) = .delivery
      (if (accepted os).length = (handedOut os).length + 4 then .full else .sent) := by
  have stands := stands os
  have length := congrArg List.length stands.queued
  rw [List.length_append] at length
  have attended := stands.gone
  rw [decide_eq_false here] at attended
  have way := (session os).reports.failures.sends failure
  simp only [answer, operate, receive_failure_eq]
  generalize (session os).reports.failures.send failure = result at way
  cases way with
  | dropped gone => cases gone.symm.trans attended
  | closed _ left => cases left.symm.trans stands.open_
  | full _ _ taken => rw [if_pos (by rw [length, taken]; rfl)]
  | sent _ _ room =>
      have few : (session os).reports.failures.items.length < 4 := room
      rw [if_neg (by omega)]

theorem answer_dropped (gone : .abandon ∈ os) (report : Report) :
    answer os (.report report) = .delivery .dropped := by
  have unattended : (session os).reports.failures.unattended = true := by
    rw [(stands os).gone, decide_eq_true gone]
  simp [answer, operate, receive, unattended]

theorem handedOut_concat_eq (os : List Operation) (o : Operation) :
    handedOut (os ++ [o]) = handedOut os ++ if o.reads then (oldest? os).toList else [] := by
  rw [handedOut_concat]
  congr 1
  cases o with
  | take =>
      rw [(answer_read os).1]
      cases oldest? os <;> rfl
  | await =>
      rw [(answer_read os).2]
      cases oldest? os <;> rfl
  | report | fire | abandon | ask => rfl

theorem oldest_of_sent (read : oldest? os = .none) {failure : Failure}
    (sent : answer os (.report (.failure failure)) = .delivery .sent) :
    oldest? (os ++ [.report (.failure failure)]) = some failure := by
  have length : (handedOut os).length = (accepted os).length := by
    have least := List.getElem?_eq_none_iff.1 read
    exact Nat.le_antisymm (prefix_accepted os).length_le least
  rw [oldest?, accepted_concat, handedOut_concat, sent]
  simp [accepted?, handedOut?, length]

theorem accepted_concat_of_gone (gone : .abandon ∈ os) (o : Operation) :
    accepted (os ++ [o]) = accepted os := by
  have none_ : accepted? (o, answer os o) = .none := by
    cases o with
    | report report => rw [answer_dropped gone]; cases report <;> rfl
    | fire | abandon | take | await | ask => rfl
  rw [accepted_concat, none_, Option.toList_none, List.append_nil]

theorem oldest_of_take {accepted_ : List Failure} {n : Nat} (all : accepted os = accepted_)
    (handed : handedOut os = accepted_.take n) : oldest? os = accepted_[n]? := by
  rw [oldest?, all, handed, List.length_take]
  by_cases within : n ≤ accepted_.length
  · rw [Nat.min_eq_left within]
  · rw [List.getElem?_eq_none (by omega), List.getElem?_eq_none (by omega)]

/-- Nothing comes in once the reporting side has gone, and each look takes one failure out. -/
theorem drained (before after : List Operation) :
    accepted (before ++ .abandon :: after) = accepted before ∧
      handedOut (before ++ .abandon :: after) =
        (accepted before).take ((handedOut before).length + after.countP Operation.reads) := by
  induction after using List.reverseRecOn with
  | nil =>
      constructor
      · rw [accepted_concat]
        exact List.append_nil _
      · rw [handedOut_concat_eq, List.countP_nil, Nat.add_zero,
          ← List.prefix_iff_eq_take.1 (prefix_accepted before)]
        exact List.append_nil _
  | append_singleton after o ih =>
      obtain ⟨all, handed⟩ := ih
      have gone : .abandon ∈ before ++ .abandon :: after := by simp
      rw [← List.cons_append, ← List.append_assoc, accepted_concat_of_gone gone,
        handedOut_concat_eq, oldest_of_take all handed, handed, List.countP_append]
      refine ⟨all, ?_⟩
      cases reads : o.reads with
      | true => simp [reads, ← Nat.add_assoc, List.take_add_one]
      | false => simp [reads]

theorem dry (gone : .abandon ∈ os) (all : handedOut os = accepted os) (more : List Operation) :
    oldest? (os ++ more) = .none := by
  obtain ⟨before, after, rfl⟩ := List.append_of_mem gone
  obtain ⟨accepted_, handed⟩ := drained before after
  obtain ⟨accepted', handed'⟩ := drained before (after ++ more)
  have short := congrArg List.length handed
  rw [all, accepted_, List.length_take] at short
  rw [List.append_assoc, List.cons_append, oldest_of_take accepted' handed',
    List.getElem?_eq_none_iff, List.countP_append]
  omega

/-! ## What the latches show -/

theorem answer_ask (os : List Operation) (latch : Latch) :
    answer os (.ask latch) = .fired ((history os).any (fires latch)) := by
  rw [← (stands os).latches]
  rfl

theorem answer_ask_append {latch : Latch} (fired : answer os (.ask latch) = .fired true)
    (more : List Operation) : answer (os ++ more) (.ask latch) = .fired true := by
  rw [answer_ask, Answer.fired.injEq, List.any_eq_true] at fired ⊢
  obtain ⟨entry, mem, fires⟩ := fired
  exact ⟨entry, (history_prefix_append os more).subset mem, fires⟩

theorem answer_report_latch (here : .abandon ∉ os) (latch : Latch) :
    answer os (.report latch.report) = .delivery .sent := by
  have attended : (session os).reports.failures.unattended = false := by
    rw [(stands os).gone, decide_eq_false here]
  simp [answer, operate, receive_latch_eq, attended]

/-! ## One part without the others -/

/-- Without the operations that leave a part of the reports alone the others are answered as they
are with them. -/
theorem history_filter {σ : Type} (part : Reports → σ) (touches : Operation → Bool)
    (alone : ∀ r o, r.failures.closed = false → touches o = false →
      part (r.operate o).1 = part r)
    (own : ∀ r r' o, r.failures.closed = false → r'.failures.closed = false →
      touches o = true → part r = part r' →
      part (r.operate o).1 = part (r'.operate o).1 ∧ (r.operate o).2 = (r'.operate o).2)
    (os : List Operation) :
    history (os.filter touches) = (history os).filter (touches ·.1) := by
  have both : part (session (os.filter touches)).reports = part (session os).reports ∧
      history (os.filter touches) = (history os).filter (touches ·.1) := by
    induction os using List.reverseRecOn with
    | nil => exact ⟨rfl, rfl⟩
    | append_singleton os o ih =>
        obtain ⟨same, ih⟩ := ih
        rw [List.filter_append, history_concat, List.filter_append, ← ih, reports_concat]
        cases touched : touches o with
        | false => simp [touched, alone _ o (stands os).open_ touched, same]
        | true =>
            obtain ⟨next, told⟩ := own _ _ o (stands _).open_ (stands os).open_ touched same
            simp [touched, reports_concat, history_concat, next, answer, told]
  exact both.2

theorem history_ofQueue (os : List Operation) :
    history (os.filter Operation.ofQueue) = (history os).filter (·.1.ofQueue) := by
  apply history_filter Reports.failures
  case alone =>
    intro r o _ apart
    cases o with
    | report report =>
        rcases report_cases report with ⟨failure, rfl⟩ | ⟨latch, rfl⟩
        · cases apart
        · simp only [operate, receive_latch_eq]
          split
          · rfl
          · exact (after_latch r latch).1
    | fire latch => exact (after_latch r latch).1
    | ask => rfl
    | abandon | take | await => cases apart
  case own =>
    intro r r' o _ _ touched same
    cases o with
    | report report =>
        rcases report_cases report with ⟨failure, rfl⟩ | ⟨latch, rfl⟩
        · simp [operate, receive_failure_eq, same]
        · cases latch <;> cases touched
    | abandon => simp [operate, Reports.abandon, same]
    | take | await => simp [operate, takeFailure, same]
    | fire | ask => cases touched

theorem history_ofLatch (latch : Latch) (os : List Operation) :
    history (os.filter (Operation.ofLatch latch)) = (history os).filter (·.1.ofLatch latch) := by
  apply history_filter fun r => (r.latch latch, r.failures.unattended)
  case alone =>
    intro r o open_ apart
    have way := acts open_ o
    have quiet : fires latch (o, (r.operate o).2) = false := by
      cases o with
      | report own =>
          cases (r.operate (.report own)).2 with
          | delivery delivery =>
              cases delivery with
              | sent => exact apart
              | full | closed | dropped => rfl
          | failure | nothing | pending | fired | done => rfl
      | fire own => exact apart
      | abandon => cases apart
      | take | await | ask => rfl
    have other : o ≠ .abandon := by
      rintro rfl
      cases apart
    rw [way.latch, way.same.1, quiet, decide_eq_false other, Bool.or_false, Bool.or_false]
  case own =>
    intro r r' o open_ open' touched same
    obtain ⟨shown, attended⟩ := Prod.mk.inj same
    have told : (r.operate o).2 = (r'.operate o).2 := by
      cases o with
      | report own =>
          obtain rfl : own = latch.report := by simpa [Operation.ofLatch] using touched
          simp only [operate, receive_latch_eq, attended]
          split <;> rfl
      | ask own =>
          obtain rfl : own = latch := by simpa [Operation.ofLatch] using touched
          exact congrArg Answer.fired shown
      | fire | abandon => rfl
      | take | await => cases touched
    refine ⟨?_, told⟩
    rw [(acts open_ o).latch, (acts open' o).latch, (acts open_ o).same.1, (acts open' o).same.1,
      shown, attended, told]

theorem reports_faithful (os : List Operation) : Faithful os := by
  constructor
  case inOrder => exact prefix_accepted os
  case taken => exact (answer_read os).1
  case awaited => exact (answer_read os).2
  case woken =>
    intro waits failure sent
    have read : oldest? os = .none := by
      rw [(answer_read os).2] at waits
      cases oldest : oldest? os with
      | none => rfl
      | some other => rw [oldest] at waits; cases waits
    rw [(answer_read _).2, oldest_of_sent read sent]
    rfl
  case sent => exact answer_report
  case dropped => exact answer_dropped
  case drained =>
    rintro before after rfl
    exact drained before after
  case dry =>
    intro gone all more
    obtain ⟨taken, awaited⟩ := answer_read (os ++ more)
    rw [taken, awaited, dry gone all more]
    exact ⟨rfl, rfl⟩
  case noted => exact answer_report_latch
  case shown => exact answer_ask os
  case lasting =>
    intro latch fired more
    exact answer_ask_append fired more
  case queueAlone => exact history_ofQueue os
  case latchAlone =>
    intro latch
    exact history_ofLatch latch os

/-- A fifth failure finds room once one has been read, and the rest is read when nobody reports. -/
example (a b c d e : Failure) :
    (history ([a, b, c, d, e].map (fun f => .report (.failure f)) ++
      [.take, .report (.failure e), .abandon, .await, .report .ready])).map (·.2) =
    [.delivery .sent, .delivery .sent, .delivery .sent, .delivery .sent, .delivery .full,
      .failure a, .delivery .sent, .done, .failure b, .delivery .dropped] := by cbv

end StoreWarden.Engine.Reports
