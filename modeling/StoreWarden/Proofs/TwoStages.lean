import StoreWarden.Proofs.RecordHistory
import StoreWarden.Shutdown

/-!
# Shutdown in two stages

A watcher listens for as long as it is needed: signals are sent to it, the last sender may leave,
somebody else may cancel the run, time passes and files elsewhere change, all in any order, and
from time to time it is the watcher's turn.  What the watcher itself does to the run is then known
from the signals that were delivered.  Without one it does nothing.  The first is recorded and the
run then cancelled, at the first turn after it came, whether or not it could be recorded; the second
ends the process; and every other signal makes no difference.

`Stands` says how far a watcher has come and what it has done by then, one occasion preserves it,
and `run_twoStages` reads the whole behaviour off it.
-/

set_option autoImplicit false

namespace StoreWarden.Shutdown

open ExitRecord (Bystander)

/-! ## Occasions -/

inductive Occasion (r : ExitRecord) where
  | signal (signal : Signal)
  | abandon
  /-- Somebody else cancels the run. -/
  | stop
  /-- Time passes, and files elsewhere change. -/
  | meanwhile (d : Nat) (bystander : Bystander r)
  | turn

/-- What an occasion does to a run in which nobody listens. -/
def Occasion.alter {r : ExitRecord} (m : Moment) : Occasion r → Moment
  | .stop => m.cancel
  | .meanwhile d bystander => { m.after d with files := bystander.change m.files }
  | .signal _ | .abandon | .turn => m

structure Vigil where
  watcher : Watcher
  moment : Moment
  delivered : List Signal
  notices : List Notice

namespace Vigil

variable {r : ExitRecord}

def start (m : Moment) : Vigil := ⟨.fresh, m, [], []⟩

def step (v : Vigil) : Occasion r → Vigil
  | .signal signal =>
    let (inbox, delivery) := v.watcher.inbox.send signal
    { v with
      watcher := ⟨v.watcher.stage, inbox⟩
      delivered := if delivery = .sent then v.delivered ++ [signal] else v.delivered }
  | .abandon => { v with watcher := ⟨v.watcher.stage, v.watcher.inbox.abandon⟩ }
  | .turn =>
    let (watcher, moment, notices) := v.watcher.settle r v.moment
    { v with watcher, moment, notices := v.notices ++ notices }
  | occasion => { v with moment := occasion.alter v.moment }

def run (v : Vigil) (occasions : List (Occasion r)) : Vigil := occasions.foldl step v

theorem run_append (v : Vigil) (occasions more : List (Occasion r)) :
    v.run (occasions ++ more) = (v.run occasions).run more :=
  List.foldl_append

end Vigil

/-! ## What signals lead to -/

def stageAfter : List Signal → Stage
  | [] => .watching
  | [_] => .stopping
  | _ :: _ :: _ => .over

theorem takeAll_over (signals : List Signal) : Stage.takeAll .over signals = (.over, []) := by
  induction signals with
  | nil => rfl
  | cons signal rest ih => simp only [Stage.takeAll, Stage.take, ih, List.append_nil]

theorem takeAll_stopping (signals : List Signal) :
    Stage.takeAll .stopping signals =
      if signals = [] then (.stopping, []) else (.over, [.exit]) := by
  cases signals with
  | nil => rfl
  | cons signal rest => simp [Stage.takeAll, Stage.take, takeAll_over]

theorem takeAll_watching (signal : Signal) (rest : List Signal) :
    Stage.takeAll .watching (signal :: rest) =
      (stageAfter (signal :: rest),
        [.record signal, .cancel] ++ if rest = [] then [] else [.exit]) := by
  simp only [Stage.takeAll, Stage.take, takeAll_stopping]
  cases rest with
  | nil => rfl
  | cons second later => rfl

/-- The first signal acted upon: recorded, and then the run cancelled. -/
def heed (r : ExitRecord) (signal : Signal) (m : Moment) : Moment :=
  { m with files := (r.capture signal m.files).1 }.cancel

def heeded (r : ExitRecord) (signal : Signal) (m : Moment) : List Notice :=
  [.recorded signal (r.capture signal m.files).2 m.isCancelled, .cancelled]

theorem performAll_heed (r : ExitRecord) (m : Moment) (signal : Signal) (rest : List Signal) :
    performAll r m ([.record signal, .cancel] ++ if rest = [] then [] else [.exit]) =
      (heed r signal m, heeded r signal m ++ if rest = [] then [] else [.exited]) := by
  cases rest with
  | nil => rfl
  | cons second later => rfl

theorem heed_isCancelled (r : ExitRecord) (signal : Signal) (m : Moment) :
    (heed r signal m).isCancelled = true := by
  simp [heed, Moment.isCancelled, Moment.cancel, Cancellation.isFired_cancel]

/-! ## What the run keeps -/

theorem alter_named? {r : ExitRecord} (occasion : Occasion r) (m : Moment) :
    (occasion.alter m).files.named? r.path = m.files.named? r.path := by
  cases occasion with
  | meanwhile d bystander => exact bystander.record m.files
  | signal _ | abandon | stop | turn => rfl

theorem alter_isCancelled {r : ExitRecord} (occasion : Occasion r) {m : Moment}
    (cancelled : m.isCancelled = true) : (occasion.alter m).isCancelled = true := by
  cases occasion with
  | stop =>
      unfold Moment.isCancelled at cancelled ⊢
      simp only [Occasion.alter, Moment.cancel, Cancellation.isFired_cancel, cancelled,
        Bool.true_or]
  | meanwhile d bystander => exact Cancellation.isFired_mono (Nat.le_add_right _ d) cancelled
  | signal _ | abandon | turn => exact cancelled

theorem foldl_alter_named? {r : ExitRecord} (occasions : List (Occasion r)) :
    ∀ m : Moment, (occasions.foldl Occasion.alter m).files.named? r.path =
      m.files.named? r.path := by
  induction occasions with
  | nil => intro m; rfl
  | cons occasion rest ih =>
      intro m
      rw [List.foldl_cons, ih, alter_named?]

theorem foldl_alter_isCancelled {r : ExitRecord} (occasions : List (Occasion r)) :
    ∀ {m : Moment}, m.isCancelled = true →
      (occasions.foldl Occasion.alter m).isCancelled = true := by
  induction occasions with
  | nil => intro m cancelled; exact cancelled
  | cons occasion rest ih =>
      intro m cancelled
      exact ih (alter_isCancelled occasion cancelled)

theorem capture_named? {r : ExitRecord} {signal : Signal} {fs : Os.FileSystem}
    (written : (r.capture signal fs).2 = .ok ()) :
    ∃ mode, (r.capture signal fs).1.named? r.path =
      some (.file (Bytes.ofString signal.name) mode) := by
  have followed : r.follow (Bytes.ofString signal.name) ExitRecord.Step.all fs =
      ((r.capture signal fs).1, none) := by
    unfold ExitRecord.capture ExitRecord.write at written ⊢
    cases follows : r.follow (Bytes.ofString signal.name) ExitRecord.Step.all fs with
    | mk next fault =>
        cases fault with
        | none => rfl
        | some fault => simp [follows] at written
  -- all four steps were taken: the draft was created, filled and stored, and then moved
  obtain ⟨made, create, filling⟩ := ExitRecord.step_of_follow followed
  obtain ⟨filled, fill, storing⟩ := ExitRecord.step_of_follow filling
  obtain ⟨stored, store, moving⟩ := ExitRecord.step_of_follow storing
  obtain ⟨moved, move, ended⟩ := ExitRecord.step_of_follow moving
  obtain rfl := Except.ok.inj store
  obtain ⟨bits, named⟩ := ExitRecord.drafted_fill fill (ExitRecord.drafted_create create)
  have last : moved = (r.capture signal fs).1 := congrArg Prod.fst ended
  rw [← last]
  exact ⟨bits, (ExitRecord.step_move move named).1⟩

/-! ## How far a watcher has come -/

def Watcher.Gone (w : Watcher) : Prop :=
  w.stage = .over ∧ w.inbox.items = [] ∧ w.inbox.closed = true

/-- Whenever it was the watcher's turn, no signal had been delivered yet. -/
def Unheard (r : ExitRecord) (m : Moment) (occasions : List (Occasion r)) : Prop :=
  ∀ earlier later, occasions = earlier ++ .turn :: later →
    ((Vigil.start m).run earlier).delivered = []

/-- What a watcher has done after all these occasions. -/
inductive Stands (r : ExitRecord) (m : Moment) (occasions : List (Occasion r)) (v : Vigil) : Prop
  | idle (unheard : Unheard r m occasions) (delivered : v.delivered = v.watcher.inbox.items)
      (notices : v.notices = []) (moment : v.moment = occasions.foldl Occasion.alter m)
      (stage : v.watcher.stage = .watching ∨ v.watcher.Gone)
  | acting (first : Signal) (rest : List Signal) (before after : List (Occasion r))
      (split : occasions = before ++ .turn :: after) (unheard : Unheard r m before)
      (delivered : v.delivered = first :: rest ++ v.watcher.inbox.items)
      (notices : v.notices = heeded r first (before.foldl Occasion.alter m) ++
        if rest = [] then [] else [.exited])
      (moment : v.moment =
        after.foldl Occasion.alter (heed r first (before.foldl Occasion.alter m)))
      (stage : rest = [] ∧ v.watcher.stage = .stopping ∨ v.watcher.Gone)

variable {r : ExitRecord} {m : Moment} {occasions : List (Occasion r)} {v : Vigil}

theorem unheard_nil : Unheard r m [] := by
  intro earlier later split
  cases earlier <;> cases split

theorem Unheard.concat {occasion : Occasion r} (unheard : Unheard r m occasions)
    (own : occasion = .turn → ((Vigil.start m).run occasions).delivered = []) :
    Unheard r m (occasions ++ [occasion]) := by
  intro earlier later split
  rcases List.eq_nil_or_concat later with rfl | ⟨more, last, rfl⟩
  · obtain ⟨rfl, same⟩ := List.append_inj' split rfl
    exact own (List.cons.inj same).1
  · have split' : occasions ++ [occasion] = (earlier ++ .turn :: more) ++ [last] := by
      simpa using split
    exact unheard earlier more (List.append_inj' split' rfl).1

theorem foldl_alter_concat (occasion : Occasion r) :
    (occasions ++ [occasion]).foldl Occasion.alter m =
      occasion.alter (occasions.foldl Occasion.alter m) := by
  rw [List.foldl_append]
  rfl

/-- An occasion on which the watcher has nothing to act upon. -/
theorem Stands.frame {next : Vigil} {occasion : Occasion r} (stands : Stands r m occasions v)
    (same : v = (Vigil.start m).run occasions)
    (idle : occasion = .turn → v.watcher.inbox.items = [])
    (stage : next.watcher.stage = v.watcher.stage ∨ next.watcher.Gone)
    (gone : v.watcher.Gone → next.watcher.Gone)
    (items : ∃ new, next.watcher.inbox.items = v.watcher.inbox.items ++ new ∧
      next.delivered = v.delivered ++ new)
    (notices : next.notices = v.notices) (moment : next.moment = occasion.alter v.moment) :
    Stands r m (occasions ++ [occasion]) next := by
  obtain ⟨new, items, delivered⟩ := items
  cases stands with
  | idle unheard given silent at_ post =>
      refine .idle (unheard.concat ?_) ?_ ?_ ?_ ?_
      · intro turn
        rw [← same, given, idle turn]
      · rw [delivered, items, given]
      · rw [notices, silent]
      · rw [moment, at_, foldl_alter_concat]
      · rcases post with watching | left
        · exact stage.imp_left (·.trans watching)
        · exact Or.inr (gone left)
  | acting first rest before after split unheard given done at_ post =>
      refine .acting first rest before (after ++ [occasion]) ?_ unheard ?_ ?_ ?_ ?_
      · rw [split, List.append_assoc, List.cons_append]
      · rw [delivered, items, given, List.append_assoc]
      · rw [notices, done]
      · rw [moment, at_, foldl_alter_concat]
      · rcases post with ⟨only, stopping⟩ | left
        · exact stage.imp_left fun kept => ⟨only, kept.trans stopping⟩
        · exact Or.inr (gone left)

/-- After a turn nothing waits, and whoever has come to the end has left. -/
theorem settle_post (w : Watcher) (r : ExitRecord) (m : Moment) :
    (w.settle r m).1.inbox.items = [] ∧
      ((w.settle r m).1.stage = (w.stage.takeAll w.inbox.items).1 ∧
          (w.stage.takeAll w.inbox.items).1 ≠ .over ∨ (w.settle r m).1.Gone) := by
  by_cases closes : w.inbox.unattended = true ∨ (w.stage.takeAll w.inbox.items).1 = .over
  · have left : (w.settle r m).1.Gone := by
      rcases closes with unattended | ended
      · simp [Watcher.Gone, Watcher.settle, Mailbox.takeAll, Mailbox.close, unattended]
      · simp [Watcher.Gone, Watcher.settle, Mailbox.takeAll, Mailbox.close, ended]
    exact ⟨left.2.1, Or.inr left⟩
  · obtain ⟨attended, open_⟩ := not_or.1 closes
    have stays : (w.settle r m).1 =
        ⟨(w.stage.takeAll w.inbox.items).1, w.inbox.takeAll.1⟩ := by
      simp [Watcher.settle, Mailbox.takeAll, attended, open_]
    rw [stays]
    exact ⟨rfl, Or.inl ⟨rfl, open_⟩⟩

theorem Stands.turn (stands : Stands r m occasions v) (same : v = (Vigil.start m).run occasions) :
    Stands r m (occasions ++ [.turn]) (v.step (.turn : Occasion r)) := by
  obtain ⟨empty, post⟩ := settle_post v.watcher r v.moment
  have watcher : (v.step (.turn : Occasion r)).watcher = (v.watcher.settle r v.moment).1 := rfl
  have delivered : (v.step (.turn : Occasion r)).delivered = v.delivered := rfl
  have moment : (v.step (.turn : Occasion r)).moment =
      (performAll r v.moment (v.watcher.stage.takeAll v.watcher.inbox.items).2).1 := rfl
  have notices : (v.step (.turn : Occasion r)).notices = v.notices ++
      (performAll r v.moment (v.watcher.stage.takeAll v.watcher.inbox.items).2).2 := rfl
  rw [← watcher] at empty post
  cases waiting : v.watcher.inbox.items with
  | nil =>
      rw [waiting] at moment notices post
      refine stands.frame same (fun _ => waiting) (post.imp_left And.left) ?_ ?_ ?_ moment
      · rintro ⟨ended, -, -⟩
        exact post.resolve_left fun stays => stays.2 ended
      · exact ⟨[], by rw [empty, waiting, List.append_nil], by rw [delivered, List.append_nil]⟩
      · rw [notices]
        exact List.append_nil _
  | cons signal more =>
      rw [waiting] at moment notices post
      -- signals wait, so that the watcher has not left: they are its first, or come after the first
      have listens : ¬ v.watcher.Gone := by
        rintro ⟨-, none', -⟩
        cases none'.symm.trans waiting
      cases stands with
      | idle unheard given silent at_ stage =>
          have watching := stage.resolve_right listens
          rw [watching, takeAll_watching, performAll_heed] at moment notices
          rw [watching, takeAll_watching] at post
          refine .acting signal more occasions [] rfl unheard ?_ ?_ ?_ ?_
          · rw [delivered, given, waiting, empty, List.append_nil]
          · rw [notices, silent, at_, List.nil_append]
          · rw [moment, at_]
            rfl
          · cases more with
            | nil => exact post.imp_left fun stays => ⟨rfl, stays.1⟩
            | cons second later => exact post.imp_left fun stays => absurd rfl stays.2
      | acting first rest before after split unheard given done at_ stage =>
          obtain ⟨rfl, stopping⟩ := stage.resolve_right listens
          rw [stopping, takeAll_stopping, if_neg (List.cons_ne_nil signal more)]
            at moment notices post
          refine .acting first (signal :: more) before (after ++ [.turn]) ?_ unheard ?_ ?_ ?_ ?_
          · rw [split, List.append_assoc, List.cons_append]
          · rw [delivered, given, waiting, empty]
            simp
          · rw [notices, done]
            simp [performAll, perform]
          · rw [moment, at_, foldl_alter_concat]
            rfl
          · exact Or.inr (post.resolve_left fun stays => stays.2 rfl)

theorem Stands.step (stands : Stands r m occasions v) (same : v = (Vigil.start m).run occasions)
    (occasion : Occasion r) : Stands r m (occasions ++ [occasion]) (v.step occasion) := by
  cases occasion with
  | turn => exact stands.turn same
  | stop | meanwhile d bystander =>
      exact stands.frame same (by simp) (Or.inl rfl) id ⟨[], by simp [Vigil.step]⟩ rfl rfl
  | abandon =>
      exact stands.frame same (by simp) (Or.inl rfl) id
        ⟨[], by simp [Vigil.step, Mailbox.abandon]⟩ rfl rfl
  | signal signal =>
      have way := v.watcher.inbox.sends signal
      simp only [Vigil.step]
      generalize v.watcher.inbox.send signal = result at way
      cases way with
      | dropped | closed | full =>
          exact stands.frame same (by simp) (Or.inl rfl) id ⟨[], by simp⟩ rfl rfl
      | sent here open_ room items flags =>
          refine stands.frame same (by simp) (Or.inl rfl) ?_ ⟨[signal], items, by simp⟩ rfl rfl
          rintro ⟨-, -, left⟩
          cases open_.symm.trans left

theorem stands_run (r : ExitRecord) (m : Moment) (occasions : List (Occasion r)) :
    Stands r m occasions ((Vigil.start m).run occasions) := by
  -- occasions are added at the end, for `Unheard` is about what came before each turn
  induction occasions using List.reverseRecOn with
  | nil => exact .idle unheard_nil rfl rfl rfl (Or.inl rfl)
  | append_singleton occasions occasion ih =>
      rw [Vigil.run_append]
      exact ih.step rfl occasion

/-- What a watcher has done once it has acted upon all that was delivered. -/
structure TwoStages (r : ExitRecord) (m : Moment) (occasions : List (Occasion r)) (v : Vigil) :
    Prop where
  quiet : v.delivered = [] → v.notices = [] ∧ v.moment = occasions.foldl Occasion.alter m
  /-- The first signal is acted upon at the first turn that finds it, and only whether there was
  another one matters besides. -/
  acts : ∀ first rest, v.delivered = first :: rest → ∃ before after,
    occasions = before ++ .turn :: after ∧ Unheard r m before ∧
    let found := before.foldl Occasion.alter m
    let (files, result) := r.capture first found.files
    v.notices = [.recorded first result found.isCancelled, .cancelled] ++
        (if rest = [] then [] else [.exited]) ∧
      v.moment = after.foldl Occasion.alter { found with files }.cancel
  cancelled : v.delivered ≠ [] → v.moment.isCancelled = true
  kept : ∀ first rest early, v.delivered = first :: rest →
    .recorded first (.ok ()) early ∈ v.notices →
    ∃ mode, v.moment.files.named? r.path = some (.file (Bytes.ofString first.name) mode)

/-- A watcher records the first signal and cancels the run, ends the process on the second, and does
nothing else, whatever happens around it. -/
theorem run_twoStages (r : ExitRecord) (m : Moment) (occasions : List (Occasion r)) :
    TwoStages r m (occasions ++ [.turn]) ((Vigil.start m).run (occasions ++ [.turn])) := by
  have stands := stands_run r m (occasions ++ [.turn])
  have settled : ((Vigil.start m).run (occasions ++ [.turn])).watcher.inbox.items = [] := by
    rw [Vigil.run_append]
    let v := (Vigil.start m).run occasions
    exact (settle_post v.watcher r v.moment).1
  generalize (Vigil.start m).run (occasions ++ [.turn]) = v at stands settled
  cases stands with
  | idle unheard given silent at_ stage =>
      have nothing : v.delivered = [] := given.trans settled
      constructor
      case quiet => exact fun _ => ⟨silent, at_⟩
      case acts =>
        intro first rest some'
        cases nothing.symm.trans some'
      case cancelled => exact fun some' => absurd nothing some'
      case kept =>
        intro first rest early some'
        cases nothing.symm.trans some'
  | acting first rest before after split unheard given done at_ stage =>
      rw [settled, List.append_nil] at given
      constructor
      case quiet =>
        intro nothing
        cases nothing.symm.trans given
      case acts =>
        intro first' rest' given'
        obtain ⟨rfl, rfl⟩ := List.cons.inj (given'.symm.trans given)
        exact ⟨before, after, split, unheard, done, at_⟩
      case cancelled =>
        intro _
        rw [at_]
        exact foldl_alter_isCancelled after (heed_isCancelled r first _)
      case kept =>
        intro first' rest' early given' recorded
        obtain ⟨rfl, rfl⟩ := List.cons.inj (given'.symm.trans given)
        have written : (r.capture first' (before.foldl Occasion.alter m).files).2 = .ok () := by
          rw [done] at recorded
          rcases List.mem_append.1 recorded with first | second
          · simp only [heeded, List.mem_cons, Notice.recorded.injEq, reduceCtorEq,
              List.not_mem_nil, or_false] at first
            exact first.2.1.symm
          · split at second <;> simp at second
        rw [at_, foldl_alter_named?]
        exact capture_named? written

/-- A record in a directory that is not there. -/
def astray : ExitRecord := ⟨Path.ofString "gone/exit_code"⟩

def pressing : List (Occasion astray) :=
  [.signal .interrupt, .turn, .signal .terminate, .signal .interrupt, .abandon]

/-- Though the first signal cannot be recorded, the run is cancelled and the second ends it. -/
theorem run_twoStages_astray :
    ((Vigil.start ⟨0, .never, .empty⟩).run (pressing ++ [.turn])).delivered =
        [.interrupt, .terminate, .interrupt] ∧
      ((Vigil.start ⟨0, .never, .empty⟩).run (pressing ++ [.turn])).moment.isCancelled = true ∧
      ((Vigil.start ⟨0, .never, .empty⟩).run (pressing ++ [.turn])).notices =
        [.recorded .interrupt (.error (.io .missing)) false, .cancelled, .exited] := by
  have laws := run_twoStages astray ⟨0, .never, .empty⟩ pressing
  have delivered : ((Vigil.start ⟨0, .never, .empty⟩).run (pressing ++ [.turn])).delivered =
      [.interrupt, .terminate, .interrupt] := by rfl
  refine ⟨delivered, laws.cancelled ?_, by rfl⟩
  rw [delivered]
  exact List.cons_ne_nil _ _

end StoreWarden.Shutdown
