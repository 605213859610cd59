import Logbook.Logger
import Logbook.Proofs.Delivery.Conservation
import Logbook.Proofs.Record.Reuse
set_option autoImplicit false

/-!
# What producers do

A producer asks for a record, through a logger or without one, and gets it reset to its event. It
fills the record and submits it. A draft is what the producer made of it, apart from the record. It
does not matter which record the runner lent: the reset hides all that earlier events left behind,
and the record is like one that was made for the draft.
-/
namespace Logbook

open Calendar

inductive Source where
  | logger (l : Logger)
  | pool (label : Option Label)
  | spare (label : Option Label)

inductive Answer where
  | granted
  | refused
  | counted
  deriving DecidableEq

def Acquisition.answer : Acquisition → Answer
  | .granted _ => .granted
  | .counted => .counted
  | _ => .refused

namespace Source

def label : Source → Option Label
  | .logger l => some l.label
  | .pool label => label
  | .spare label => label

def acquire (source : Source) (level : Level) (now : Instant) (thread : String) (stock : Stock) :
    Acquisition × Stock :=
  match source with
  | .logger l => l.acquire level now thread stock
  | .pool label =>
    match stock.tryAcquire with
    | some (record, stock) => (.granted (record.reset label level now thread), stock)
    | none => (.dropped, stock)
  | .spare label =>
    let (record, stock) := stock.allocate
    (.granted (record.reset label level now thread), stock)

theorem acquire_cases (source : Source) (level : Level) (now : Instant) (thread : String)
    (stock : Stock) :
    (∃ record after, (stock.tryAcquire = some (record, after) ∨ stock.allocate = (record, after)) ∧
      source.acquire level now thread stock =
        (.granted (record.reset source.label level now thread), after)) ∨
    (∃ acquisition, acquisition.answer = .refused ∧
      source.acquire level now thread stock = (acquisition, stock)) ∨
    source.acquire level now thread stock = (.counted, stock.noteDropped) := by
  cases source with
  | logger l =>
    rw [acquire, Logger.acquire]
    split
    · cases hlent : stock.tryAcquire with
      | some lent => exact .inl ⟨lent.1, lent.2, .inl rfl, rfl⟩
      | none =>
        rw [Logger.onExhausted]
        cases stock.policy with
        | drop => exact .inr (.inl ⟨.dropped, rfl, rfl⟩)
        | dropAndNotify => exact .inr (.inr rfl)
        | allocate => exact .inl ⟨_, _, .inr rfl, rfl⟩
        | wait => exact .inr (.inl ⟨.waiting, rfl, rfl⟩)
    · exact .inr (.inl ⟨.filtered, rfl, rfl⟩)
  | pool label =>
    rw [acquire]
    cases hlent : stock.tryAcquire with
    | some lent => exact .inl ⟨lent.1, lent.2, .inl rfl, rfl⟩
    | none => exact .inr (.inl ⟨.dropped, rfl, rfl⟩)
  | spare label => exact .inl ⟨_, _, .inr rfl, rfl⟩

end Source

/-- What a producer or the worker does next. Records are named by their place among those that are
held. -/
inductive Move where
  | acquire (source : Source) (level : Level) (now : Instant) (thread : String)
  | fill (place : Nat) (ops : List Operation)
  | submit (place : Nat) (thread : String)
  | work

namespace Traffic

def move (env : Environment) (t : Traffic) : Move → Traffic
  | .acquire source level now thread =>
    match source.acquire level now thread t.runner.stock with
    | (.granted record, stock) =>
      { t with runner := t.runner.withStock stock, held := record :: t.held }
    | (_, stock) => { t with runner := t.runner.withStock stock }
  | .fill place ops => { t with held := t.held.modify place (·.run ops) }
  | .submit place thread =>
    match t.held[place]? with
    | none => t
    | some record =>
      { t with runner := (t.runner.submit env thread record).1, held := t.held.eraseIdx place }
  | .work => t.perform env .work

def moveAll (env : Environment) (t : Traffic) (moves : List Move) : Traffic :=
  moves.foldl (move env) t

def answer? (t : Traffic) : Move → Option Answer
  | .acquire source level now thread =>
    some (source.acquire level now thread t.runner.stock).1.answer
  | _ => none

def submission? (t : Traffic) : Move → Option Record
  | .submit place _ => t.held[place]?
  | _ => none

def collect {α : Type} (env : Environment) (read : Traffic → Move → Option α) (t : Traffic) :
    List Move → List α
  | [] => []
  | move :: moves => (read t move).toList ++ collect env read (t.move env move) moves

def answers (env : Environment) (t : Traffic) (moves : List Move) : List Answer :=
  t.collect env answer? moves

def submissions (env : Environment) (t : Traffic) (moves : List Move) : List Record :=
  t.collect env submission? moves

variable {env : Environment} {c : Config} {t : Traffic}

/-! ## Moves are turns -/

theorem move_acquire_granted {source : Source} {level : Level} {now : Instant} {thread : String}
    {record : Record} {after : Stock}
    (h : source.acquire level now thread t.runner.stock = (.granted record, after)) :
    t.move env (.acquire source level now thread) =
      { t with runner := t.runner.withStock after, held := record :: t.held } := by
  rw [move, h]

theorem move_acquire_refused {source : Source} {level : Level} {now : Instant} {thread : String}
    {acquisition : Acquisition} {after : Stock}
    (h : source.acquire level now thread t.runner.stock = (acquisition, after))
    (hanswer : acquisition.answer ≠ .granted) :
    t.move env (.acquire source level now thread) =
      { t with runner := t.runner.withStock after } := by
  rw [move, h]
  cases acquisition with
  | granted record => exact absurd rfl hanswer
  | _ => rfl

theorem withStock_stock (runner : Runner) : runner.withStock runner.stock = runner := by
  cases runner <;> rfl

/-- A move is made of turns that a running runner may see. -/
theorem move_eq_run (hcalm : env.Calm) (t : Traffic) (m : Move) :
    ∃ acts : List Act, (∀ act ∈ acts, act.isOwn = true) ∧ t.move env m = t.run env acts := by
  obtain ⟨runner, held, leaving⟩ := t
  cases m with
  | acquire source level now thread =>
    rcases source.acquire_cases level now thread runner.stock with
      ⟨record, after, hlent | hmade, heq⟩ | ⟨acquisition, hrefused, heq⟩ | heq
    · refine ⟨[.acquire, .fill 0 [.reset source.label level now thread]], by simp [Act.isOwn], ?_⟩
      rw [move_acquire_granted heq]
      simp only [run, List.foldl_cons, List.foldl_nil, perform, hlent]
      rfl
    · refine ⟨[.allocate, .fill 0 [.reset source.label level now thread]], by simp [Act.isOwn], ?_⟩
      rw [move_acquire_granted heq]
      simp only [run, List.foldl_cons, List.foldl_nil, perform, hmade]
      rfl
    · refine ⟨[], by simp, ?_⟩
      rw [move_acquire_refused heq (by rw [hrefused]; exact Answer.noConfusion)]
      exact congrArg (Traffic.mk · held leaving) (withStock_stock runner)
    · refine ⟨[.noteDropped], by simp [Act.isOwn], ?_⟩
      rw [move_acquire_refused heq Answer.noConfusion]
      rfl
  | fill place ops => exact ⟨[.fill place ops], by simp [Act.isOwn], rfl⟩
  | submit place thread =>
    cases hplace : held[place]? with
    | none => exact ⟨[], by simp, by rw [move, hplace]; rfl⟩
    | some record =>
      have hsubmit := Runner.submit_calm hcalm runner thread record
      have hmove : move env ⟨runner, held, leaving⟩ (.submit place thread) =
          ⟨(runner.submit env thread record).1, held.eraseIdx place, leaving⟩ := by
        rw [move, hplace]
      rw [hmove, hsubmit]
      -- a runner that has stopped does not take the record, and there is no second half
      cases hentered : (runner.enter env thread record).2 with
      | true =>
        refine ⟨[.submit place thread, .settle 0], by simp [Act.isOwn], ?_⟩
        simp only [run, List.foldl_cons, List.foldl_nil, perform, hplace]
        rw [← Prod.eta (runner.enter env thread record), hentered]
        rfl
      | false =>
        refine ⟨[.submit place thread], by simp [Act.isOwn], ?_⟩
        simp only [run, List.foldl_cons, List.foldl_nil, perform, hplace]
        rw [← Prod.eta (runner.enter env thread record), hentered]
        rfl
  | work => exact ⟨[.work], by simp [Act.isOwn], rfl⟩

theorem Conserves.move (hcalm : env.Calm) (h : t.Conserves c) (m : Move) :
    (t.move env m).Conserves c := by
  obtain ⟨acts, hacts, hmove⟩ := move_eq_run hcalm t m
  rw [hmove]
  exact h.run hcalm hacts

theorem Conserves.suits_of_lent (h : t.Conserves c) {record : Record} {after : Stock}
    (hlent : t.runner.stock.tryAcquire = some (record, after) ∨
      t.runner.stock.allocate = (record, after)) : record.Suits c := by
  rcases hlent with hlent | hmade
  · obtain ⟨-, -, hitems⟩ := h.serves.stock.tryAcquire hlent
    refine (h.sound record (List.mem_append_left _ ?_)).suits
    rw [pooled, hitems]
    exact List.mem_cons_self
  · have hsuits := h.serves.stock.allocate.2.suits
    rwa [hmade] at hsuits

end Traffic

/-! ## Drafts -/

/-- What a producer has said about an event. -/
structure Draft where
  label : Option Label
  level : Level
  now : Instant
  thread : String
  ops : List Operation := []

namespace Draft

def extend (d : Draft) (ops : List Operation) : Draft := { d with ops := d.ops ++ ops }

def record (c : Config) (d : Draft) : Record :=
  ((Record.create (Segment.zeroed (min c.segmentSize maxRegionSize)) c.stringCapacity).reset
    d.label d.level d.now d.thread).run d.ops

theorem record_extend (c : Config) (d : Draft) (ops : List Operation) :
    (d.extend ops).record c = (d.record c).run ops := by
  rw [record, extend, Record.run, List.foldl_append]
  rfl

end Draft

namespace Traffic

variable {env : Environment} {c : Config} {t : Traffic}

def redraft (t : Traffic) (drafts : List Draft) : Move → List Draft
  | .acquire source level now thread =>
    if (source.acquire level now thread t.runner.stock).1.answer = .granted then
      { label := source.label, level, now, thread } :: drafts
    else drafts
  | .fill place ops => drafts.modify place (·.extend ops)
  | .submit place _ => drafts.eraseIdx place
  | .work => drafts

def draft? (drafts : List Draft) : Move → Option Draft
  | .submit place _ => drafts[place]?
  | _ => none

def drafts (env : Environment) (t : Traffic) (held : List Draft) : List Move → List Draft
  | [] => []
  | move :: moves =>
    (draft? held move).toList ++ drafts env (t.move env move) (t.redraft held move) moves

def Shows (c : Config) (t : Traffic) (drafts : List Draft) : Prop :=
  List.Forall₂ (fun record draft => record.Alike (draft.record c)) t.held drafts

theorem forall₂_modify {α β : Type} {R : α → β → Prop} {f : α → α} {g : β → β} {xs : List α}
    {ys : List β} (h : List.Forall₂ R xs ys) (hfg : ∀ x ∈ xs, ∀ y, R x y → R (f x) (g y))
    (place : Nat) : List.Forall₂ R (xs.modify place f) (ys.modify place g) := by
  induction h generalizing place with
  | nil => simp
  | @cons x y xs ys hxy hrest ih =>
    cases place with
    | zero => exact .cons (hfg x List.mem_cons_self y hxy) hrest
    | succ place =>
      exact .cons hxy (ih (fun x hx => hfg x (List.mem_cons_of_mem _ hx)) place)

theorem forall₂_eraseIdx {α β : Type} {R : α → β → Prop} {xs : List α} {ys : List β}
    (h : List.Forall₂ R xs ys) (place : Nat) :
    List.Forall₂ R (xs.eraseIdx place) (ys.eraseIdx place) := by
  rw [List.eraseIdx_eq_take_drop_succ, List.eraseIdx_eq_take_drop_succ]
  exact List.rel_append (List.forall₂_take place h) (List.forall₂_drop (place + 1) h)

theorem forall₂_getElem? {α β : Type} {R : α → β → Prop} {xs : List α} {ys : List β}
    (h : List.Forall₂ R xs ys) (place : Nat) :
    List.Forall₂ R xs[place]?.toList ys[place]?.toList := by
  induction h generalizing place with
  | nil => exact .nil
  | cons hxy _ ih =>
    cases place with
    | zero => exact .cons hxy .nil
    | succ place => exact ih place

namespace Shows

variable {drafts : List Draft}

/-- The reset of a record hides where it comes from. -/
theorem acquire (h : t.Shows c drafts) (ht : t.Conserves c) (source : Source) (level : Level)
    (now : Instant) (thread : String) :
    (t.move env (.acquire source level now thread)).Shows c
      (t.redraft drafts (.acquire source level now thread)) := by
  have hrefused {acquisition : Acquisition} {after : Stock}
      (heq : source.acquire level now thread t.runner.stock = (acquisition, after))
      (hrefuses : acquisition.answer ≠ .granted) :
      (t.move env (.acquire source level now thread)).Shows c
        (t.redraft drafts (.acquire source level now thread)) := by
    have hanswer : (source.acquire level now thread t.runner.stock).1.answer ≠ .granted := by
      rwa [heq]
    rw [move_acquire_refused heq hrefuses, redraft, if_neg hanswer]
    exact h
  rcases source.acquire_cases level now thread t.runner.stock with
    ⟨record, after, hlent, heq⟩ | ⟨acquisition, hrefuses, heq⟩ | heq
  · obtain ⟨hsize, hcapacity⟩ := ht.suits_of_lent hlent
    have hanswer : (source.acquire level now thread t.runner.stock).1.answer = .granted := by
      rw [heq]
      rfl
    have hroom := Nat.min_eq_left ht.serves.stock.stringCapacity_le
    rw [move_acquire_granted heq, redraft, if_pos hanswer]
    exact .cons (.reset hsize (hcapacity.trans hroom.symm) _ _ _ _) h
  · exact hrefused heq (by rw [hrefuses]; exact Answer.noConfusion)
  · exact hrefused heq Answer.noConfusion

theorem move (h : t.Shows c drafts) (ht : t.Conserves c) (m : Move) :
    (t.move env m).Shows c (t.redraft drafts m) := by
  cases m with
  | acquire source level now thread => exact h.acquire ht source level now thread
  | fill place ops =>
    refine forall₂_modify h (fun record hrecord draft halike => ?_) place
    have hours : record ∈ t.pooled ++ t.outstanding := by
      simp [outstanding, hrecord]
    obtain ⟨entries, marked, hholds⟩ := (ht.sound record hours).holds
    rw [draft.record_extend]
    exact halike.run hholds ops
  | submit place thread =>
    have hheld : (t.move env (.submit place thread)).held = t.held.eraseIdx place := by
      rw [Traffic.move]
      split
      · rename_i hplace
        exact (List.eraseIdx_of_length_le (List.getElem?_eq_none_iff.mp hplace)).symm
      · rfl
    rw [Shows, hheld]
    exact forall₂_eraseIdx h place
  | work =>
    have hheld : (t.move env .work).held = t.held := by
      obtain ⟨runner, held, leaving⟩ := t
      cases runner <;> rfl
    rw [Shows, hheld]
    exact h

theorem submissions (hcalm : env.Calm) (h : t.Shows c drafts) (ht : t.Conserves c)
    (moves : List Move) :
    List.Forall₂ (fun record draft => record.Alike (draft.record c)) (t.submissions env moves)
      (t.drafts env drafts moves) := by
  induction moves generalizing t drafts with
  | nil => exact .nil
  | cons m moves ih =>
    have hfirst : List.Forall₂ (fun record draft => record.Alike (draft.record c))
        (t.submission? m).toList (draft? drafts m).toList := by
      cases m with
      | submit place thread => exact forall₂_getElem? h place
      | _ => exact .nil
    exact List.rel_append hfirst (ih (h.move ht m) (ht.move hcalm m))

end Shows
end Traffic
end Logbook
