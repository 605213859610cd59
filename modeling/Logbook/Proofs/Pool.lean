import Logbook.Delivery.Stock
import Mathlib.Data.List.Basic
set_option autoImplicit false

/-!
# The books of a pool

A pool is put to uses in any order, and what is released need not have been lent by it. The count
agrees with the queue after every use, so it is never lowered below zero. Items leave in the order
in which they came in: first what the factory made, then what was accepted. A release is accepted
while the queue is shorter than the capacity. A disposed pool is one that was made without items,
and stays so.
-/
namespace Logbook
namespace Pool

variable {α : Type}

/-! ## Uses -/

/-- What a pool is put to. A released item may come from anywhere, and more than once. -/
inductive Use (α : Type) where
  | acquire
  | release (item : α)
  | dispose
  deriving DecidableEq

inductive Answer (α : Type) where
  | lent (item : α)
  | exhausted
  | accepted (item : α)
  | discarded (item : α)
  | disposed
  deriving DecidableEq

namespace Answer

def lent? : Answer α → Option α
  | .lent item => some item
  | _ => none

def accepted? : Answer α → Option α
  | .accepted item => some item
  | _ => none

end Answer

def Use.refusal : Use α → Answer α
  | .acquire => .exhausted
  | .release item => .discarded item
  | .dispose => .disposed

def use (p : Pool α) : Use α → Pool α
  | .acquire =>
    match p.tryAcquire with
    | some (_, p) => p
    | none => p
  | .release item => p.release item
  | .dispose => p.dispose

/-- What is seen of a use: an item is accepted if the queue is longer afterwards. -/
def answer (p : Pool α) : Use α → Answer α
  | .acquire =>
    match p.tryAcquire with
    | some (item, _) => .lent item
    | none => .exhausted
  | .release item =>
    if p.items.length < (p.release item).items.length then .accepted item else .discarded item
  | .dispose => .disposed

def used (p : Pool α) (uses : List (Use α)) : Pool α := uses.foldl use p

def answers (p : Pool α) : List (Use α) → List (Answer α)
  | [] => []
  | u :: uses => p.answer u :: (p.use u).answers uses

theorem used_append (p : Pool α) (uses more : List (Use α)) :
    p.used (uses ++ more) = (p.used uses).used more :=
  List.foldl_append

theorem answers_append (p : Pool α) (uses more : List (Use α)) :
    p.answers (uses ++ more) = p.answers uses ++ (p.used uses).answers more := by
  induction uses generalizing p with
  | nil => rfl
  | cons u uses ih =>
    change p.answer u :: (p.use u).answers (uses ++ more) = _
    rw [ih]
    rfl

/-! ## The factory -/

section Factory

variable {σ : Type} (factory : σ → α × σ)

def products : Nat → σ → List α
  | 0, _ => []
  | n + 1, state => (factory state).1 :: products n (factory state).2

theorem length_products (n : Nat) (state : σ) : (products factory n state).length = n := by
  induction n generalizing state with
  | zero => rfl
  | succ n ih => rw [products, List.length_cons, ih]

theorem fill_eq (n : Nat) (state : σ) (items : List α) :
    fill factory n state items = items ++ products factory n state := by
  induction n generalizing state items with
  | zero => rw [fill, products, List.append_nil]
  | succ n ih =>
    change fill factory n (factory state).2 (items ++ [(factory state).1]) = _
    rw [ih, products, List.append_assoc, List.singleton_append]

theorem create_eq_ofList (capacity : Nat) (state : σ) :
    create capacity factory state = ofList (products factory capacity state) := by
  unfold create ofList
  rw [fill_eq, List.nil_append, length_products]

theorem items_create (capacity : Nat) (state : σ) :
    (create capacity factory state).items = products factory capacity state :=
  congrArg items (create_eq_ofList factory capacity state)

theorem counted_create (capacity : Nat) (state : σ) :
    (create capacity factory state).Counted := by
  rw [create_eq_ofList]
  exact counted_ofList _

theorem products_numbered (make : Nat → α) (n first : Nat) :
    products (fun number => (make number, number + 1)) n first =
      (List.range' first n).map make := by
  induction n generalizing first with
  | zero => rfl
  | succ n ih => rw [products, ih, List.range'_succ, List.map_cons]

end Factory

/-! ## The count -/

theorem counted_use {p : Pool α} (h : p.Counted) (u : Use α) : (p.use u).Counted := by
  cases u with
  | acquire =>
    rw [use]
    split
    · rename_i hlent
      exact counted_tryAcquire h hlent
    · exact h
  | release item => exact counted_release h item
  | dispose => exact counted_dispose h

theorem counted_used {p : Pool α} (h : p.Counted) (uses : List (Use α)) :
    (p.used uses).Counted := by
  induction uses generalizing p with
  | nil => exact h
  | cons u uses ih => exact ih (counted_use h u)

def lowered? : Nat → Option Nat
  | 0 => none
  | count + 1 => some count

def drain? : Nat → List α → Option Nat
  | count, [] => some count
  | count, _ :: rest => (lowered? count).bind fun count => drain? count rest

/-- A use that has no result if the count would fall below zero. -/
def use? (p : Pool α) : Use α → Option (Pool α)
  | .acquire =>
    match p.items with
    | [] => some p
    | _ :: rest => (lowered? p.count).map fun count => { p with items := rest, count }
  | .release item => some (p.release item)
  | .dispose => (drain? p.count p.items).map fun count => ⟨[], count, 0⟩

def used? (p : Pool α) (uses : List (Use α)) : Option (Pool α) := uses.foldlM use? p

theorem drain?_length (items : List α) : drain? items.length items = some 0 := by
  induction items with
  | nil => rfl
  | cons item rest ih => exact ih

theorem dispose_eq {p : Pool α} (h : p.Counted) : p.dispose = ofList [] := by
  obtain ⟨hcount, -⟩ := h
  unfold dispose
  rw [hcount, Nat.sub_self]
  rfl

theorem use?_eq {p : Pool α} (h : p.Counted) (u : Use α) : p.use? u = some (p.use u) := by
  have hcount : p.count = p.items.length := h.1
  cases u with
  | acquire =>
    obtain ⟨items, count, capacity⟩ := p
    cases items with
    | nil => rfl
    | cons item rest =>
      -- the count is one more than the rest is long
      obtain rfl : count = rest.length + 1 := hcount
      rfl
  | release item => rfl
  | dispose =>
    change (drain? p.count p.items).map _ = some p.dispose
    rw [hcount, drain?_length, dispose_eq h]
    rfl

theorem used?_eq {p : Pool α} (h : p.Counted) (uses : List (Use α)) :
    p.used? uses = some (p.used uses) := by
  induction uses generalizing p with
  | nil => rfl
  | cons u uses ih =>
    unfold used?
    rw [List.foldlM_cons, use?_eq h u]
    exact ih (counted_use h u)

/-! ## The queue -/

theorem answer_acquire (p : Pool α) :
    p.answer .acquire = p.items.head?.elim .exhausted .lent := by
  obtain ⟨items, count, capacity⟩ := p
  cases items with
  | nil => rfl
  | cons item rest => rfl

theorem answer_release (p : Pool α) (item : α) :
    p.answer (.release item) =
      if p.count < p.capacity then .accepted item else .discarded item := by
  rw [answer]
  by_cases hroom : p.count < p.capacity
  · rw [if_pos hroom, release_of_lt hroom, List.length_append, List.length_singleton]
    exact if_pos (Nat.lt_succ_self _)
  · rw [if_neg hroom, release_of_not_lt hroom]
    exact if_neg (Nat.lt_irrefl _)

theorem capacity_use (p : Pool α) {u : Use α} (hu : u ≠ .dispose) :
    (p.use u).capacity = p.capacity := by
  cases u with
  | acquire =>
    obtain ⟨items, count, capacity⟩ := p
    cases items with
    | nil => rfl
    | cons item rest => rfl
  | release item =>
    rw [use]
    by_cases hroom : p.count < p.capacity
    · rw [release_of_lt hroom]
    · rw [release_of_not_lt hroom]
  | dispose => exact absurd rfl hu

/-- What was queued and what comes in is what goes out and what is queued then. -/
theorem items_use (p : Pool α) {u : Use α} (hu : u ≠ .dispose) :
    p.items ++ (p.answer u).accepted?.toList = (p.answer u).lent?.toList ++ (p.use u).items := by
  cases u with
  | acquire =>
    obtain ⟨items, count, capacity⟩ := p
    cases items with
    | nil => rfl
    | cons item rest => exact List.append_nil _
  | release item =>
    rw [answer_release, use]
    by_cases hroom : p.count < p.capacity
    · rw [if_pos hroom, release_of_lt hroom]
      rfl
    · rw [if_neg hroom, release_of_not_lt hroom]
      exact List.append_nil _
  | dispose => exact absurd rfl hu

theorem capacity_used (p : Pool α) {uses : List (Use α)} (h : .dispose ∉ uses) :
    (p.used uses).capacity = p.capacity := by
  induction uses generalizing p with
  | nil => rfl
  | cons u uses ih =>
    obtain ⟨hu, hrest⟩ := List.ne_and_not_mem_of_not_mem_cons h
    exact (ih (p.use u) hrest).trans (p.capacity_use (Ne.symm hu))

theorem items_used (p : Pool α) {uses : List (Use α)} (h : .dispose ∉ uses) :
    p.items ++ (p.answers uses).filterMap Answer.accepted? =
      (p.answers uses).filterMap Answer.lent? ++ (p.used uses).items := by
  induction uses generalizing p with
  | nil => exact List.append_nil _
  | cons u uses ih =>
    obtain ⟨hu, hrest⟩ := List.ne_and_not_mem_of_not_mem_cons h
    have hstep := p.items_use (Ne.symm hu)
    have hafter := ih (p.use u) hrest
    simp only [answers, List.filterMap_eq_flatMap_toList, List.flatMap_cons] at hafter ⊢
    calc
      p.items ++ ((p.answer u).accepted?.toList ++ _)
          = ((p.answer u).lent?.toList ++ (p.use u).items) ++ _ := by
        rw [← List.append_assoc, hstep]
      _ = (p.answer u).lent?.toList ++ (_ ++ ((p.use u).used uses).items) := by
        rw [List.append_assoc, hafter]
      _ = _ := (List.append_assoc _ _ _).symm

/-! ## Disposal -/

theorem use_nothing (u : Use α) : (ofList []).use u = ofList [] := by
  cases u with
  | acquire => rfl
  | release item => rfl
  | dispose => rfl

theorem answer_nothing (u : Use α) : (ofList []).answer u = u.refusal := by
  cases u with
  | acquire => rfl
  | release item => rfl
  | dispose => rfl

theorem used_nothing (uses : List (Use α)) : (ofList []).used uses = ofList [] := by
  induction uses with
  | nil => rfl
  | cons u uses ih =>
    change ((ofList []).use u).used uses = ofList []
    rw [use_nothing, ih]

theorem answers_nothing (uses : List (Use α)) :
    (ofList []).answers uses = uses.map Use.refusal := by
  induction uses with
  | nil => rfl
  | cons u uses ih => rw [answers, answer_nothing, use_nothing, ih, List.map_cons]

theorem lent?_refusal (u : Use α) : u.refusal.lent? = none := by
  cases u with
  | acquire => rfl
  | release item => rfl
  | dispose => rfl

theorem accepted?_refusal (u : Use α) : u.refusal.accepted? = none := by
  cases u with
  | acquire => rfl
  | release item => rfl
  | dispose => rfl

theorem filterMap_refusals {moved? : Answer α → Option α} (h : ∀ u : Use α, moved? u.refusal = none)
    (uses : List (Use α)) : (uses.map Use.refusal).filterMap moved? = [] := by
  rw [List.filterMap_map, List.filterMap_eq_nil_iff]
  intro u _
  exact h u

theorem used_dispose {p : Pool α} (h : p.Counted) (before after : List (Use α)) :
    p.used (before ++ .dispose :: after) = ofList [] := by
  rw [used_append]
  change (p.used before).dispose.used after = ofList []
  rw [dispose_eq (counted_used h before), used_nothing]

theorem answers_dispose {p : Pool α} (h : p.Counted) (before after : List (Use α)) :
    p.answers (before ++ .dispose :: after) =
      p.answers before ++ (.dispose :: after).map Use.refusal := by
  rw [answers_append]
  change _ ++ .disposed :: (p.used before).dispose.answers after = _
  rw [dispose_eq (counted_used h before), answers_nothing]
  rfl

/-- However a pool is used, its count is the length of its queue and within its capacity, and no
use lowers it below zero. What arrived, from the factory and then from outside, is lent in that
order, and the rest is queued. An item is accepted exactly if the queue is shorter than the
capacity, which is kept until the first disposal; from then on nothing is queued, lent or accepted,
and what was queued just before is lent no more. -/
theorem items_accounted {σ : Type} (capacity : Nat) (factory : σ → α × σ) (state : σ)
    (uses : List (Use α)) :
    let start := create capacity factory state
    let p := start.used uses
    let answers := start.answers uses
    let arrived := products factory capacity state ++ answers.filterMap Answer.accepted?
    let lent := answers.filterMap Answer.lent?
    (p.count = p.items.length ∧ p.count ≤ p.capacity) ∧
      start.used? uses = some p ∧
      p.answer .acquire = p.items.head?.elim .exhausted .lent ∧
      (∀ item, p.answer (.release item) =
        if p.items.length < p.capacity then .accepted item else .discarded item) ∧
      (.dispose ∉ uses → p.capacity = capacity ∧ arrived = lent ++ p.items) ∧
      ∀ before after, uses = before ++ .dispose :: after →
        p.capacity = 0 ∧ p.count = 0 ∧
          answers = start.answers before ++ (.dispose :: after).map Use.refusal ∧
          (.dispose ∉ before → arrived = lent ++ (start.used before).items) := by
  intro start p answers arrived lent
  have hmade : start.items = products factory capacity state := items_create factory capacity state
  have hstart : start.Counted := counted_create factory capacity state
  have hp : p.Counted := counted_used hstart uses
  refine ⟨hp, used?_eq hstart uses, p.answer_acquire, fun item => ?_, fun hopen => ?_,
    fun before after huses => ?_⟩
  · rw [answer_release, hp.1]
  · have horder := start.items_used hopen
    rw [hmade] at horder
    exact ⟨start.capacity_used hopen, horder⟩
  · have hgone : p = ofList [] := by
      simp only [p, huses]
      exact used_dispose hstart before after
    have hanswers : answers = start.answers before ++ (.dispose :: after).map Use.refusal := by
      simp only [answers, huses]
      exact answers_dispose hstart before after
    refine ⟨congrArg Pool.capacity hgone, congrArg Pool.count hgone, hanswers, fun hfirst => ?_⟩
    have horder := start.items_used hfirst
    rw [hmade] at horder
    simp only [arrived, lent, hanswers, List.filterMap_append, filterMap_refusals lent?_refusal,
      filterMap_refusals accepted?_refusal, List.append_nil]
    exact horder

/-- A pool of two takes a foreign item for one that it lent, but not that one as well. When it is
disposed, the foreign item is the only one that was not lent. -/
theorem items_accounted_two :
    let start := create 2 (fun number => (number, number + 1)) 1
    let before : List (Use Nat) := [.acquire, .release 9, .release 1, .acquire]
    let uses := before ++ [.dispose, .acquire, .release 7]
    let answers := start.answers uses
    .dispose ∉ before ∧ (start.used before).capacity = 2 ∧
      answers = [.lent 1, .accepted 9, .discarded 1, .lent 2, .disposed, .exhausted,
        .discarded 7] ∧
      [1, 2] ++ [9] = answers.filterMap Answer.lent? ++ (start.used before).items ∧
      (start.used uses).capacity = 0 ∧ (start.used uses).count = 0 := by
  intro start before uses answers
  have hopen : Use.dispose ∉ before := by decide
  obtain ⟨-, -, -, -, hkept, -⟩ := items_accounted 2 (fun number => (number, number + 1)) 1 before
  obtain ⟨-, -, -, -, -, hdisposed⟩ :=
    items_accounted 2 (fun number => (number, number + 1)) 1 uses
  obtain ⟨hcapacity, hcount, hanswers, horder⟩ := hdisposed before [.acquire, .release 7] rfl
  exact ⟨hopen, (hkept hopen).1, hanswers.trans (by decide), horder hopen, hcapacity, hcount⟩

end Pool

/-- The pool of a runner is one whose factory numbers the records. -/
theorem Stock.pool_create (c : Config) :
    (Stock.create c).pool = Pool.create c.poolSize
      (fun serial => (Record.create
        (Segment.zeroed (RegionLayout.fit c.poolSize c.segmentSize).size) c.stringCapacity serial,
          serial + 1)) 0 := by
  rw [Pool.create_eq_ofList, Pool.products_numbered, ← List.range_eq_range']
  rfl

end Logbook
