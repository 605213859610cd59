set_option autoImplicit false

/-!
# Pools

A pool lends out items that were made beforehand, the one returned longest ago first. How many it
holds is counted beside the items, and a returned item that would exceed the capacity is let go.
`Counted` says that the count is right and within the capacity; every operation keeps it.
-/
namespace Logbook

structure Pool (α : Type) where
  /-- The items, in the order in which they will be lent. -/
  items : List α
  count : Nat
  capacity : Nat

namespace Pool

variable {α : Type}

def ofList (items : List α) : Pool α := ⟨items, items.length, items.length⟩

/-- Queues so many items as a factory makes them, which may have a state of its own. -/
def fill {σ : Type} (factory : σ → α × σ) : Nat → σ → List α → List α
  | 0, _, items => items
  | n + 1, state, items =>
    let (item, state) := factory state
    fill factory n state (items ++ [item])

def create {σ : Type} (capacity : Nat) (factory : σ → α × σ) (state : σ) : Pool α :=
  ⟨fill factory capacity state [], capacity, capacity⟩

def tryAcquire (p : Pool α) : Option (α × Pool α) :=
  match p.items with
  | [] => none
  | item :: rest => some (item, { p with items := rest, count := p.count - 1 })

theorem tryAcquire_eq_none_iff {p : Pool α} : p.tryAcquire = none ↔ p.items = [] := by
  obtain ⟨items, count, capacity⟩ := p
  cases items with
  | nil => exact iff_of_true rfl rfl
  | cons item rest => exact iff_of_false nofun nofun

theorem tryAcquire_eq_some_iff {p q : Pool α} {item : α} :
    p.tryAcquire = some (item, q) ↔
      p.items = item :: q.items ∧ q.count = p.count - 1 ∧ q.capacity = p.capacity := by
  obtain ⟨items, count, capacity⟩ := p
  obtain ⟨left, countLeft, capacityLeft⟩ := q
  cases items with
  | nil => exact iff_of_false nofun nofun
  | cons first rest =>
    simp only [tryAcquire, Option.some.injEq, Prod.mk.injEq, mk.injEq, List.cons.injEq, and_assoc]
    exact and_congr .rfl (and_congr .rfl (and_congr eq_comm eq_comm))

/-- Takes an item back, or lets it go when the pool is full. -/
def release (p : Pool α) (item : α) : Pool α :=
  if p.count < p.capacity then { p with items := p.items ++ [item], count := p.count + 1 }
  else p

theorem release_of_lt {p : Pool α} (h : p.count < p.capacity) (item : α) :
    p.release item = { p with items := p.items ++ [item], count := p.count + 1 } :=
  if_pos h

theorem release_of_not_lt {p : Pool α} (h : ¬p.count < p.capacity) (item : α) :
    p.release item = p :=
  if_neg h

def dispose (p : Pool α) : Pool α :=
  { items := [], count := p.count - p.items.length, capacity := 0 }

def Counted (p : Pool α) : Prop := p.count = p.items.length ∧ p.count ≤ p.capacity

theorem counted_ofList (items : List α) : (ofList items).Counted := ⟨rfl, Nat.le_refl _⟩

theorem counted_tryAcquire {p q : Pool α} {item : α} (h : p.Counted)
    (hq : p.tryAcquire = some (item, q)) : q.Counted := by
  obtain ⟨hitems, hcount, hcapacity⟩ := tryAcquire_eq_some_iff.1 hq
  obtain ⟨hc, hle⟩ := h
  rw [hitems, List.length_cons] at hc
  exact ⟨by omega, by omega⟩

theorem counted_release {p : Pool α} (h : p.Counted) (item : α) : (p.release item).Counted := by
  obtain ⟨hc, hle⟩ := h
  unfold release
  split
  · exact ⟨by simp only [List.length_append, List.length_singleton]; omega, by simp only; omega⟩
  · exact ⟨hc, hle⟩

theorem counted_dispose {p : Pool α} (h : p.Counted) : p.dispose.Counted := by
  obtain ⟨hc, -⟩ := h
  exact ⟨by simp only [dispose, List.length_nil]; omega, by simp only [dispose]; omega⟩

end Pool
end Logbook
