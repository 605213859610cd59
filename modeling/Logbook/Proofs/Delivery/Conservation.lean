import Logbook.Proofs.Delivery.Traffic
import Logbook.Proofs.Record.Invariant
import Mathlib.Data.List.Perm.Basic
set_option autoImplicit false

/-!
# Records are neither lost nor doubled

While a runner runs, each of its records is in the pool, with a producer, or with the worker. What a
turn does to them is an exchange between the runner and the producers: `Exchanges` says which
records went in and which came out, and that a record is let go only if the pool is full without
it. So there are never fewer records than the pool was made for.

Each operation on the pool is one turn.
-/
namespace Logbook

variable {env : Environment} {c : Config}

def Record.Suits (c : Config) (record : Record) : Prop :=
  record.segment.size = min c.segmentSize maxRegionSize ∧ record.stringCapacity = c.stringCapacity

/-- One of the records that were made for a configuration, whatever was written into it since. -/
structure Record.Sound (c : Config) (made : Nat) (record : Record) : Prop where
  suits : record.Suits c
  holds : ∃ entries marked, record.Holds entries marked
  serial_lt : record.serial < made

namespace Record.Sound

variable {made : Nat} {record : Record}

theorem mono (h : record.Sound c made) {made' : Nat} (hle : made ≤ made') :
    record.Sound c made' :=
  { h with serial_lt := Nat.lt_of_lt_of_le h.serial_lt hle }

theorem perform (h : record.Sound c made) (op : Operation) :
    (record.perform op).Sound c made ∧ (record.perform op).serial = record.serial := by
  obtain ⟨entries, marked, hholds⟩ := h.holds
  obtain ⟨hsize, hcapacity⟩ := perform_room hholds.strings_le op
  have hserial := serial_perform hholds.strings_le op
  obtain ⟨entries', marked', hholds', -⟩ := hholds.perform op
  exact ⟨{
    suits := ⟨hsize.trans h.suits.1, hcapacity.trans h.suits.2⟩
    holds := ⟨entries', marked', hholds'⟩
    serial_lt := hserial ▸ h.serial_lt }, hserial⟩

theorem run (h : record.Sound c made) (ops : List Operation) :
    (record.run ops).Sound c made ∧ (record.run ops).serial = record.serial := by
  induction ops generalizing record with
  | nil => exact ⟨h, rfl⟩
  | cons op ops ih =>
    obtain ⟨hperform, hserial⟩ := h.perform op
    obtain ⟨hrun, hserial'⟩ := ih hperform
    exact ⟨hrun, hserial'.trans hserial⟩

end Record.Sound

structure Stock.Serves (c : Config) (s : Stock) : Prop where
  running : s.running = true
  counted : s.pool.Counted
  capacity : s.pool.capacity = c.poolSize
  segmentSize : s.segmentSize = min c.segmentSize maxRegionSize
  stringCapacity : s.stringCapacity = c.stringCapacity
  stringCapacity_le : c.stringCapacity ≤ maxStringCapacity

namespace Stock.Serves

variable {s : Stock}

theorem create (hcapacity : c.stringCapacity ≤ maxStringCapacity) :
    (Stock.create c).Serves c where
  running := rfl
  counted := Pool.counted_ofList _
  capacity := by simp [Stock.create, Pool.ofList]
  segmentSize := rfl
  stringCapacity := rfl
  stringCapacity_le := hcapacity

theorem pool_length_le (h : s.Serves c) : s.pool.items.length ≤ c.poolSize := by
  obtain ⟨hcount, hle⟩ := h.counted
  have hcapacity := h.capacity
  omega

theorem allocate (h : s.Serves c) :
    s.allocate.2.Serves c ∧ s.allocate.1.Sound c s.allocate.2.made := by
  refine ⟨{ h with }, ⟨h.segmentSize, ?_⟩, ⟨[], false, Record.Holds.create _ _ _⟩,
    Nat.lt_succ_self _⟩
  change min s.stringCapacity maxStringCapacity = c.stringCapacity
  rw [h.stringCapacity]
  exact Nat.min_eq_left h.stringCapacity_le

theorem tryAcquire_eq (h : s.Serves c) : s.tryAcquire =
    s.pool.tryAcquire.map fun (record, pool) => (record, { s with pool }) := by
  rw [tryAcquire, if_pos h.running]

theorem items_of_tryAcquire_none (h : s.Serves c) (hnone : s.tryAcquire = none) :
    s.pool.items = [] := by
  rw [h.tryAcquire_eq, Option.map_eq_none_iff] at hnone
  exact Pool.tryAcquire_eq_none_iff.1 hnone

theorem tryAcquire (h : s.Serves c) {record : Record} {after : Stock}
    (hsome : s.tryAcquire = some (record, after)) :
    after.Serves c ∧ after.made = s.made ∧ s.pool.items = record :: after.pool.items := by
  rw [h.tryAcquire_eq, Option.map_eq_some_iff] at hsome
  obtain ⟨⟨record', pool⟩, hpool, heq⟩ := hsome
  cases heq
  obtain ⟨hitems, -, hcapacity⟩ := Pool.tryAcquire_eq_some_iff.1 hpool
  exact ⟨{ h with
    counted := Pool.counted_tryAcquire h.counted hpool
    capacity := hcapacity.trans h.capacity }, rfl, hitems⟩

/-- A record that comes back is let go only if the pool is full. -/
theorem release (h : s.Serves c) (record : Record) :
    (s.release record).Serves c ∧
      ∃ gone, (s.pool.items ++ [record]).Perm (gone ++ (s.release record).pool.items) ∧
        (gone = [] ∨ c.poolSize ≤ (s.release record).pool.items.length) := by
  have hcapacity := h.capacity
  obtain ⟨hcount, hle⟩ := h.counted
  have hcounted := Pool.counted_release h.counted record
  by_cases hroom : s.pool.count < s.pool.capacity
  · have hrelease : s.pool.release record =
        { s.pool with items := s.pool.items ++ [record], count := s.pool.count + 1 } :=
      Pool.release_of_lt hroom record
    refine ⟨{ h with counted := hcounted, capacity := ?_ }, [], ?_, .inl rfl⟩
    · rw [Stock.release, hrelease]
      exact hcapacity
    · rw [Stock.release, hrelease]
      exact .rfl
  · have hrelease : s.pool.release record = s.pool := Pool.release_of_not_lt hroom record
    refine ⟨{ h with counted := hcounted, capacity := ?_ }, [record], ?_, .inr ?_⟩
    · rw [Stock.release, hrelease]
      exact hcapacity
    · rw [Stock.release, hrelease]
      exact List.perm_append_comm
    · rw [Stock.release, hrelease]
      change c.poolSize ≤ s.pool.items.length
      omega

end Stock.Serves

/-! ## What runners do with records -/

namespace Runner

def records (runner : Runner) : List Record := runner.stock.pool.items ++ runner.pending

def Serves (c : Config) : Runner → Prop
  | .immediate r => r.stock.Serves c
  | .background r => r.stock.Serves c ∧ r.stage ≠ .stopping

theorem Serves.stock {runner : Runner} (h : runner.Serves c) : runner.stock.Serves c := by
  cases runner with
  | immediate r => exact h
  | background r => exact h.1

theorem Serves.withStock {runner : Runner} (h : runner.Serves c) {stock : Stock}
    (hstock : stock.Serves c) : (runner.withStock stock).Serves c := by
  cases runner with
  | immediate r => exact hstock
  | background r => exact ⟨hstock, h.2⟩

@[simp] theorem stock_withStock (runner : Runner) (stock : Stock) :
    (runner.withStock stock).stock = stock := by
  cases runner <;> rfl

@[simp] theorem pending_withStock (runner : Runner) (stock : Stock) :
    (runner.withStock stock).pending = runner.pending := by
  cases runner <;> rfl

/-- A runner takes some records in and gives some out, and makes none. What it has let go then, a
full pool had no room for. -/
structure Exchanges (c : Config) (before : Runner) (taken : List Record) (after : Runner)
    (given : List Record) : Prop where
  serves : after.Serves c
  made_eq : after.stock.made = before.stock.made
  kept : ∃ gone, (before.records ++ taken).Perm (gone ++ (after.records ++ given)) ∧
    (gone = [] ∨ c.poolSize ≤ after.stock.pool.items.length)

theorem Exchanges.of_eq {before after : Runner} (hserves : after.Serves c)
    (hpool : after.stock.pool = before.stock.pool) (hmade : after.stock.made = before.stock.made)
    (hpending : after.pending = before.pending) : Exchanges c before [] after [] where
  serves := hserves
  made_eq := hmade
  kept := ⟨[], by rw [records, records, hpool, hpending]; exact .rfl, .inl rfl⟩

variable {runner : Runner}

theorem start_serves (hstart : start env c = .running runner) :
    runner.Serves c ∧ runner.stock.made = c.poolSize ∧
      runner.stock.pool.items = (Stock.create c).pool.items ∧ runner.pending = [] := by
  rcases start_running hstart with ⟨r, himmediate, rfl⟩ | ⟨r, hbackground, rfl⟩
  · obtain ⟨hstock, hcapacity⟩ := Immediate.start_running himmediate
    have hserves : r.stock.Serves c := hstock ▸ Stock.Serves.create hcapacity
    exact ⟨hserves, congrArg Stock.made hstock, congrArg (·.pool.items) hstock, rfl⟩
  · obtain ⟨hqueue, hstage, hstock, hcapacity⟩ := Background.start_running hbackground
    have hserves : r.stock.Serves c := hstock ▸ Stock.Serves.create hcapacity
    refine ⟨⟨hserves, fun hstop => by cases hstage.symm.trans hstop⟩, congrArg Stock.made hstock,
      congrArg (·.pool.items) hstock, ?_⟩
    simp [pending, Background.inHand, hstage, hqueue]

theorem tryAcquire_exchanges (h : runner.Serves c) {record : Record} {after : Stock}
    (hsome : runner.stock.tryAcquire = some (record, after)) :
    Exchanges c runner [] (runner.withStock after) [record] := by
  obtain ⟨hserves, hmade, hitems⟩ := h.stock.tryAcquire hsome
  refine ⟨h.withStock hserves, by rw [stock_withStock, hmade], [], ?_, .inl rfl⟩
  simp only [records, stock_withStock, pending_withStock, hitems, List.nil_append, List.append_nil]
  exact (List.perm_append_singleton _ _).symm

theorem enter_exchanges (env : Environment) (h : runner.Serves c) (thread : String)
    (record : Record) :
    (runner.enter env thread record).2 = true ∧
      Exchanges c runner [] (runner.enter env thread record).1 [] := by
  cases runner with
  | immediate r =>
    obtain ⟨stock, outlet, journal⟩ := r
    refine ⟨rfl, ?_⟩
    cases outlet with
    | none => exact .of_eq h rfl rfl rfl
    | some outlet =>
      have hserves : stock.takeDropped.2.Serves c := { h with }
      exact .of_eq hserves rfl rfl rfl
  | background r => exact ⟨h.1.running, .of_eq h rfl rfl rfl⟩

theorem settleRecord_exchanges (h : runner.Serves c) (record : Record) :
    Exchanges c runner [record] (runner.settleRecord record) [] := by
  cases runner with
  | immediate r =>
    have hserves : r.stock.Serves c := h
    obtain ⟨hrelease, gone, hperm, hgone⟩ := hserves.release record
    refine ⟨hrelease, rfl, gone, ?_, hgone⟩
    simpa [records, settleRecord, Immediate.giveBack, stock, pending] using hperm
  | background r =>
    refine ⟨h, rfl, [], ?_, .inl rfl⟩
    simp only [records, settleRecord, Background.push, stock, pending, Background.inHand]
    simp

theorem noteDropped_exchanges (h : runner.Serves c) :
    Exchanges c runner [] (runner.withStock runner.stock.noteDropped) [] := by
  have hserves : runner.stock.noteDropped.Serves c := { h.stock with }
  exact .of_eq (h.withStock hserves) (by rw [stock_withStock]; rfl) (by rw [stock_withStock]; rfl)
    (pending_withStock _ _)

theorem update_exchanges (h : runner.Serves c) (c' : Config) :
    Exchanges c runner [] (runner.update env c').1 [] := by
  cases runner with
  | immediate r =>
    obtain ⟨stock, outlet, journal⟩ := r
    rw [update, Immediate.update]
    cases c'.arrange with
    | error error => exact .of_eq h rfl rfl rfl
    | ok arrangement =>
      cases outlet with
      | none => exact .of_eq h rfl rfl rfl
      | some outlet =>
        have hserves (policy : ExhaustionPolicy) : ({ stock with policy } : Stock).Serves c :=
          { h with }
        exact .of_eq (hserves _) rfl rfl rfl
  | background r =>
    rw [update, Background.update]
    cases c'.arrange with
    | error error => exact .of_eq h rfl rfl rfl
    | ok arrangement =>
      cases haccepting : r.accepting with
      | true => exact .of_eq h rfl rfl rfl
      | false => exact .of_eq h rfl rfl rfl

theorem step_exchanges (hcalm : env.Calm) {r : Background} (h : (Runner.background r).Serves c) :
    Exchanges c (.background r) [] (.background (r.step env)) [] := by
  obtain ⟨hstock, hstage⟩ := h
  have hsame (s : Background) (hs : s.stage ≠ .stopping) (heq : s.stock = r.stock)
      (hpending : s.inHand ++ s.queue = r.inHand ++ r.queue) :
      Exchanges c (.background r) [] (.background s) [] :=
    .of_eq ⟨heq ▸ hstock, hs⟩ (congrArg Stock.pool heq) (congrArg Stock.made heq) hpending
  cases hcase : r.stage with
  | ready =>
    cases hqueue : r.queue with
    | nil =>
      rw [Background.step_ready_nil hcase hqueue]
      exact hsame _ (fun hstop => by cases hstop) rfl (by simp [Background.inHand, hcase])
    | cons record rest =>
      rw [Background.step_ready_cons hcalm hcase hqueue]
      exact hsame _ (fun hstop => by cases hstop) rfl (by simp [Background.inHand, hcase, hqueue])
  | delivered record =>
    rw [Background.step_delivered hcase]
    obtain ⟨hrelease, gone, hperm, hgone⟩ := hstock.release record
    refine ⟨⟨hrelease, fun hstop => by cases hstop⟩, rfl, gone, ?_, hgone⟩
    simpa [records, stock, pending, Background.inHand, hcase] using hperm.append_right r.queue
  | idle =>
    rw [Background.step_idle hcase hstock.running]
    obtain ⟨dropped, policy, published, phase, hturn⟩ := Background.useTurn_calm hcalm (r := r)
    rw [hturn]
    have hserves : ({ r.stock with dropped, policy } : Stock).Serves c := { hstock with }
    exact .of_eq ⟨hserves, fun hstop => by cases hstop⟩ rfl rfl
      (by simp [pending, Background.inHand, hcase, Background.carryOut])
  -- only a worker that saw its runner stop looks at the queue again
  | stopping => exact absurd hcase hstage
  | ended lost =>
    rw [Background.step_ended hcase]
    exact hsame r hstage rfl rfl

end Runner

/-! ## What everyone does with records -/

theorem perm_eraseIdx {α : Type} {xs : List α} {place : Nat} {x : α}
    (hplace : xs[place]? = some x) : xs.Perm (x :: xs.eraseIdx place) := by
  obtain ⟨hlt, rfl⟩ := List.getElem?_eq_some_iff.mp hplace
  exact (List.getElem_cons_eraseIdx_perm hlt).symm

/-- A turn of the runner, or of a producer that has its records from the runner. -/
def Act.isOwn : Act → Bool
  | .bring _ => false
  | .stop _ => false
  | _ => true

namespace Traffic

def pooled (t : Traffic) : List Record := t.runner.stock.pool.items

def outstanding (t : Traffic) : List Record := t.held ++ t.leaving ++ t.runner.pending

structure Conserves (c : Config) (t : Traffic) : Prop where
  serves : t.runner.Serves c
  sound : ∀ record ∈ t.pooled ++ t.outstanding, record.Sound c t.runner.stock.made
  distinct : ((t.pooled ++ t.outstanding).map Record.serial).Nodup
  enough : c.poolSize ≤ (t.pooled ++ t.outstanding).length

namespace Conserves

variable {t t' : Traffic}

theorem exchange (h : t.Conserves c) {taken given : List Record}
    (hrunner : Runner.Exchanges c t.runner taken t'.runner given)
    (hproducers : (t.held ++ t.leaving ++ given).Perm (t'.held ++ t'.leaving ++ taken)) :
    t'.Conserves c := by
  obtain ⟨hserves, hmade, gone, hkept, hgone⟩ := hrunner
  have hperm : (t.pooled ++ t.outstanding).Perm (gone ++ (t'.pooled ++ t'.outstanding)) := by
    classical
    -- only how often a record occurs matters, and counts add up
    rw [List.perm_iff_count] at hkept hproducers ⊢
    intro record
    have hrecord := hkept record
    have hrecord' := hproducers record
    simp only [Runner.records, pooled, outstanding, List.count_append] at *
    omega
  exact {
    serves := hserves
    sound := by
      intro record hrecord
      rw [hmade]
      exact h.sound record (hperm.symm.subset (List.mem_append_right _ hrecord))
    distinct := by
      have hnodup := (hperm.map Record.serial).nodup_iff.mp h.distinct
      rw [List.map_append] at hnodup
      exact (List.nodup_append.mp hnodup).2.1
    enough := by
      rcases hgone with rfl | hfull
      · rw [← List.nil_append (t'.pooled ++ t'.outstanding), ← hperm.length_eq]
        exact h.enough
      · rw [List.length_append]
        exact Nat.le_trans hfull (Nat.le_add_right _ _) }

theorem allocate (h : t.Conserves c) : (t.perform env .allocate).Conserves c := by
  obtain ⟨runner, held, leaving⟩ := t
  obtain ⟨hstock, hsound⟩ := h.serves.stock.allocate
  let t' := Traffic.perform env ⟨runner, held, leaving⟩ .allocate
  have hmade : t'.runner.stock.made = runner.stock.made + 1 := by
    simp [t', Traffic.perform, Stock.allocate]
  have hperm : (t'.pooled ++ t'.outstanding).Perm (runner.stock.allocate.1 ::
      (pooled ⟨runner, held, leaving⟩ ++ outstanding ⟨runner, held, leaving⟩)) := by
    simp only [t', Traffic.perform, pooled, outstanding, Runner.stock_withStock,
      Runner.pending_withStock, List.cons_append]
    exact List.perm_middle
  exact {
    serves := h.serves.withStock hstock
    sound := by
      intro record hrecord
      rcases List.mem_cons.mp (hperm.subset hrecord) with rfl | hold
      · rw [hmade]
        exact hsound
      · rw [hmade]
        exact (h.sound record hold).mono (Nat.le_succ _)
    distinct := by
      rw [(hperm.map Record.serial).nodup_iff, List.map_cons, List.nodup_cons]
      refine ⟨fun hmem => ?_, h.distinct⟩
      obtain ⟨record, hrecord, hserial⟩ := List.mem_map.mp hmem
      exact Nat.ne_of_lt (h.sound record hrecord).serial_lt hserial
    enough := by
      rw [hperm.length_eq, List.length_cons]
      exact Nat.le_succ_of_le h.enough }

theorem fill (h : t.Conserves c) (place : Nat) (ops : List Operation) :
    (t.perform env (.fill place ops)).Conserves c := by
  obtain ⟨runner, held, leaving⟩ := t
  by_cases hplace : place < held.length
  · -- the record changes, but neither its room nor its serial number
    obtain ⟨before, record, after, rfl, -, hmodify⟩ :=
      List.exists_of_modify (fun record => record.run ops) hplace
    obtain ⟨hsound, hserial⟩ :=
      (h.sound record (by simp [outstanding])).run ops
    rw [Traffic.perform, hmodify]
    exact {
      serves := h.serves
      sound := by
        intro other hother
        have hcases : other = record.run ops ∨
            other ∈ pooled ⟨runner, before ++ record :: after, leaving⟩ ++
              outstanding ⟨runner, before ++ record :: after, leaving⟩ := by
          simp only [pooled, outstanding, List.mem_append, List.mem_cons] at hother ⊢
          tauto
        rcases hcases with rfl | hold
        · exact hsound
        · exact h.sound other hold
      distinct := by
        have hdistinct := h.distinct
        simp only [pooled, outstanding, List.map_append, List.map_cons, hserial] at hdistinct ⊢
        exact hdistinct
      enough := by
        have henough := h.enough
        simp only [pooled, outstanding, List.length_append, List.length_cons] at henough ⊢
        exact henough }
  · rw [Traffic.perform, List.modify_eq_self (Nat.le_of_not_lt hplace)]
    exact h

/-- What producers do, and what is done to the settings, is an exchange whether appenders break off
or not. -/
theorem perform_of_ne_work (h : t.Conserves c) {act : Act} (hact : act.isOwn = true)
    (hwork : act ≠ .work) : (t.perform env act).Conserves c := by
  obtain ⟨runner, held, leaving⟩ := t
  cases act with
  | acquire =>
    cases hacquire : runner.stock.tryAcquire with
    | none =>
      simp only [Traffic.perform, hacquire]
      exact h
    | some lent =>
      obtain ⟨record, after⟩ := lent
      simp only [Traffic.perform, hacquire]
      refine h.exchange (Runner.tryAcquire_exchanges h.serves hacquire) ?_
      simp only [List.append_nil]
      exact List.perm_append_singleton _ _
  | allocate => exact h.allocate
  | bring record => cases hact
  | fill place ops => exact h.fill place ops
  | submit place thread =>
    cases hplace : held[place]? with
    | none =>
      simp only [Traffic.perform, hplace]
      exact h
    | some record =>
      obtain ⟨hsecond, hexchange⟩ :=
        Runner.enter_exchanges env h.serves thread record
      simp only [Traffic.perform, hplace]
      generalize runner.enter env thread record = entered at hsecond hexchange
      obtain ⟨after, second⟩ := entered
      cases hsecond
      refine h.exchange hexchange ?_
      simp only [List.append_nil]
      exact ((perm_eraseIdx hplace).append_right leaving).trans List.perm_middle.symm
  | settle place =>
    cases hplace : leaving[place]? with
    | none =>
      simp only [Traffic.perform, hplace]
      exact h
    | some record =>
      simp only [Traffic.perform, hplace]
      refine h.exchange (Runner.settleRecord_exchanges h.serves record) ?_
      simp only [List.append_nil, List.append_assoc]
      exact ((perm_eraseIdx hplace).trans (List.perm_append_singleton _ _).symm).append_left held
  | noteDropped => exact h.exchange (Runner.noteDropped_exchanges h.serves) .rfl
  | update c' => exact h.exchange (Runner.update_exchanges h.serves c') .rfl
  | stop thread => cases hact
  | work => exact absurd rfl hwork

theorem work (hcalm : env.Calm) (h : t.Conserves c) : (t.perform env .work).Conserves c := by
  obtain ⟨runner, held, leaving⟩ := t
  cases runner with
  | immediate r => exact h
  | background r => exact h.exchange (Runner.step_exchanges hcalm h.serves) .rfl

theorem perform (hcalm : env.Calm) (h : t.Conserves c) {act : Act} (hact : act.isOwn = true) :
    (t.perform env act).Conserves c := by
  cases act with
  | work => exact h.work hcalm
  | _ => exact h.perform_of_ne_work hact nofun

theorem run (hcalm : env.Calm) (h : t.Conserves c) {acts : List Act}
    (hacts : ∀ act ∈ acts, act.isOwn = true) : (t.run env acts).Conserves c := by
  induction acts generalizing t with
  | nil => exact h
  | cons act acts ih =>
    exact ih (h.perform hcalm (hacts act List.mem_cons_self)) fun other hother =>
      hacts other (List.mem_cons_of_mem _ hother)

theorem fresh {runner : Runner} (hstart : Runner.start env c = .running runner) :
    Conserves c { runner } := by
  obtain ⟨hserves, hmade, hitems, hpending⟩ := Runner.start_serves hstart
  have hrecords : pooled { runner } ++ outstanding { runner } = (Stock.create c).pool.items := by
    rw [pooled, outstanding, hitems, hpending]
    exact List.append_nil _
  have hserials : (Stock.create c).pool.items.map Record.serial = List.range c.poolSize := by
    change ((List.range c.poolSize).map _).map _ = _
    rw [List.map_map]
    exact List.map_id _
  exact {
    serves := hserves
    sound := by
      rw [hrecords, hmade]
      intro record hrecord
      obtain ⟨serial, hserial, rfl⟩ := List.mem_map.mp hrecord
      exact {
        suits := ⟨rfl, Nat.min_eq_left hserves.stock.stringCapacity_le⟩
        holds := ⟨[], false, Record.Holds.create _ _ _⟩
        serial_lt := List.mem_range.mp hserial }
    distinct := by
      rw [hrecords, hserials]
      exact List.nodup_range
    enough := by
      have hlength := congrArg List.length hserials
      rw [List.length_map, List.length_range] at hlength
      rw [hrecords]
      exact Nat.le_of_eq hlength.symm }

end Conserves
end Traffic

/-- While a runner runs and no appender breaks off, whatever producers do with the records they have
from it: the pool holds at most the records it was made for; no record is in two places; each has
the room that the configuration asked for; and pool and producers and worker have together at least
as many as the pool was made for, so that the pool is empty only if as many are out. -/
theorem records_conserved (hcalm : env.Calm) {runner : Runner}
    (hstart : Runner.start env c = .running runner) {acts : List Act}
    (hacts : ∀ act ∈ acts, act.isOwn = true) :
    let t := Traffic.run env { runner } acts
    t.runner.isRunning = true ∧
      t.pooled.length ≤ c.poolSize ∧
      ((t.pooled ++ t.outstanding).map Record.serial).Nodup ∧
      (∀ record ∈ t.pooled ++ t.outstanding, record.Suits c) ∧
      (∀ record stock, t.runner.stock.tryAcquire = some (record, stock) → record.Suits c) ∧
      t.runner.stock.allocate.1.Suits c ∧
      c.poolSize ≤ t.pooled.length + t.outstanding.length ∧
      (t.runner.stock.tryAcquire = none → c.poolSize ≤ t.outstanding.length) := by
  intro t
  have h : t.Conserves c := (Traffic.Conserves.fresh hstart).run hcalm hacts
  have hserves := h.serves.stock
  have henough := h.enough
  rw [List.length_append] at henough
  refine ⟨hserves.running, hserves.pool_length_le, h.distinct,
    fun record hrecord => (h.sound record hrecord).suits, fun record stock hsome => ?_,
    hserves.allocate.2.suits, henough, fun hnone => ?_⟩
  · obtain ⟨-, -, hitems⟩ := hserves.tryAcquire hsome
    refine (h.sound record (List.mem_append_left _ ?_)).suits
    rw [Traffic.pooled, hitems]
    exact List.mem_cons_self
  · rw [Traffic.pooled, hserves.items_of_tryAcquire_none hnone, List.length_nil, Nat.zero_add]
      at henough
    exact henough

theorem records_conserved_extra_record : ∃ runner,
    Runner.start {} { poolSize := 1, heading := "" } = .running runner ∧
      let t := Traffic.run {} { runner }
        [.acquire, .allocate, .submit 0 "main", .settle 0, .work, .work]
      t.pooled.map Record.serial = [1] ∧ t.outstanding.map Record.serial = [0] ∧
        t.pooled.length ≤ 1 ∧ ((t.pooled ++ t.outstanding).map Record.serial).Nodup := by
  obtain ⟨runner, hstart⟩ : ∃ runner,
      Runner.start {} { poolSize := 1, heading := "" } = .running runner := ⟨_, rfl⟩
  have hcalm : Environment.Calm {} := fun _ _ _ _ hreply => by cases hreply
  have hacts : ∀ act ∈ ([.acquire, .allocate, .submit 0 "main", .settle 0, .work, .work] :
      List Act), act.isOwn = true := by decide
  obtain ⟨-, hpooled, hdistinct, -⟩ := records_conserved hcalm hstart hacts
  refine ⟨runner, hstart, ?_, ?_, hpooled, hdistinct⟩
  · cases hstart
    rfl
  · cases hstart
    rfl

end Logbook
