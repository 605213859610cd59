import Logbook.Proofs.Delivery.Conservation
import Logbook.Proofs.Delivery.Lifecycle
import Logbook.Logger
set_option autoImplicit false

/-!
# What becomes of every event

Producers ask for records through loggers, fill and submit them, any number at once, while someone
changes the configuration and shuts the runner down. A ledger goes along: it numbers the events that
their logger lets through, and enters what became of each. So an event is with a producer or it is
settled, in one of four ways and once.
-/
namespace Logbook

open Record

variable {env : Environment} {c : Config}

inductive Settlement where
  | delivered
  | dropped
  | counted
  /-- The record came back after the runner had stopped. -/
  | discarded
  deriving DecidableEq

theorem Settlement.length_eq (settlements : List Settlement) :
    settlements.length = settlements.count .delivered + settlements.count .counted +
      (settlements.count .dropped + settlements.count .discarded) := by
  induction settlements with
  | nil => rfl
  | cons settlement settlements ih =>
    rw [List.length_cons, ih]
    cases settlement <;> simp only [List.count_cons, beq_iff_eq, reduceCtorEq, ↓reduceIte] <;> omega

/-- What producers do, and who runs the program. Records are named by their place among those that
are held. -/
inductive Deed where
  | acquire (l : Logger) (level : Level) (now : Calendar.Instant) (thread : String)
  | fill (place : Nat) (parts : List Part)
  | submit (place : Nat) (thread : String)
  | update (c : Config)
  | shutdown (thread : String)

namespace Deed

def event? : Deed → Option Level
  | .acquire l level _ _ => if l.isEnabled level then some level else none
  | _ => none

def isSubmit : Deed → Bool
  | .submit .. => true
  | _ => false

def logging (l : Logger) (level : Level) (now : Calendar.Instant) (thread : String)
    (parts : List Part) : Fate → List Deed
  | .submitted => [.acquire l level now thread, .fill 0 parts, .submit 0 thread]
  | _ => [.acquire l level now thread]

end Deed

structure Holding where
  number : Nat
  level : Level
  record : Record

structure Ledger where
  runner : Immediate
  configured : Config
  events : List Level := []
  held : List Holding := []
  settled : List (Nat × Settlement) := []

namespace Ledger

def enter (b : Ledger) (level : Level) : Acquisition → Ledger
  | .granted record =>
    { b with
      events := b.events ++ [level]
      held := ⟨b.events.length, level, record⟩ :: b.held }
  | .dropped =>
    { b with
      events := b.events ++ [level]
      settled := (b.events.length, .dropped) :: b.settled }
  | .counted =>
    { b with
      events := b.events ++ [level]
      settled := (b.events.length, .counted) :: b.settled }
  | .filtered | .waiting => { b with events := b.events ++ [level] }

def take (env : Environment) (b : Ledger) : Deed → Ledger
  | .acquire l level now thread =>
    let (acquisition, stock) := l.acquire level now thread b.runner.stock
    let b : Ledger := { b with runner.stock := stock }
    if l.isEnabled level then b.enter level acquisition else b
  | .fill place parts =>
    { b with held := b.held.modify place fun h =>
        { h with record := parts.foldl Record.add h.record } }
  | .submit place thread =>
    match b.held[place]? with
    | none => b
    | some h =>
      { b with
        runner := (b.runner.submit env thread h.record).1
        held := b.held.eraseIdx place
        settled :=
          (h.number, if b.runner.stock.running then .delivered else .discarded) :: b.settled }
  | .update c =>
    let (runner, outcome) := b.runner.update env c
    { b with runner, configured := if outcome = .done then c else b.configured }
  | .shutdown thread => { b with runner := (b.runner.shutdown env thread).1 }

def run (env : Environment) (b : Ledger) (deeds : List Deed) : Ledger := deeds.foldl (take env) b

theorem run_append (env : Environment) (b : Ledger) (first rest : List Deed) :
    b.run env (first ++ rest) = (b.run env first).run env rest :=
  List.foldl_append

end Ledger

/-! ## Asking for a record -/

theorem Stock.empty_of_tryAcquire {s : Stock} (h : s.tryAcquire = none) :
    s.running = true ∧ s.pool.items = [] := by
  rw [tryAcquire] at h
  split at h
  · rename_i hrunning
    rw [Option.map_eq_none_iff] at h
    exact ⟨hrunning, Pool.tryAcquire_eq_none_iff.1 h⟩
  · cases h

theorem Stock.policy_tryAcquire {s s' : Stock} {record : Record}
    (h : s.tryAcquire = some (record, s')) : s'.policy = s.policy := by
  rw [tryAcquire] at h
  split at h
  · obtain ⟨lent, -, heq⟩ := Option.map_eq_some_iff.mp h
    cases heq
    rfl
  · cases h
    rfl

namespace Logger

variable {l : Logger} {level : Level}

theorem acquire_of_not_enabled (h : l.isEnabled level = false) (now : Calendar.Instant)
    (thread : String) (stock : Stock) :
    l.acquire level now thread stock = (.filtered, stock) := by
  rw [acquire, h]
  exact if_neg Bool.false_ne_true

theorem acquire_cases (h : l.isEnabled level = true) (now : Calendar.Instant) (thread : String)
    {stock : Stock} (hpolicy : stock.policy ≠ .wait) :
    (∃ record after, l.acquire level now thread stock = (.granted record, after) ∧
      record.level = level ∧ after.running = stock.running ∧ after.policy = stock.policy ∧
      after.dropped = stock.dropped) ∨
    (stock.running = true ∧ stock.pool.items = []) ∧
      (stock.policy = .drop ∧ l.acquire level now thread stock = (.dropped, stock) ∨
        stock.policy = .dropAndNotify ∧
          l.acquire level now thread stock = (.counted, stock.noteDropped)) := by
  rw [acquire, if_pos h]
  cases hlent : stock.tryAcquire with
  | some lent =>
    obtain ⟨record, after⟩ := lent
    obtain ⟨hrunning, -, -, hdropped⟩ := stock.tryAcquire_keeps hlent
    exact .inl ⟨_, after, rfl, rfl, hrunning, Stock.policy_tryAcquire hlent, hdropped⟩
  | none =>
    rw [onExhausted]
    cases hcase : stock.policy with
    | drop => exact .inr ⟨Stock.empty_of_tryAcquire hlent, .inl ⟨rfl, rfl⟩⟩
    | dropAndNotify => exact .inr ⟨Stock.empty_of_tryAcquire hlent, .inr ⟨rfl, rfl⟩⟩
    | allocate => exact .inl ⟨_, _, rfl, rfl, rfl, hcase, rfl⟩
    | wait => exact absurd hcase hpolicy

end Logger

theorem Record.level_foldl_add (record : Record) (parts : List Part) :
    (parts.foldl Record.add record).level = record.level := by
  induction parts generalizing record with
  | nil => rfl
  | cons part parts ih =>
    rw [List.foldl_cons, ih]
    have hextend (a : Addition) : (record.extend a).level = record.level := by
      obtain ⟨_, _, _, _, heq⟩ := record.extend_eq a
      rw [heq]
    cases part with
    | value v format => exact hextend (.value v format)
    | field key v => exact hextend (.field key v)
    | exception text => rfl

/-! ## What a runner is asked for -/

def PassesNotice (env : Environment) (dropped : Nat) (request : Request) : Prop :=
  dropped ≠ 0 ∧ ∃ (formatter : Line.Formatter) (reading : Nat) (thread : String),
    request.2 =
      .write (formatter.format env.registry (Outlet.notice (env.now reading) thread dropped)).1

theorem Outlet.passesNotice (o : Outlet) {j : Journal} {thread : String} {dropped : Nat}
    {request : Request} (h : request ∈ o.noticeRequests env j thread dropped) : PassesNotice env dropped request := by
  rw [noticeRequests] at h
  split at h
  · cases h
  · obtain ⟨handle, -, rfl⟩ := List.mem_map.mp h
    exact ⟨‹_›, o.formatter, j.events.size, thread, rfl⟩

theorem Immediate.submit_cases (hcalm : env.Calm) (r : Immediate) (thread : String)
    (record : Record) :
    (r.outlet = none ∧
      r.submit env thread record = ({ r with stock := r.stock.release record }, none)) ∨
    ∃ o after journal notices, r.outlet = some o ∧ after.handles = o.handles ∧
      r.submit env thread record =
        (⟨r.stock.takeDropped.2.release record, some after, journal⟩, none) ∧
      (∀ request ∈ notices, PassesNotice env r.stock.dropped request) ∧
      journal.requests = r.journal.requests ++ o.lineRequests env record ++
        (notices ++ Outlet.callAll .flush o.handles) := by
  obtain ⟨stock, outlet, journal⟩ := r
  cases outlet with
  | none => exact .inl ⟨rfl, rfl⟩
  | some o =>
    let delivered := o.deliver env journal record
    let flushed := delivered.outlet.flush env thread stock.dropped delivered.journal
    have hhandles : delivered.outlet.handles = o.handles := o.handles_deliver env journal record
    have hdeliver := (o.deliver_makes env journal record).made (o.deliver_calm hcalm journal record)
    have hflush := (delivered.outlet.flush_makes env delivered.journal thread stock.dropped).made
      (delivered.outlet.flush_calm hcalm delivered.journal thread stock.dropped)
    refine .inr ⟨o, flushed.outlet, flushed.journal,
      delivered.outlet.noticeRequests env delivered.journal thread stock.dropped, rfl, ?_, ?_, fun request =>
        delivered.outlet.passesNotice, ?_⟩
    · exact (delivered.outlet.handles_flush env delivered.journal thread _).trans hhandles
    · rw [submit_calm hcalm, write]
      rfl
    · rw [← hdeliver, ← hhandles]
      exact hflush

theorem Config.policy_of_arrange {a : Arrangement} (h : c.arrange = .ok a) :
    a.policy = c.policy := by
  rw [arrange] at h
  split at h
  · cases h
  split at h
  · cases h
  split at h
  · cases h
  split at h
  · cases h
  · cases h
    rfl

theorem Immediate.update_cases (hcalm : env.Calm) (r : Immediate) (c : Config) :
    (∃ o a, r.outlet = some o ∧ c.arrange = .ok a ∧
      (o.change env a r.journal).outlet.handles = c.appenders ∧ r.update env c =
        (⟨{ r.stock with policy := c.policy }, some (o.change env a r.journal).outlet,
          (o.change env a r.journal).journal⟩, .done)) ∨
    ∃ error, r.update env c = (r, .refused error) := by
  obtain ⟨stock, outlet, journal⟩ := r
  rw [update]
  cases harrange : c.arrange with
  | error error => exact .inr ⟨error, rfl⟩
  | ok a =>
    cases outlet with
    | none => exact .inr ⟨.stopped, rfl⟩
    | some o =>
      have hchange := o.change_calm hcalm journal a
      refine .inl ⟨o, a, rfl, rfl, ?_, ?_⟩
      · rw [o.handles_change env journal hchange, Config.handles_of_arrange harrange]
      · simp only [hchange]
        rw [← Config.policy_of_arrange harrange]
        rfl

theorem Immediate.shutdown_cases (hcalm : env.Calm) (r : Immediate) (thread : String) :
    (r.outlet = none ∧ r.shutdown env thread = ({ r with stock := r.stock.stop }, none)) ∨
    ∃ o, r.outlet = some o ∧ r.shutdown env thread =
      (⟨r.stock.stop.takeDropped.2.dispose, none,
        (o.close env thread r.stock.dropped r.journal).journal⟩, none) := by
  obtain ⟨stock, outlet, journal⟩ := r
  cases outlet with
  | none => exact .inl ⟨rfl, rfl⟩
  | some o =>
    have hclose := o.close_calm hcalm journal thread stock.dropped
    refine .inr ⟨o, rfl, ?_⟩
    simp only [shutdown, Stock.stop, Stock.takeDropped, hclose]
    rfl

/-! ## The ledger is right -/

inductive Ledger.Meets (env : Environment) (b : Ledger) : Deed → Nat → Settlement → Prop where
  | dropped {l : Logger} {level : Level} {now : Calendar.Instant} {thread : String}
      (enabled : l.isEnabled level = true) (running : b.runner.stock.running = true)
      (empty : b.runner.stock.pool.items = []) (policy : b.configured.policy = .drop)
      (untouched : (b.take env (.acquire l level now thread)).runner = b.runner) :
      Meets env b (.acquire l level now thread) b.events.length .dropped
  | counted {l : Logger} {level : Level} {now : Calendar.Instant} {thread : String}
      (enabled : l.isEnabled level = true) (running : b.runner.stock.running = true)
      (empty : b.runner.stock.pool.items = []) (policy : b.configured.policy = .dropAndNotify)
      (noted : (b.take env (.acquire l level now thread)).runner =
        { b.runner with stock := b.runner.stock.noteDropped }) :
      Meets env b (.acquire l level now thread) b.events.length .counted
  /-- The line goes to the handles in force whose level it reaches; then dropped events are reported
  and the appenders flushed. -/
  | delivered {place : Nat} {thread : String} {h : Holding} (held : b.held[place]? = some h)
      (running : b.runner.stock.running = true) (formatter : Line.Formatter)
      {notices : List Request}
      (reported : ∀ request ∈ notices, PassesNotice env b.runner.stock.dropped request)
      (requested : (b.take env (.submit place thread)).runner.journal.requests =
        b.runner.journal.requests ++
          Outlet.callAll (.write (formatter.format env.registry h.record).1)
            (b.configured.appenders.filter fun handle => handle.minLevel ≤ h.level) ++
          (notices ++ Outlet.callAll .flush b.configured.appenders)) :
      Meets env b (.submit place thread) h.number .delivered
  | discarded {place : Nat} {thread : String} {h : Holding} (held : b.held[place]? = some h)
      (stopped : b.runner.stock.running = false)
      (silent : (b.take env (.submit place thread)).runner.journal = b.runner.journal)
      (uncounted : (b.take env (.submit place thread)).runner.stock.dropped =
        b.runner.stock.dropped) :
      Meets env b (.submit place thread) h.number .discarded

/-- The runner is as the ledger says, and every event is held or settled, and that once. -/
structure Ledger.Sound (b : Ledger) : Prop where
  running_eq : b.runner.stock.running = b.runner.outlet.isSome
  policy_eq : b.runner.stock.policy = b.configured.policy
  policy_ne : b.configured.policy ≠ .wait
  configured_eq : ∀ o, b.runner.outlet = some o → o.handles = b.configured.appenders
  levels : ∀ h ∈ b.held, b.events[h.number]? = some h.level ∧ h.record.level = h.level
  numbers : (b.held.map Holding.number ++ b.settled.map Prod.fst).Perm
    (List.range b.events.length)

namespace Ledger

variable {b : Ledger}

theorem take_of_not_enabled (env : Environment) (b : Ledger) {l : Logger} {level : Level}
    (h : l.isEnabled level = false) (now : Calendar.Instant) (thread : String) :
    b.take env (.acquire l level now thread) = b := by
  simp only [take, Logger.acquire_of_not_enabled h, h, Bool.false_eq_true, ↓reduceIte]

theorem take_acquire (env : Environment) {l : Logger} {level : Level}
    (henabled : l.isEnabled level = true) {now : Calendar.Instant} {thread : String}
    {acquisition : Acquisition} {stock : Stock}
    (h : l.acquire level now thread b.runner.stock = (acquisition, stock)) :
    b.take env (.acquire l level now thread) =
      ({ b with runner.stock := stock } : Ledger).enter level acquisition := by
  simp only [take, h, henabled, ↓reduceIte]

/-- What a deed keeps and how it settles: `Sound` holds afterwards, and what was not settled before
was settled by this deed. -/
def Advances (env : Environment) (b : Ledger) (deed : Deed) : Prop :=
  (b.take env deed).Sound ∧ ∀ number settlement,
    (number, settlement) ∈ (b.take env deed).settled →
      (number, settlement) ∈ b.settled ∨ b.Meets env deed number settlement

namespace Sound

theorem getElem?_append {events : List Level} {number : Nat} {level : Level}
    (h : events[number]? = some level) (more : List Level) :
    (events ++ more)[number]? = some level := by
  rw [List.getElem?_append_left (List.getElem?_eq_some_iff.mp h).1, h]

theorem settle (h : b.Sound) (stock : Stock) (hrunning : stock.running = b.runner.stock.running)
    (hpolicy : stock.policy = b.runner.stock.policy) (level : Level) (settlement : Settlement) :
    ({ b with
      runner.stock := stock
      events := b.events ++ [level]
      settled := (b.events.length, settlement) :: b.settled } : Ledger).Sound where
  running_eq := hrunning.trans h.running_eq
  policy_eq := hpolicy.trans h.policy_eq
  policy_ne := h.policy_ne
  configured_eq := h.configured_eq
  levels holding hmem := ⟨getElem?_append (h.levels holding hmem).1 _, (h.levels holding hmem).2⟩
  numbers := by
    rw [List.length_append, List.length_singleton, List.range_succ, List.map_cons]
    exact (List.perm_middle.trans (h.numbers.cons _)).trans (List.perm_append_singleton _ _).symm

theorem acquire (h : b.Sound) (l : Logger) (level : Level) (now : Calendar.Instant)
    (thread : String) : b.Advances env (.acquire l level now thread) := by
  cases henabled : l.isEnabled level with
  | false =>
    rw [Advances, take_of_not_enabled env b henabled]
    exact ⟨h, fun _ _ hmem => .inl hmem⟩
  | true =>
    rcases Logger.acquire_cases henabled now thread (h.policy_eq ▸ h.policy_ne) with
      ⟨record, after, hgranted, hlevel, hrunning, hpolicy, -⟩ |
      ⟨⟨hrunning, hempty⟩, ⟨hpolicy, hdropped⟩ | ⟨hpolicy, hcounted⟩⟩
    · rw [Advances, take_acquire env henabled hgranted]
      refine ⟨⟨hrunning.trans h.running_eq, hpolicy.trans h.policy_eq, h.policy_ne,
        h.configured_eq, fun holding hmem => ?_, ?_⟩, fun _ _ hmem => .inl hmem⟩
      · rcases List.mem_cons.mp hmem with rfl | hmem
        · exact ⟨List.getElem?_concat_length, hlevel⟩
        · exact ⟨getElem?_append (h.levels holding hmem).1 _, (h.levels holding hmem).2⟩
      · simp only [enter, List.length_append, List.length_singleton, List.range_succ,
          List.map_cons, List.cons_append]
        exact (h.numbers.cons _).trans (List.perm_append_singleton _ _).symm
    · have htake := take_acquire env henabled hdropped
      rw [Advances, htake]
      refine ⟨h.settle _ rfl rfl level .dropped, fun number settlement hmem => ?_⟩
      rcases List.mem_cons.mp hmem with heq | hmem
      · cases heq
        exact .inr (.dropped henabled hrunning hempty (h.policy_eq ▸ hpolicy) (by rw [htake]; rfl))
      · exact .inl hmem
    · have htake := take_acquire env henabled hcounted
      rw [Advances, htake]
      refine ⟨h.settle b.runner.stock.noteDropped rfl rfl level .counted,
        fun number settlement hmem => ?_⟩
      rcases List.mem_cons.mp hmem with heq | hmem
      · cases heq
        exact .inr (.counted henabled hrunning hempty (h.policy_eq ▸ hpolicy) (by rw [htake]; rfl))
      · exact .inl hmem

theorem fill (h : b.Sound) (place : Nat) (parts : List Part) :
    b.Advances env (.fill place parts) := by
  let filled (holding : Holding) : Holding :=
    { holding with record := parts.foldl Record.add holding.record }
  have htake : b.take env (.fill place parts) = { b with held := b.held.modify place filled } := rfl
  rw [Advances, htake]
  refine ⟨?_, fun _ _ hmem => .inl hmem⟩
  by_cases hplace : place < b.held.length
  · obtain ⟨before, holding, after, hheld, -, hmodify⟩ := List.exists_of_modify filled hplace
    have hlevels := h.levels
    have hnumbers := h.numbers
    rw [hheld] at hlevels hnumbers
    rw [hmodify]
    refine ⟨h.running_eq, h.policy_eq, h.policy_ne, h.configured_eq, fun other hmem => ?_, ?_⟩
    · rcases List.mem_append.mp hmem with hmem | hmem
      · exact hlevels other (List.mem_append_left _ hmem)
      · rcases List.mem_cons.mp hmem with rfl | hmem
        · obtain ⟨hevent, hlevel⟩ := hlevels holding (List.mem_append_right _ List.mem_cons_self)
          exact ⟨hevent, (Record.level_foldl_add _ _).trans hlevel⟩
        · exact hlevels other (List.mem_append_right _ (List.mem_cons_of_mem _ hmem))
    · simpa using hnumbers
  · rw [List.modify_eq_self (Nat.le_of_not_lt hplace)]
    exact h

theorem submitted (h : b.Sound) {place : Nat} {holding : Holding}
    (hplace : b.held[place]? = some holding) (settlement : Settlement) {runner : Immediate}
    (hrunning : runner.stock.running = runner.outlet.isSome)
    (hpolicy : runner.stock.policy = b.runner.stock.policy)
    (hconfigured : ∀ o, runner.outlet = some o → o.handles = b.configured.appenders) :
    ({ b with
      runner
      held := b.held.eraseIdx place
      settled := (holding.number, settlement) :: b.settled } : Ledger).Sound where
  running_eq := hrunning
  policy_eq := hpolicy.trans h.policy_eq
  policy_ne := h.policy_ne
  configured_eq := hconfigured
  levels other hmem := h.levels other (List.mem_of_mem_eraseIdx hmem)
  numbers := by
    have hperm := (perm_eraseIdx hplace).map Holding.number
    rw [List.map_cons] at hperm ⊢
    exact (List.perm_middle.trans (hperm.symm.append_right _)).trans h.numbers

theorem take_submit (env : Environment) {place : Nat} {holding : Holding}
    (hplace : b.held[place]? = some holding) (thread : String) :
    b.take env (.submit place thread) =
      { b with
        runner := (b.runner.submit env thread holding.record).1
        held := b.held.eraseIdx place
        settled := (holding.number,
          if b.runner.stock.running then .delivered else .discarded) :: b.settled } := by
  simp only [take, hplace]

theorem submit (hcalm : env.Calm) (h : b.Sound) (place : Nat) (thread : String) :
    b.Advances env (.submit place thread) := by
  cases hplace : b.held[place]? with
  | none =>
    have htake : b.take env (.submit place thread) = b := by simp only [take, hplace]
    rw [Advances, htake]
    exact ⟨h, fun _ _ hmem => .inl hmem⟩
  | some holding =>
    have htake := take_submit env hplace thread
    obtain ⟨-, hlevel⟩ := h.levels holding (List.mem_of_getElem? hplace)
    rcases b.runner.submit_cases hcalm thread holding.record with
      ⟨houtlet, hsubmit⟩ |
      ⟨o, after, journal, notices, houtlet, hafter, hsubmit, hnotices, hrequests⟩
    · have hstopped : b.runner.stock.running = false := by
        rw [h.running_eq, houtlet]
        rfl
      rw [hsubmit, hstopped] at htake
      rw [Advances, htake]
      refine ⟨h.submitted hplace _ h.running_eq rfl h.configured_eq,
        fun number settlement hmem => ?_⟩
      rcases List.mem_cons.mp hmem with heq | hmem
      · cases heq
        exact .inr (.discarded hplace hstopped (by rw [htake]) (by rw [htake]; rfl))
      · exact .inl hmem
    · have hrunning : b.runner.stock.running = true := by
        rw [h.running_eq, houtlet]
        rfl
      have hhandles : o.handles = b.configured.appenders := h.configured_eq o houtlet
      rw [hsubmit, hrunning] at htake
      rw [Advances, htake]
      refine ⟨h.submitted hplace _ hrunning rfl fun o' ho' => ?_, fun number settlement hmem => ?_⟩
      · cases ho'
        exact hafter.trans hhandles
      rcases List.mem_cons.mp hmem with heq | hmem
      · have hline : o.lineRequests env holding.record =
            Outlet.callAll (.write (o.formatter.format env.registry holding.record).1)
              (b.configured.appenders.filter fun handle => handle.minLevel ≤ holding.level) := by
          rw [← hhandles, ← hlevel]
          rfl
        cases heq
        refine .inr (.delivered hplace hrunning o.formatter hnotices ?_)
        rw [htake, ← hline, ← hhandles]
        exact hrequests
      · exact .inl hmem

theorem update (hcalm : env.Calm) (h : b.Sound) (c : Config)
    (hpolicy : (b.runner.update env c).2 = .done → c.policy ≠ .wait) :
    b.Advances env (.update c) := by
  rcases b.runner.update_cases hcalm c with ⟨o, a, houtlet, -, hhandles, hupdate⟩ | ⟨error, hupdate⟩
  · have hopen := h.running_eq
    rw [houtlet] at hopen
    simp only [Advances, take, hupdate, ↓reduceIte]
    refine ⟨⟨hopen, rfl, hpolicy (by rw [hupdate]), fun o' ho' => ?_, h.levels, h.numbers⟩,
      fun _ _ hmem => .inl hmem⟩
    cases ho'
    exact hhandles
  · simp only [Advances, take, hupdate, reduceCtorEq, ↓reduceIte]
    exact ⟨h, fun _ _ hmem => .inl hmem⟩

theorem shutdown (hcalm : env.Calm) (h : b.Sound) (thread : String) :
    b.Advances env (.shutdown thread) := by
  obtain ⟨hrunning, houtlet, hpolicy⟩ : (b.runner.shutdown env thread).1.stock.running = false ∧
      (b.runner.shutdown env thread).1.outlet = none ∧
      (b.runner.shutdown env thread).1.stock.policy = b.runner.stock.policy := by
    rcases b.runner.shutdown_cases hcalm thread with ⟨houtlet, heq⟩ | ⟨o, -, heq⟩
    · rw [heq]
      exact ⟨rfl, houtlet, rfl⟩
    · rw [heq]
      exact ⟨rfl, rfl, rfl⟩
  refine ⟨⟨?_, hpolicy.trans h.policy_eq, h.policy_ne, fun o ho => ?_, h.levels, h.numbers⟩,
    fun _ _ hmem => .inl hmem⟩
  · exact hrunning.trans (by rw [take, houtlet]; rfl)
  · cases houtlet.symm.trans ho

theorem advances (hcalm : env.Calm) (h : b.Sound) (deed : Deed)
    (hpolicy : ∀ c, deed = .update c → (b.runner.update env c).2 = .done → c.policy ≠ .wait) :
    b.Advances env deed := by
  cases deed with
  | acquire l level now thread => exact h.acquire l level now thread
  | fill place parts => exact h.fill place parts
  | submit place thread => exact h.submit hcalm place thread
  | update c => exact h.update hcalm c (hpolicy c rfl)
  | shutdown thread => exact h.shutdown hcalm thread

end Sound

/-! ## Runs -/

theorem run_sound (hcalm : env.Calm) (h : b.Sound) (hclean : b.settled = []) (deeds : List Deed)
    (hpolicy : ∀ before c after, deeds = before ++ .update c :: after →
      ((b.run env before).runner.update env c).2 = .done → c.policy ≠ .wait) :
    (b.run env deeds).Sound ∧ ∀ number settlement,
      (number, settlement) ∈ (b.run env deeds).settled → ∃ before deed after,
        deeds = before ++ deed :: after ∧ (b.run env before).Meets env deed number settlement := by
  -- the last deed settled the event, or an earlier one did
  induction deeds using List.reverseRecOn with
  | nil =>
    refine ⟨h, fun number settlement hmem => ?_⟩
    rw [run, List.foldl_nil, hclean] at hmem
    cases hmem
  | append_singleton deeds deed ih =>
    obtain ⟨hsound, hearlier⟩ := ih fun before c after hsplit =>
      hpolicy before c (after ++ [deed]) (by rw [hsplit]; simp)
    obtain ⟨hafter, hsettled⟩ := hsound.advances hcalm deed fun c hdeed =>
      hpolicy deeds c [] (by rw [hdeed])
    have hrun : b.run env (deeds ++ [deed]) = (b.run env deeds).take env deed :=
      run_append env b deeds [deed]
    rw [hrun]
    refine ⟨hafter, fun number settlement hmem => ?_⟩
    rcases hsettled number settlement hmem with hold | hmeets
    · obtain ⟨before, first, after, rfl, hmeets⟩ := hearlier number settlement hold
      exact ⟨before, first, after ++ [deed], by simp, hmeets⟩
    · exact ⟨deeds, deed, [], rfl, hmeets⟩

@[simp] theorem events_enter (b : Ledger) (level : Level) (acquisition : Acquisition) :
    (b.enter level acquisition).events = b.events ++ [level] := by
  cases acquisition <;> rfl

@[simp] theorem runner_enter (b : Ledger) (level : Level) (acquisition : Acquisition) :
    (b.enter level acquisition).runner = b.runner := by
  cases acquisition <;> rfl

theorem events_take (env : Environment) (b : Ledger) (deed : Deed) :
    (b.take env deed).events = b.events ++ deed.event?.toList := by
  cases deed with
  | acquire l level now thread =>
    cases henabled : l.isEnabled level with
    | false =>
      rw [take_of_not_enabled env b henabled]
      simp [Deed.event?, henabled]
    | true =>
      rw [take_acquire env henabled rfl]
      simp [Deed.event?, henabled]
  | fill place parts => exact (List.append_nil _).symm
  | submit place thread =>
    rw [take]
    split <;> exact (List.append_nil _).symm
  | update c => exact (List.append_nil _).symm
  | shutdown thread => exact (List.append_nil _).symm

theorem events_run (env : Environment) (b : Ledger) (deeds : List Deed) :
    (b.run env deeds).events = b.events ++ deeds.filterMap Deed.event? := by
  induction deeds generalizing b with
  | nil => exact (List.append_nil _).symm
  | cons deed deeds ih =>
    rw [run, List.foldl_cons, ← run, ih, events_take, List.append_assoc, List.filterMap_cons]
    cases deed.event? <;> rfl

def tally (b : Ledger) (settlement : Settlement) : Nat := (b.settled.map Prod.snd).count settlement

theorem Sound.balance (h : b.Sound) :
    b.events.length = b.tally .delivered + b.tally .counted +
      (b.tally .dropped + b.tally .discarded) + b.held.length := by
  have hlength := h.numbers.length_eq
  have hsettled := Settlement.length_eq (b.settled.map Prod.snd)
  rw [List.length_append, List.length_map, List.length_map, List.length_range] at hlength
  rw [List.length_map] at hsettled
  simp only [tally]
  omega

theorem Sound.lends (h : b.Sound) {l : Logger} {level : Level}
    (henabled : l.isEnabled level = true)
    (hlends : b.configured.policy = .allocate ∨ b.runner.stock.running = false ∨
      b.runner.stock.pool.items ≠ []) (now : Calendar.Instant) (thread : String) :
    (b.take env (.acquire l level now thread)).settled = b.settled ∧
      ∃ record, (b.take env (.acquire l level now thread)).held =
        ⟨b.events.length, level, record⟩ :: b.held := by
  rcases Logger.acquire_cases henabled now thread (h.policy_eq ▸ h.policy_ne) with
    ⟨record, after, hgranted, -⟩ | ⟨⟨hrunning, hempty⟩, hpolicy⟩
  · rw [take_acquire env henabled hgranted]
    exact ⟨rfl, record, rfl⟩
  · rcases hlends with hallocate | hstopped | hitems
    · rw [h.policy_eq, hallocate] at hpolicy
      rcases hpolicy with ⟨hdrop, -⟩ | ⟨hnotify, -⟩
      · cases hdrop
      · cases hnotify
    · cases hstopped.symm.trans hrunning
    · exact absurd hempty hitems

theorem journal_acquire (env : Environment) (b : Ledger) (l : Logger) (level : Level)
    (now : Calendar.Instant) (thread : String) :
    (b.take env (.acquire l level now thread)).runner.journal = b.runner.journal := by
  cases henabled : l.isEnabled level with
  | false => rw [take_of_not_enabled env b henabled]
  | true => rw [take_acquire env henabled rfl, runner_enter]

theorem take_quiet (hcalm : env.Calm) (b : Ledger) {deed : Deed} (hdeed : deed.isSubmit = false) :
    ∃ more, (b.take env deed).runner.journal.requests = b.runner.journal.requests ++ more ∧
      ∀ request ∈ more, ∀ line, request.2 = .write line →
        PassesNotice env b.runner.stock.dropped request := by
  have hsame {after : Ledger} (hjournal : after.runner.journal = b.runner.journal) :
      ∃ more, after.runner.journal.requests = b.runner.journal.requests ++ more ∧
        ∀ request ∈ more, ∀ line, request.2 = .write line →
          PassesNotice env b.runner.stock.dropped request :=
    ⟨[], by rw [hjournal, List.append_nil], fun _ hrequest => by cases hrequest⟩
  cases deed with
  | acquire l level now thread => exact hsame (journal_acquire env b l level now thread)
  | fill place parts => exact hsame rfl
  | submit place thread => cases hdeed
  | update c =>
    rcases b.runner.update_cases hcalm c with ⟨o, a, -, -, -, hupdate⟩ | ⟨error, hupdate⟩
    · refine ⟨Outlet.changeCalls o.handles a.handles, ?_, ?_⟩
      · simp only [take, hupdate]
        exact (o.change_makes env b.runner.journal a).made (o.change_calm hcalm _ a)
      · rintro ⟨handle, call⟩ hrequest line rfl
        exact absurd hrequest write_notMem_changeCalls
    · exact hsame (by simp only [take, hupdate])
  | shutdown thread =>
    rcases b.runner.shutdown_cases hcalm thread with ⟨-, hshutdown⟩ | ⟨o, -, hshutdown⟩
    · exact hsame (by simp only [take, hshutdown])
    · refine ⟨o.closeRequests env b.runner.journal thread b.runner.stock.dropped, ?_, ?_⟩
      · simp only [take, hshutdown]
        exact (o.close_makes env b.runner.journal thread _).made (o.close_calm hcalm _ thread _)
      · intro request hrequest line hline
        rcases List.mem_append.mp hrequest with hflush | hdispose
        · rcases List.mem_append.mp hflush with hnotice | hcall
          · exact o.passesNotice hnotice
          · obtain ⟨handle, -, rfl⟩ := List.mem_map.mp hcall
            cases hline
        · obtain ⟨handle, -, rfl⟩ := List.mem_map.mp hdispose
          cases hline

theorem Sound.take_counts (hcalm : env.Calm) (h : b.Sound) (deed : Deed) :
    (b.take env deed).runner.stock.dropped ≤ b.runner.stock.dropped ∨
      b.Meets env deed b.events.length .counted := by
  cases deed with
  | acquire l level now thread =>
    cases henabled : l.isEnabled level with
    | false =>
      rw [take_of_not_enabled env b henabled]
      exact .inl (Nat.le_refl _)
    | true =>
      rcases Logger.acquire_cases henabled now thread (h.policy_eq ▸ h.policy_ne) with
        ⟨record, after, hgranted, -, -, -, hdropped⟩ |
        ⟨⟨hrunning, hempty⟩, ⟨-, hdropped⟩ | ⟨hpolicy, hcounted⟩⟩
      · rw [take_acquire env henabled hgranted, runner_enter]
        exact .inl (Nat.le_of_eq hdropped)
      · rw [take_acquire env henabled hdropped, runner_enter]
        exact .inl (Nat.le_refl _)
      · refine .inr (.counted henabled hrunning hempty (h.policy_eq ▸ hpolicy) ?_)
        rw [take_acquire env henabled hcounted, runner_enter]
  | fill place parts => exact .inl (Nat.le_refl _)
  | submit place thread =>
    refine .inl ?_
    cases hplace : b.held[place]? with
    | none => simp only [take, hplace, Nat.le_refl]
    | some holding =>
      rw [take_submit env hplace]
      rcases b.runner.submit_cases hcalm thread holding.record with
        ⟨-, hsubmit⟩ | ⟨o, after, journal, notices, -, -, hsubmit, -⟩
      · rw [hsubmit]
        exact Nat.le_refl _
      · rw [hsubmit]
        exact Nat.zero_le _
  | update c =>
    refine .inl ?_
    rcases b.runner.update_cases hcalm c with ⟨o, a, -, -, -, hupdate⟩ | ⟨error, hupdate⟩
    · simp only [take, hupdate, Nat.le_refl]
    · simp only [take, hupdate, Nat.le_refl]
  | shutdown thread =>
    refine .inl ?_
    rcases b.runner.shutdown_cases hcalm thread with ⟨-, hshutdown⟩ | ⟨o, -, hshutdown⟩
    · simp only [take, hshutdown]
      exact Nat.le_refl _
    · simp only [take, hshutdown]
      exact Nat.zero_le _

theorem Sound.opened {start : Immediate} (hstart : Immediate.start env c = .running start)
    (hpolicy : c.policy ≠ .wait) :
    ({ runner := start, configured := c } : Ledger).Sound := by
  obtain ⟨hstock, -⟩ := Immediate.start_running hstart
  obtain ⟨a, harrange, houtlet⟩ := Immediate.start_outlet hstart
  exact {
    running_eq := by
      rw [hstock, houtlet]
      rfl
    policy_eq := by
      rw [hstock]
      rfl
    policy_ne := hpolicy
    configured_eq := by
      intro o ho
      obtain rfl := Option.some.inj (houtlet.symm.trans ho)
      exact Config.handles_of_arrange harrange
    levels := fun h hmem => by cases hmem
    numbers := .rfl }

theorem log_run (env : Environment) (b : Ledger) (l : Logger) (level : Level)
    (now : Calendar.Instant) (thread : String) (parts : List Part) :
    let logged := l.log env now thread level parts (.immediate b.runner)
    logged.runner =
      .immediate (b.run env (Deed.logging l level now thread parts logged.fate)).runner := by
  cases henabled : l.isEnabled level with
  | false =>
    have hacquire := Logger.acquire_of_not_enabled henabled now thread b.runner.stock
    simp only [Logger.log, Runner.stock, hacquire, Deed.logging, run, List.foldl_cons,
      List.foldl_nil, take_of_not_enabled env b henabled]
    rfl
  | true =>
    obtain ⟨acquisition, stock, hacquire⟩ :
        ∃ acquisition stock, l.acquire level now thread b.runner.stock = (acquisition, stock) :=
      ⟨_, _, rfl⟩
    have htake := take_acquire env henabled hacquire
    cases acquisition <;>
      simp only [Logger.log, Runner.stock, hacquire, Deed.logging, run, List.foldl_cons,
        List.foldl_nil, htake] <;> rfl

structure Heeds (env : Environment) (b : Ledger) : Prop where
  filtered : ∀ (l : Logger) (level : Level) (now : Calendar.Instant) (thread : String),
    l.isEnabled level = false → b.take env (.acquire l level now thread) = b
  lends : ∀ (l : Logger) (level : Level) (now : Calendar.Instant) (thread : String),
    l.isEnabled level = true →
    (b.configured.policy = .allocate ∨ b.runner.stock.running = false ∨
      b.runner.stock.pool.items ≠ []) →
    (b.take env (.acquire l level now thread)).settled = b.settled ∧
      ∃ record, (b.take env (.acquire l level now thread)).held =
        ⟨b.events.length, level, record⟩ :: b.held
  quiet : ∀ deed : Deed, deed.isSubmit = false →
    ∃ more, (b.take env deed).runner.journal.requests = b.runner.journal.requests ++ more ∧
      ∀ request ∈ more, ∀ line, request.2 = .write line →
        PassesNotice env b.runner.stock.dropped request
  counts : ∀ deed, (b.take env deed).runner.stock.dropped ≤ b.runner.stock.dropped ∨
    b.Meets env deed b.events.length .counted
  logs : ∀ (l : Logger) (level : Level) (now : Calendar.Instant) (thread : String)
    (parts : List Part),
    let logged := l.log env now thread level parts (.immediate b.runner)
    logged.runner =
      .immediate (b.run env (Deed.logging l level now thread parts logged.fate)).runner

theorem Sound.heeds (hcalm : env.Calm) (h : b.Sound) : b.Heeds env where
  filtered _ _ now thread hdisabled := take_of_not_enabled env b hdisabled now thread
  lends _ _ now thread henabled hlends := h.lends henabled hlends now thread
  quiet _ hdeed := b.take_quiet hcalm hdeed
  counts deed := h.take_counts hcalm deed
  logs l level now thread parts := b.log_run env l level now thread parts

end Ledger

/-- Where no appender breaks off and no policy in force has producers wait, whatever producers do,
in whatever order: each event that its logger lets through is held by a producer or was settled,
and that once. It was settled by the deed that `Meets` describes: delivered as one line to each
handle in force whose level it reaches, dropped or counted because the pool of a running runner was
empty, or discarded because the runner had stopped. Nothing else is written but notices, and nothing
else is counted; so the events add up. -/
theorem every_event_meets_one_fate (hcalm : env.Calm) {start : Immediate}
    (hstart : Immediate.start env c = .running start) (hpolicy : c.policy ≠ .wait)
    (deeds : List Deed)
    (hupdates : ∀ before c' after, deeds = before ++ .update c' :: after →
      ((Ledger.run env { runner := start, configured := c } before).runner.update env c').2 =
        .done → c'.policy ≠ .wait) :
    let fresh : Ledger := { runner := start, configured := c }
    let b := fresh.run env deeds
    b.events = deeds.filterMap Deed.event? ∧
    (b.held.map Holding.number ++ b.settled.map Prod.fst).Perm (List.range b.events.length) ∧
    (∀ h ∈ b.held, b.events[h.number]? = some h.level ∧ h.record.level = h.level) ∧
    (∀ number settlement, (number, settlement) ∈ b.settled → ∃ before deed after,
      deeds = before ++ deed :: after ∧
        (fresh.run env before).Meets env deed number settlement) ∧
    b.events.length = b.tally .delivered + b.tally .counted +
      (b.tally .dropped + b.tally .discarded) + b.held.length ∧
    b.Heeds env := by
  intro fresh b
  obtain ⟨hsound, hmeets⟩ :=
    Ledger.run_sound hcalm (Ledger.Sound.opened hstart hpolicy) rfl deeds hupdates
  have hevents : b.events = deeds.filterMap Deed.event? :=
    (fresh.events_run env deeds).trans (List.nil_append _)
  exact ⟨hevents, hsound.numbers, hsound.levels, hmeets, hsound.balance, hsound.heeds hcalm⟩

/-- An event is held while the pool is empty, so that one is dropped and, after a change of the
policy, one counted. It is delivered then; the last two come too late. -/
theorem every_event_meets_one_fate_five :
    let c : Config := { strategy := .immediate, poolSize := 1, heading := "", policy := .drop,
                        appenders := [⟨"all", .trace, 0⟩, ⟨"errors", .error, 1⟩] }
    let l : Logger := ⟨{ text := "main" }, .info⟩
    let deeds : List Deed := [.acquire l .info .epoch "main", .acquire l .warn .epoch "main",
      .acquire l .debug .epoch "main", .update { c with policy := .dropAndNotify },
      .acquire l .error .epoch "main", .fill 0 [.exception "lost"], .submit 0 "main",
      .acquire l .warn .epoch "main", .shutdown "main", .submit 0 "main",
      .acquire l .info .epoch "main"]
    ∃ start, Immediate.start {} c = .running start ∧
      let b := Ledger.run {} { runner := start, configured := c } deeds
      b.events = [.info, .warn, .error, .warn, .info] ∧
      b.settled = [(3, .discarded), (0, .delivered), (2, .counted), (1, .dropped)] ∧
      b.held.map Holding.number = [4] ∧
      b.events.length = b.tally .delivered + b.tally .counted +
        (b.tally .dropped + b.tally .discarded) + b.held.length := by
  intro c l deeds
  have hcalm : Environment.Calm {} := fun _ _ _ _ h => by cases h
  obtain ⟨start, hstart⟩ : ∃ start, Immediate.start {} c = .running start := ⟨_, rfl⟩
  have hupdates : ∀ before c' after, deeds = before ++ .update c' :: after →
      c' = { c with policy := .dropAndNotify } := by
    intro before c' after hsplit
    have hmem : Deed.update c' ∈ deeds := by
      rw [hsplit]
      exact List.mem_append_right _ List.mem_cons_self
    simpa [deeds] using hmem
  obtain ⟨hevents, -, -, -, hbalance, -⟩ :=
    every_event_meets_one_fate hcalm hstart (by decide) deeds fun before c' after hsplit _ => by
      rw [hupdates before c' after hsplit]
      decide
  refine ⟨start, hstart, hevents.trans (by decide), ?_, ?_, hbalance⟩
  · cases hstart
    decide +kernel
  · cases hstart
    decide +kernel

end Logbook
