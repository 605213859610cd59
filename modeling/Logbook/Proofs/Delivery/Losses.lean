import Logbook.Proofs.Delivery.Conservation
import Logbook.Proofs.Delivery.Failure
import Logbook.Proofs.Delivery.Isolation
set_option autoImplicit false

/-!
# Records that are lost when an appender breaks off

A runner without a worker delivers an event while the producer waits, and gives the record back
afterwards. If an appender breaks off meanwhile, the runner goes on, but the record is neither with
the producer nor in the pool, and nothing makes up for it. `losses` are these records. Together with
the pool and the producers they account for every record that was made, so a pool is exhausted by as
many failures as it has records, although no producer holds one.
-/
namespace Logbook

variable {env : Environment} {c : Config}

theorem Pool.release_eq_self_iff {α : Type} (p : Pool α) (item : α) :
    p.release item = p ↔ p.capacity ≤ p.count := by
  constructor
  · intro h
    refine Nat.le_of_not_lt fun hlt => ?_
    rw [release_of_lt hlt] at h
    have hcount := congrArg Pool.count h
    simp at hcount
  · intro h
    exact release_of_not_lt (Nat.not_lt.2 h) item

theorem Stock.made_of_tryAcquire {s after : Stock} {record : Record}
    (h : s.tryAcquire = some (record, after)) : after.made = s.made := by
  rw [tryAcquire] at h
  split at h
  · obtain ⟨lent, -, heq⟩ := Option.map_eq_some_iff.1 h
    cases heq
    rfl
  · cases h
    rfl

namespace Immediate

def work (r : Immediate) (env : Environment) (thread : String) (record : Record)
    (outlet : Outlet) : Worked :=
  (outlet.deliver env r.journal record).andThen fun outlet journal =>
    outlet.flush env thread r.stock.dropped journal

def plan (r : Immediate) (env : Environment) (thread : String) (record : Record)
    (outlet : Outlet) : List Request :=
  outlet.lineRequests env record ++
    (outlet.deliver env r.journal record).outlet.flushRequests env
      (outlet.deliver env r.journal record).journal thread r.stock.dropped

variable {r : Immediate} {outlet : Outlet}

theorem work_makes (r : Immediate) (env : Environment) (thread : String) (record : Record)
    (outlet : Outlet) :
    (r.work env thread record outlet).Makes env r.journal (r.plan env thread record outlet) :=
  (outlet.deliver_makes env r.journal record).andThen fun _ =>
    Outlet.flush_makes _ env _ thread r.stock.dropped

theorem write_or_flush_of_mem_plan {thread : String} {record : Record} {request : Request}
    (h : request ∈ r.plan env thread record outlet) :
    request.1 ∈ outlet.handles ∧ (request.2 = .flush ∨ ∃ line, request.2 = .write line) := by
  rcases List.mem_append.mp h with hline | hflush
  · obtain ⟨hhandle, hwrite⟩ := Outlet.write_of_mem_lineCalls hline
    exact ⟨hhandle, .inr hwrite⟩
  rcases List.mem_append.mp hflush with hnotice | hflush
  · obtain ⟨hhandle, hwrite⟩ := Outlet.write_of_mem_noticeRequests _ env _ thread _ hnotice
    rw [Outlet.handles_deliver] at hhandle
    exact ⟨hhandle, .inr hwrite⟩
  · obtain ⟨handle, hhandle, rfl⟩ := List.mem_map.mp hflush
    rw [Outlet.handles_deliver] at hhandle
    exact ⟨hhandle, .inl rfl⟩

theorem handles_work (r : Immediate) (env : Environment) (thread : String) (record : Record)
    (outlet : Outlet) : (r.work env thread record outlet).outlet.handles = outlet.handles := by
  rw [work, Worked.andThen]
  split
  · rw [Outlet.handles_flush, Outlet.handles_deliver]
  · exact outlet.handles_deliver env r.journal record

theorem tryWrite_eq (h : r.outlet = some outlet) (env : Environment) (thread : String)
    (record : Record) :
    ∃ dropped, r.tryWrite env thread record =
      (⟨{ r.stock with dropped }, some (r.work env thread record outlet).outlet,
        (r.work env thread record outlet).journal⟩, (r.work env thread record outlet).aborted) := by
  obtain ⟨stock, _, journal⟩ := r
  obtain rfl : _ = some outlet := h
  simp only [tryWrite, work, Worked.andThen]
  cases hdeliver : (outlet.deliver env journal record).aborted with
  | some reason => exact ⟨stock.dropped, by simp only [hdeliver]⟩
  | none => exact ⟨0, rfl⟩

theorem work_breaks {thread : String} {record : Record} {reason : String}
    (h : (r.work env thread record outlet).aborted = some reason) :
    ∃ earlier handle call,
      (r.work env thread record outlet).journal.requests =
        r.journal.requests ++ (earlier ++ [(handle, call)]) ∧
      handle ∈ outlet.handles ∧ (call = .flush ∨ ∃ line, call = .write line) ∧
      env.appenders handle.appender
        (r.journal.callsTo handle.appender ++ callsOf handle.appender earlier) call =
          .aborted reason := by
  obtain ⟨hjournal, haborted⟩ := work_makes r env thread record outlet
  obtain ⟨earlier, handle, call, rest, hplan, hmade, hreply⟩ :=
    Journal.requests_perform_of_some env.appenders (haborted.symm.trans h)
  have hmem : (handle, call) ∈ r.plan env thread record outlet := by
    rw [hplan]
    exact List.mem_append_right _ List.mem_cons_self
  obtain ⟨hhandle, hcall⟩ := write_or_flush_of_mem_plan hmem
  exact ⟨earlier, handle, call, by rw [hjournal, hmade], hhandle, hcall, hreply⟩

theorem submit_eq_work (h : r.outlet = some outlet) (env : Environment) (thread : String)
    (record : Record) :
    ∃ dropped pool, r.submit env thread record =
        (⟨{ r.stock with dropped, pool }, some (r.work env thread record outlet).outlet,
          (r.work env thread record outlet).journal⟩, (r.work env thread record outlet).aborted) ∧
      pool = match (r.work env thread record outlet).aborted with
        | none => r.stock.pool.release record
        | some _ => r.stock.pool := by
  obtain ⟨dropped, hwrite⟩ := tryWrite_eq h env thread record
  rw [submit_eq, hwrite]
  cases (r.work env thread record outlet).aborted with
  | none => exact ⟨dropped, _, rfl, rfl⟩
  | some reason => exact ⟨dropped, _, rfl, rfl⟩

/-- What a submission leaves behind, and the reason if it broke off. -/
structure Submits (env : Environment) (r : Immediate) (outlet : Outlet) (record : Record)
    (after : Immediate) (broken : Option String) : Prop where
  runs : (∃ o, after.outlet = some o ∧ o.handles = outlet.handles) ∧
    after.stock.running = r.stock.running
  returns : broken = none → after.stock.pool = r.stock.pool.release record
  /-- The record is not given back; that makes no difference only to a full pool. -/
  loses : ∀ reason, broken = some reason → after.stock.pool = r.stock.pool ∧
    (after.stock.pool = r.stock.pool.release record ↔ r.stock.pool.capacity ≤ r.stock.pool.count)
  breaks : ∀ reason, broken = some reason → ∃ earlier handle call,
    after.journal.requests = r.journal.requests ++ (earlier ++ [(handle, call)]) ∧
    handle ∈ outlet.handles ∧ (call = .flush ∨ ∃ line, call = .write line) ∧
    env.appenders handle.appender
      (r.journal.callsTo handle.appender ++ callsOf handle.appender earlier) call = .aborted reason

theorem submits (h : r.outlet = some outlet) (env : Environment) (thread : String)
    (record : Record) :
    r.Submits env outlet record (r.submit env thread record).1 (r.submit env thread record).2 := by
  obtain ⟨dropped, pool, hsubmit, hpool⟩ := submit_eq_work h env thread record
  rw [hsubmit]
  constructor
  case runs => exact ⟨⟨_, rfl, r.handles_work env thread record outlet⟩, rfl⟩
  case returns =>
    intro hdone
    change (r.work env thread record outlet).aborted = none at hdone
    rw [hdone] at hpool
    exact hpool
  case loses =>
    intro reason hbroken
    change (r.work env thread record outlet).aborted = some reason at hbroken
    rw [hbroken] at hpool
    obtain rfl : pool = r.stock.pool := hpool
    exact ⟨rfl, eq_comm.trans (r.stock.pool.release_eq_self_iff record)⟩
  case breaks => exact fun reason hbroken => work_breaks hbroken

end Immediate

/-! ## Accounting for every record -/

def Runner.IsOpen : Runner → Prop
  | .immediate r => ∃ outlet, r.outlet = some outlet
  | .background _ => False

theorem Runner.isOpen_start {runner : Runner} (hstart : Runner.start env c = .running runner)
    (himmediate : c.strategy = .immediate) : runner.IsOpen := by
  rw [start, himmediate] at hstart
  simp only at hstart
  split at hstart
  · rename_i r hstarted
    obtain ⟨a, -, houtlet⟩ := Immediate.start_outlet hstarted
    cases hstart
    exact ⟨_, houtlet⟩
  · cases hstart
  · cases hstart

theorem Immediate.tryWrite_exchanges {r : Immediate} (h : (Runner.immediate r).Serves c)
    (thread : String) (record : Record) :
    Runner.Exchanges c (.immediate r) [] (.immediate (r.tryWrite env thread record).1) [] := by
  cases houtlet : r.outlet with
  | none =>
    simp only [tryWrite, houtlet]
    exact .of_eq h rfl rfl rfl
  | some outlet =>
    obtain ⟨dropped, hwrite⟩ := tryWrite_eq houtlet env thread record
    have hserves : ({ r.stock with dropped } : Stock).Serves c := { h with }
    rw [hwrite]
    exact .of_eq hserves rfl rfl rfl

def Act.isAllocate : Act → Bool
  | .allocate => true
  | _ => false

namespace Traffic

def loss (env : Environment) (t : Traffic) : Act → List Record
  | .submit place thread =>
    match t.held[place]?, t.runner with
    | some record, .immediate r =>
      if (r.tryWrite env thread record).2.isSome then [record] else []
    | _, _ => []
  | _ => []

def losses (env : Environment) (t : Traffic) : List Act → List Record
  | [] => []
  | act :: acts => (t.turn env act).losses env acts ++ t.loss env act

/-- The traffic as if the lost records were still on their way back. -/
def keeping (t : Traffic) (lost : List Record) : Traffic := { t with leaving := t.leaving ++ lost }

section Turns

variable {t : Traffic} {lost : List Record}

theorem keeping_perform (env : Environment) (t : Traffic) (lost : List Record) {act : Act}
    (hsettle : ∀ place, act ≠ .settle place)
    (hsubmit : ∀ place thread, act ≠ .submit place thread) :
    (t.perform env act).keeping lost = (t.keeping lost).perform env act := by
  cases act with
  | acquire =>
    simp only [perform, keeping]
    cases t.runner.stock.tryAcquire <;> rfl
  | submit place thread => exact absurd rfl (hsubmit place thread)
  | settle place => exact absurd rfl (hsettle place)
  | work =>
    obtain ⟨runner, held, leaving⟩ := t
    cases runner <;> rfl
  | _ => rfl

theorem Conserves.turn_keeping (h : (t.keeping lost).Conserves c) (hopen : t.runner.IsOpen)
    {act : Act} (hact : act.isOwn = true) :
    ((t.turn env act).keeping (t.loss env act ++ lost)).Conserves c := by
  obtain ⟨runner, held, leaving⟩ := t
  cases runner with
  | background r => exact hopen.elim
  | immediate r =>
    have hserves : (Runner.immediate r).Serves c := h.serves
    cases act with
    | submit place thread =>
      cases hplace : held[place]? with
      | none =>
        simp only [turn, Traffic.perform, loss, hplace]
        exact h
      | some record =>
        have hexchange : Runner.Exchanges c (.immediate r) []
            (.immediate (r.tryWrite env thread record).1) [] :=
          Immediate.tryWrite_exchanges hserves thread record
        have hheld := perm_eraseIdx hplace
        simp only [turn, loss, hplace]
        generalize r.tryWrite env thread record = written at hexchange
        obtain ⟨after, broken⟩ := written
        -- the record goes to those on their way, or to those that are lost
        cases broken with
        | none =>
          refine h.exchange hexchange ?_
          simp only [keeping, List.append_nil]
          exact (hheld.append_right _).trans List.perm_middle.symm
        | some reason =>
          refine h.exchange hexchange ?_
          simp only [keeping, List.append_nil]
          refine (hheld.append_right _).trans (List.perm_middle.symm.trans ?_)
          exact List.perm_middle.symm.append_left _
    | settle place =>
      cases hplace : leaving[place]? with
      | none =>
        simp only [turn, Traffic.perform, hplace]
        exact h
      | some record =>
        have hlt := (List.getElem?_eq_some_iff.1 hplace).1
        have hkept : (leaving ++ lost)[place]? = some record := by
          rw [List.getElem?_append_left hlt, hplace]
        have hsettled : (Traffic.perform env ⟨.immediate r, held, leaving ++ lost⟩
            (.settle place)).Conserves c :=
          h.perform_of_ne_work rfl fun hwork => by cases hwork
        simp only [Traffic.perform, hkept, List.eraseIdx_append_of_lt_length hlt] at hsettled
        simp only [turn, Traffic.perform, hplace]
        exact hsettled
    | work => exact h
    | stop thread => cases hact
    | _ =>
      refine Eq.subst (keeping_perform env _ lost ?_ ?_).symm (h.perform_of_ne_work hact ?_)
      · exact fun _ hsettle => by cases hsettle
      · exact fun _ _ hsubmit => by cases hsubmit
      · exact fun hwork => by cases hwork

theorem turn_open (hopen : t.runner.IsOpen) {act : Act} (hact : act.isOwn = true) :
    (t.turn env act).runner.IsOpen ∧
      (t.turn env act).runner.stock.made =
        t.runner.stock.made + if act.isAllocate then 1 else 0 := by
  obtain ⟨runner, held, leaving⟩ := t
  cases runner with
  | background r => exact hopen.elim
  | immediate r =>
    obtain ⟨outlet, houtlet⟩ := hopen
    cases act with
    | acquire =>
      simp only [turn, perform]
      cases hacquire : (Runner.immediate r).stock.tryAcquire with
      | none => exact ⟨⟨outlet, houtlet⟩, rfl⟩
      | some lent => exact ⟨⟨outlet, houtlet⟩, Stock.made_of_tryAcquire hacquire⟩
    | submit place thread =>
      cases hplace : held[place]? with
      | none =>
        simp only [turn, perform, hplace]
        exact ⟨⟨outlet, houtlet⟩, rfl⟩
      | some record =>
        obtain ⟨dropped, hwrite⟩ := Immediate.tryWrite_eq houtlet env thread record
        simp only [turn, hplace, hwrite]
        cases (r.work env thread record outlet).aborted with
        | none => exact ⟨⟨_, rfl⟩, rfl⟩
        | some reason => exact ⟨⟨_, rfl⟩, rfl⟩
    | settle place =>
      simp only [turn, perform]
      cases leaving[place]? with
      | none => exact ⟨⟨outlet, houtlet⟩, rfl⟩
      | some record => exact ⟨⟨outlet, houtlet⟩, rfl⟩
    | update c' =>
      simp only [turn, perform, Runner.update, Immediate.update]
      cases c'.arrange with
      | error error => exact ⟨⟨outlet, houtlet⟩, rfl⟩
      | ok arrangement =>
        simp only [houtlet]
        exact ⟨⟨_, rfl⟩, rfl⟩
    | stop thread => cases hact
    | _ => exact ⟨⟨outlet, houtlet⟩, rfl⟩

theorem turns_keeping (h : (t.keeping lost).Conserves c) (hopen : t.runner.IsOpen)
    {acts : List Act} (hacts : ∀ act ∈ acts, act.isOwn = true) :
    ((t.turns env acts).keeping (t.losses env acts ++ lost)).Conserves c ∧
      (t.turns env acts).runner.IsOpen ∧
      (t.turns env acts).runner.stock.made =
        t.runner.stock.made + acts.countP Act.isAllocate := by
  induction acts generalizing t lost with
  | nil => exact ⟨h, hopen, rfl⟩
  | cons act acts ih =>
    have hact := hacts act List.mem_cons_self
    obtain ⟨hopen₁, hmade⟩ := turn_open hopen hact
    obtain ⟨hkept, hopen', hmade'⟩ := ih (h.turn_keeping hopen hact) hopen₁
      fun other hother => hacts other (List.mem_cons_of_mem _ hother)
    refine ⟨?_, hopen', ?_⟩
    · rw [losses, List.append_assoc]
      exact hkept
    · rw [List.countP_cons]
      change ((t.turn env act).turns env acts).runner.stock.made = _
      rw [hmade', hmade]
      omega

theorem Conserves.length_le_made (h : t.Conserves c) :
    (t.pooled ++ t.outstanding).length ≤ t.runner.stock.made := by
  have hsub : (t.pooled ++ t.outstanding).map Record.serial ⊆ List.range t.runner.stock.made := by
    intro serial hserial
    obtain ⟨record, hrecord, rfl⟩ := List.mem_map.mp hserial
    exact List.mem_range.mpr (h.sound record hrecord).serial_lt
  -- no two records have the same serial number
  have hle := (List.subperm_of_subset h.distinct hsub).length_le
  rw [List.length_map, List.length_range] at hle
  exact hle

theorem outstanding_keeping (hopen : t.runner.IsOpen) (lost : List Record) :
    (t.keeping lost).outstanding = t.outstanding ++ lost := by
  obtain ⟨runner, held, leaving⟩ := t
  cases runner with
  | background r => exact hopen.elim
  | immediate r => simp [keeping, outstanding, Runner.pending]

end Turns
end Traffic

theorem Stock.Serves.tryAcquire_none_iff {s : Stock} (h : s.Serves c) :
    s.tryAcquire = none ↔ s.pool.items = [] := by
  rw [h.tryAcquire_eq, Option.map_eq_none_iff]
  exact Pool.tryAcquire_eq_none_iff

/-- A submission that breaks off leaves a runner that goes on, but does not give the record back; only
a full pool is left as if it had. So, whatever producers do with the records they have from it, the
pool, the producers and the records lost that way make up the pool's size, and at most what was
allocated besides. Where nothing was allocated, the pool is exhausted exactly if all its records are
out or lost. -/
theorem broken_submissions_lose_records {runner : Runner}
    (hstart : Runner.start env c = .running runner) (himmediate : c.strategy = .immediate)
    {acts : List Act} (hacts : ∀ act ∈ acts, act.isOwn = true) :
    (∀ (r : Immediate) (outlet : Outlet), r.outlet = some outlet →
      ∀ (thread : String) (record : Record),
        r.Submits env outlet record (r.submit env thread record).1
          (r.submit env thread record).2) ∧
    let t := Traffic.turns env { runner } acts
    let lost := Traffic.losses env { runner } acts
    let allocated := acts.countP Act.isAllocate
    t.runner.isRunning = true ∧ t.runner.IsOpen ∧
      ((t.pooled ++ (t.outstanding ++ lost)).map Record.serial).Nodup ∧
      c.poolSize ≤ t.pooled.length + t.outstanding.length + lost.length ∧
      t.pooled.length + t.outstanding.length + lost.length ≤ c.poolSize + allocated ∧
      (t.runner.stock.tryAcquire = none → c.poolSize ≤ t.outstanding.length + lost.length) ∧
      (allocated = 0 → (t.runner.stock.tryAcquire = none ↔
        t.outstanding.length + lost.length = c.poolSize)) := by
  refine ⟨fun r outlet houtlet thread record => Immediate.submits houtlet env thread record, ?_⟩
  intro t lost allocated
  obtain ⟨-, hmade, -⟩ := Runner.start_serves hstart
  have hopen : runner.IsOpen := Runner.isOpen_start hstart himmediate
  have hfresh : (Traffic.keeping { runner } []).Conserves c := Traffic.Conserves.fresh hstart
  obtain ⟨hkept, hopen', hmade'⟩ := Traffic.turns_keeping hfresh hopen hacts
  replace hkept : (t.keeping lost).Conserves c := by
    rw [List.append_nil] at hkept
    exact hkept
  replace hmade' : t.runner.stock.made = c.poolSize + allocated := by
    rw [← hmade]
    exact hmade'
  have hserves : t.runner.stock.Serves c := hkept.serves.stock
  have hall : (t.keeping lost).pooled ++ (t.keeping lost).outstanding =
      t.pooled ++ (t.outstanding ++ lost) := by
    rw [Traffic.outstanding_keeping hopen']
    rfl
  have hcount : (t.pooled ++ (t.outstanding ++ lost)).length =
      t.pooled.length + t.outstanding.length + lost.length := by
    simp only [List.length_append]
    omega
  have henough := hkept.enough
  have hmost := hkept.length_le_made
  have hdistinct := hkept.distinct
  rw [hall, hcount] at henough hmost
  rw [hall] at hdistinct
  have hupper := Nat.le_trans hmost (Nat.le_of_eq hmade')
  have hempty : t.runner.stock.tryAcquire = none ↔ t.pooled.length = 0 := by
    rw [hserves.tryAcquire_none_iff, List.length_eq_zero_iff]
    rfl
  refine ⟨hserves.running, hopen', hdistinct, henough, hupper, fun hnone => ?_, fun hzero => ?_⟩
  · have hpooled := hempty.1 hnone
    omega
  · rw [hempty]
    omega

def Environment.breaking : Environment where
  appenders _ _ call :=
    match call with
    | .write _ => .aborted "broken"
    | _ => .ok

/-- One of two records is lost, and the pool is empty when the other one is held. -/
theorem broken_submissions_lose_records_one_of_two :
    let c : Config :=
      { strategy := .immediate, poolSize := 2, heading := "", appenders := [⟨"a", .trace, 0⟩] }
    let acts : List Act := [.acquire, .submit 0 "main", .acquire]
    ∃ runner, Runner.start .breaking c = .running runner ∧
      let t := Traffic.turns .breaking { runner } acts
      let lost := Traffic.losses .breaking { runner } acts
      lost.map Record.serial = [0] ∧ t.held.map Record.serial = [1] ∧
        (t.runner.stock.tryAcquire = none ↔ t.outstanding.length + lost.length = 2) ∧
        t.outstanding.length + lost.length = 2 := by
  intro c acts
  obtain ⟨runner, hstart⟩ : ∃ runner, Runner.start .breaking c = .running runner := ⟨_, rfl⟩
  have hacts : ∀ act ∈ acts, act.isOwn = true := by decide
  obtain ⟨-, -, -, -, -, -, -, hexhausted⟩ := broken_submissions_lose_records hstart rfl hacts
  refine ⟨runner, hstart, ?_, ?_, hexhausted rfl, ?_⟩
  all_goals
    cases hstart
    decide +kernel

/-- The only record of a pool was submitted, and the appender broke off: no producer holds a record,
and the runner has none to lend. -/
theorem exhausted_though_none_held :
    let c : Config :=
      { strategy := .immediate, poolSize := 1, heading := "", appenders := [⟨"a", .trace, 0⟩] }
    ∃ runner, Runner.start .breaking c = .running runner ∧
      let t := Traffic.turns .breaking { runner } [.acquire, .submit 0 "main"]
      t.runner.isRunning = true ∧ t.held.length = 0 ∧ t.leaving.length = 0 ∧
        t.runner.stock.tryAcquire.isNone = true := by
  intro c
  refine ⟨_, rfl, ?_⟩
  decide +kernel

end Logbook
