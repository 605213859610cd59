import Logbook.Proofs.Delivery.Calm
import Logbook.Proofs.Record.Operation
set_option autoImplicit false

/-!
# Everything that happens to a runner

Producers, whoever stops the runner and its worker take turns, in any order. Submitting is not one
turn but two, with anything in between: a runner with a worker is first asked whether it is running,
and the record is queued afterwards; one without a worker delivers first, and gives the record back
afterwards. Any number of producers may be between the two.

`marks` says what a turn does about messages. The marks of a run are its history.
-/
namespace Logbook

namespace Immediate

def write (r : Immediate) (env : Environment) (thread : String) (record : Record) : Immediate :=
  match r.outlet with
  | none => r
  | some outlet =>
    let delivered := outlet.deliver env r.journal record
    let flushed := delivered.outlet.flush env thread r.stock.dropped delivered.journal
    ⟨r.stock.takeDropped.2, some flushed.outlet, flushed.journal⟩

def giveBack (r : Immediate) (record : Record) : Immediate :=
  { r with stock := r.stock.release record }

end Immediate

namespace Background

def push (r : Background) (record : Record) : Background :=
  { r with queue := r.queue ++ [record] }

def inHand (r : Background) : List Record :=
  match r.stage with
  | .delivered record => [record]
  | _ => []

end Background

namespace Runner

/-- The first half of submitting a record; tells whether there is a second half. -/
def enter (env : Environment) (thread : String) (record : Record) : Runner → Runner × Bool
  | .immediate r => (.immediate (r.write env thread record), true)
  | .background r => (.background r, r.stock.running)

def settleRecord (record : Record) : Runner → Runner
  | .immediate r => .immediate (r.giveBack record)
  | .background r => .background (r.push record)

def signal (env : Environment) (thread : String) : Runner → Runner
  | .immediate r => .immediate (r.shutdown env thread).1
  | .background r => .background r.stop

def pending : Runner → List Record
  | .immediate _ => []
  | .background r => r.inHand ++ r.queue

end Runner

/-- One turn. Records are named by their place among those that are held or on their way. -/
inductive Act where
  | acquire
  | allocate
  | bring (record : Record)
  | fill (place : Nat) (ops : List Operation)
  | submit (place : Nat) (thread : String)
  | settle (place : Nat)
  | noteDropped
  | update (c : Config)
  | stop (thread : String)
  | work

structure Traffic where
  runner : Runner
  held : List Record := []
  /-- Records between the halves of their submission. -/
  leaving : List Record := []

namespace Traffic

def perform (env : Environment) (t : Traffic) : Act → Traffic
  | .acquire =>
    match t.runner.stock.tryAcquire with
    | none => t
    | some (record, stock) =>
      { t with runner := t.runner.withStock stock, held := record :: t.held }
  | .allocate =>
    let (record, stock) := t.runner.stock.allocate
    { t with runner := t.runner.withStock stock, held := record :: t.held }
  | .bring record => { t with held := record :: t.held }
  | .fill place ops => { t with held := t.held.modify place (·.run ops) }
  | .submit place thread =>
    match t.held[place]? with
    | none => t
    | some record =>
      match t.runner.enter env thread record with
      | (runner, true) => ⟨runner, t.held.eraseIdx place, record :: t.leaving⟩
      | (runner, false) => ⟨runner, t.held.eraseIdx place, t.leaving⟩
  | .settle place =>
    match t.leaving[place]? with
    | none => t
    | some record =>
      { t with runner := t.runner.settleRecord record, leaving := t.leaving.eraseIdx place }
  | .noteDropped => { t with runner := t.runner.withStock t.runner.stock.noteDropped }
  | .update c => { t with runner := (t.runner.update env c).1 }
  | .stop thread => { t with runner := t.runner.signal env thread }
  | .work =>
    match t.runner with
    | .immediate _ => t
    | .background r => { t with runner := .background (r.step env) }

def run (env : Environment) (t : Traffic) (acts : List Act) : Traffic := acts.foldl (perform env) t

end Traffic

/-! ## Starting -/

section Starting

variable {env : Environment} {c : Config}

theorem Config.stringCapacity_le_of_arrange {a : Arrangement} (h : c.arrange = .ok a) :
    c.stringCapacity ≤ maxStringCapacity := by
  rw [arrange] at h
  split at h
  · cases h
  split at h
  · cases h
  split at h
  · cases h
  · rename_i hcapacity
    exact Nat.le_of_not_lt fun hlt => hcapacity (.inr hlt)

theorem Config.handles_of_arrange {a : Arrangement} (h : c.arrange = .ok a) :
    a.handles = c.appenders := by
  rw [arrange] at h
  split at h
  · cases h
  split at h
  · cases h
  split at h
  · cases h
  split at h
  · cases h
  · cases h
    rfl

theorem Immediate.start_running {r : Immediate} (h : start env c = .running r) :
    r.stock = Stock.create c ∧ c.stringCapacity ≤ maxStringCapacity := by
  rw [start] at h
  cases harrange : c.arrange with
  | error error => simp [harrange] at h
  | ok arrangement =>
    simp only [harrange] at h
    split at h
    · cases h
    · cases h
      exact ⟨rfl, Config.stringCapacity_le_of_arrange harrange⟩

theorem Background.start_running {r : Background} (h : start env c = .running r) :
    r.queue = [] ∧ r.stage = .ready ∧ r.stock = Stock.create c ∧
      c.stringCapacity ≤ maxStringCapacity := by
  rw [start] at h
  cases harrange : c.arrange with
  | error error => simp [harrange] at h
  | ok arrangement =>
    simp only [harrange] at h
    split at h
    · cases h
    · cases h
      exact ⟨rfl, rfl, rfl, Config.stringCapacity_le_of_arrange harrange⟩

theorem Immediate.start_outlet {r : Immediate} (hstart : start env c = .running r) :
    ∃ a, c.arrange = .ok a ∧ r.outlet = some (Outlet.create a) := by
  rw [start] at hstart
  cases harrange : c.arrange with
  | error error => simp [harrange] at hstart
  | ok a =>
    simp only [harrange] at hstart
    split at hstart
    · cases hstart
    · cases hstart
      exact ⟨a, rfl, rfl⟩

theorem Background.start_outlet {r : Background} (hstart : start env c = .running r) :
    ∃ a, c.arrange = .ok a ∧ r.outlet = Outlet.create a ∧ r.published = none := by
  rw [start] at hstart
  cases harrange : c.arrange with
  | error error => simp [harrange] at hstart
  | ok a =>
    simp only [harrange] at hstart
    split at hstart
    · cases hstart
    · cases hstart
      exact ⟨a, rfl, rfl, rfl⟩

theorem Runner.start_running {runner : Runner} (h : start env c = .running runner) :
    (∃ r, Immediate.start env c = .running r ∧ runner = .immediate r) ∨
      ∃ r, Background.start env c = .running r ∧ runner = .background r := by
  rw [start] at h
  split at h
  · split at h
    · rename_i r hstart
      exact .inl ⟨r, hstart, (Started.running.inj h).symm⟩
    · cases h
    · cases h
  · split at h
    · rename_i r hstart
      exact .inr ⟨r, hstart, (Started.running.inj h).symm⟩
    · cases h
    · cases h

end Starting

/-! ## Submitting in two halves is submitting -/

section Halves

variable {env : Environment} (hcalm : env.Calm)
include hcalm

theorem Immediate.submit_calm (r : Immediate) (thread : String) (record : Record) :
    r.submit env thread record = ((r.write env thread record).giveBack record, none) := by
  obtain ⟨stock, outlet, journal⟩ := r
  cases outlet with
  | none => rfl
  | some outlet =>
    have hdeliver := outlet.deliver_calm hcalm journal record
    have hflush := (outlet.deliver env journal record).outlet.flush_calm hcalm
      (outlet.deliver env journal record).journal thread stock.dropped
    simp only [submit, hdeliver, Stock.takeDropped, hflush, write, giveBack]
    rfl

theorem Runner.submit_calm (runner : Runner) (thread : String) (record : Record) :
    runner.submit env thread record =
      (if (runner.enter env thread record).2 then
        (runner.enter env thread record).1.settleRecord record
      else (runner.enter env thread record).1, none) := by
  cases runner with
  | immediate r =>
    rw [submit, Immediate.submit_calm hcalm]
    rfl
  | background r =>
    have hpush : r.submit record = if r.stock.running = true then r.push record else r := rfl
    rw [submit, hpush]
    by_cases hrunning : r.stock.running = true
    · simp only [enter, hrunning, ↓reduceIte, settleRecord]
    · simp only [enter, hrunning, ↓reduceIte, Bool.false_eq_true]

end Halves

/-! ## Histories -/

inductive Mark where
  | pushed (record : Record)
  | cleared
  | taken (record : Record)
  | worked (job : Job)
  | released (record : Record)
  | lent
  | ended

namespace Mark

def pushed? : Mark → Option Record
  | .pushed record => some record
  | _ => none

def dispatched? : Mark → Option Record
  | .worked (.deliver record) => some record
  | _ => none

def job? : Mark → Option Job
  | .worked job => some job
  | _ => none

def isCleared : Mark → Bool
  | .cleared => true
  | _ => false

def onPool (pool : Pool Record) : Mark → Pool Record
  | .released record => pool.release record
  | .lent =>
    match pool.tryAcquire with
    | none => pool
    | some (_, pool) => pool
  | .ended => pool.dispose
  | _ => pool

def isHandling : Mark → Bool
  | .taken _ => true
  | .worked (.deliver _) => true
  | .released _ => true
  | _ => false

/-- All that a worker does with a message, in order. -/
def handling (record : Record) : List Mark :=
  [.taken record, .worked (.deliver record), .released record]

section Worked

variable {job : Job} (hjob : ∀ record, job ≠ .deliver record)
include hjob

theorem dispatched?_worked : (Mark.worked job).dispatched? = none := by
  cases job with
  | deliver record => exact absurd rfl (hjob record)
  | _ => rfl

theorem isHandling_worked : ¬ (Mark.worked job).isHandling = true := by
  cases job with
  | deliver record => exact absurd rfl (hjob record)
  | _ => exact Bool.false_ne_true

end Worked

end Mark

def Background.marks (r : Background) : List Mark :=
  match r.stage with
  | .ready =>
    match r.queue with
    | [] => []
    | record :: _ => [.taken record, .worked (.deliver record)]
  | .delivered record => [.released record]
  | .idle => if r.stock.running then r.idleJob?.toList.map .worked else []
  | .stopping =>
    match r.queue with
    | [] => [.worked (.close r.stock.dropped), .ended]
    | _ :: _ => []
  | .ended _ => []

def Traffic.marks (t : Traffic) (act : Act) : List Mark :=
  match t.runner, act with
  | .background r, .acquire => if r.stock.running then [.lent] else []
  | .background _, .settle place => (t.leaving[place]?.map Mark.pushed).toList
  | .background _, .stop _ => [.cleared]
  | .background r, .work => r.marks
  | _, _ => []

def Traffic.history (env : Environment) (t : Traffic) : List Act → List Mark
  | [] => []
  | act :: acts => t.marks act ++ (t.perform env act).history env acts

end Logbook
