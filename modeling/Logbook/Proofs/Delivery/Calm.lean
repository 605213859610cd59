import Logbook.Delivery.Runner
set_option autoImplicit false

/-!
# Delivery while no appender breaks off

Where no appender breaks off, no work on an outlet does, and the detours for that case drop out:
what is left of a step of the worker is one equation for each stage. The work that a worker has its
outlet do is a list of jobs, and the outlet and the journal are what the jobs made of them.
-/
namespace Logbook

/-- No appender breaks off; any may fail. -/
def Environment.Calm (env : Environment) : Prop :=
  ∀ appender earlier call reason, env.appenders appender earlier call ≠ .aborted reason

variable {env : Environment} (hcalm : env.Calm)

section Outlets

include hcalm

theorem Journal.perform_calm (j : Journal) (calls : List (Handle × Call)) :
    (j.perform env.appenders calls).2 = none := by
  induction calls generalizing j with
  | nil => rfl
  | cons first rest ih =>
    obtain ⟨handle, call⟩ := first
    rw [perform]
    have hreply := hcalm handle.appender (j.callsTo handle.appender) call
    generalize env.appenders handle.appender (j.callsTo handle.appender) call = reply at hreply
    cases reply with
    | ok => exact ih _
    | failed error => exact ih _
    | aborted reason => exact absurd rfl (hreply reason)

namespace Outlet

variable (o : Outlet) (j : Journal)

theorem perform_calm (calls : List (Handle × Call)) : (o.perform env j calls).aborted = none :=
  Journal.perform_calm hcalm j calls

theorem deliver_calm (record : Record) : (o.deliver env j record).aborted = none := by
  rw [deliver]
  split
  · rfl
  · exact perform_calm hcalm _ _ _

theorem notify_calm (thread : String) (dropped : Nat) :
    (o.notify env thread dropped j).aborted = none := by
  rw [notify]
  split
  · rfl
  · exact deliver_calm hcalm _ _ _

theorem flush_calm (thread : String) (dropped : Nat) :
    (o.flush env thread dropped j).aborted = none := by
  rw [flush, Worked.andThen, notify_calm hcalm]
  exact perform_calm hcalm _ _ _

theorem change_calm (a : Arrangement) : (o.change env a j).aborted = none := by
  rw [change, Worked.andThen, perform_calm hcalm]

theorem close_calm (thread : String) (dropped : Nat) :
    (o.close env thread dropped j).aborted = none := by
  rw [close, Worked.andThen, flush_calm hcalm]
  exact perform_calm hcalm _ _ _

end Outlet
end Outlets

/-! ## Jobs of a worker -/

inductive Job where
  | deliver (record : Record)
  | flush (dropped : Nat)
  | change (arrangement : Arrangement)
  | close (dropped : Nat)

namespace Job

def work (env : Environment) (o : Outlet) (j : Journal) : Job → Worked
  | .deliver record => o.deliver env j record
  | .flush dropped => o.flush env Background.workerThread dropped j
  | .change arrangement => o.change env arrangement j
  | .close dropped => o.close env Background.workerThread dropped j

def apply (env : Environment) (before : Outlet × Journal) (job : Job) : Outlet × Journal :=
  ((job.work env before.1 before.2).outlet, (job.work env before.1 before.2).journal)

include hcalm in
theorem work_calm (o : Outlet) (j : Journal) (job : Job) : (job.work env o j).aborted = none := by
  cases job with
  | deliver record => exact o.deliver_calm hcalm j record
  | flush dropped => exact o.flush_calm hcalm j _ dropped
  | change arrangement => exact o.change_calm hcalm j arrangement
  | close dropped => exact o.close_calm hcalm j _ dropped

end Job

namespace Background

variable {r : Background}

def carryOut (r : Background) (env : Environment) (jobs : List Job) : Background :=
  { r with
    outlet := (jobs.foldl (Job.apply env) (r.outlet, r.journal)).1
    journal := (jobs.foldl (Job.apply env) (r.outlet, r.journal)).2 }

def idleJob? (r : Background) : Option Job :=
  match (r.phase.turn r.published.isSome).1 with
  | .flush => some (.flush r.stock.dropped)
  | .change => r.published.map .change
  | .rest => none

theorem idleJob?_ne_deliver {job : Job} (h : r.idleJob? = some job) (record : Record) :
    job ≠ .deliver record := by
  rw [idleJob?] at h
  rintro rfl
  split at h
  · cases h
  · obtain ⟨arrangement, -, harrangement⟩ := Option.map_eq_some_iff.mp h
    cases harrangement
  · cases h

include hcalm

theorem resume_calm (job : Job) (next : Background → Background) :
    r.resume env (job.work env r.outlet r.journal) next = next (r.carryOut env [job]) := by
  rw [resume, Job.work_calm hcalm]
  rfl

theorem useTurn_calm :
    ∃ dropped policy published phase, r.useTurn env =
      { r.carryOut env r.idleJob?.toList with
        stage := .ready
        stock := { r.stock with dropped, policy }
        published
        phase } := by
  rw [useTurn, idleJob?]
  generalize r.phase.turn r.published.isSome = turned
  obtain ⟨turn, phase⟩ := turned
  cases turn with
  | flush =>
    refine ⟨0, r.stock.policy, r.published, phase, ?_⟩
    exact resume_calm hcalm (r := { r with
      stock := { r.stock with dropped := 0 }, phase, stage := .ready }) (.flush r.stock.dropped) id
  | change =>
    obtain ⟨stock, queue, published, accepting, outlet, oldPhase, stage, daemon, joined, journal⟩ := r
    cases published with
    | none => exact ⟨stock.dropped, stock.policy, none, phase, rfl⟩
    | some arrangement =>
      refine ⟨stock.dropped, arrangement.policy, none, phase, ?_⟩
      exact resume_calm hcalm (r := ⟨stock, queue, none, accepting, outlet, phase, .ready, daemon,
        joined, journal⟩) (.change arrangement) fun r =>
          { r with stock.policy := arrangement.policy }
  | rest => exact ⟨r.stock.dropped, r.stock.policy, r.published, phase, rfl⟩

omit hcalm

theorem step_ready_nil (hstage : r.stage = .ready) (hqueue : r.queue = []) :
    r.step env = { r with stage := .idle } := by
  rw [step, hstage, hqueue]

include hcalm in
theorem step_ready_cons (hstage : r.stage = .ready) {record : Record} {rest : List Record}
    (hqueue : r.queue = record :: rest) :
    r.step env = { r.carryOut env [.deliver record] with
      queue := rest, stage := .delivered record } := by
  rw [step, hstage, hqueue]
  exact resume_calm hcalm (r := { r with queue := rest, stage := .ready }) (.deliver record)
    fun r => { r with stage := .delivered record }

theorem step_delivered {record : Record} (hstage : r.stage = .delivered record) :
    r.step env = { r with
      stock := r.stock.release record, phase := .afterEvent, stage := .ready } := by
  rw [step, hstage]

theorem step_idle (hstage : r.stage = .idle) (hrunning : r.stock.running = true) :
    r.step env = r.useTurn env := by
  rw [step, hstage]
  exact if_pos hrunning

theorem step_idle_stopped (hstage : r.stage = .idle) (hrunning : r.stock.running = false) :
    r.step env = { r with stage := .stopping } := by
  rw [step, hstage]
  exact if_neg (by rw [hrunning]; exact Bool.false_ne_true)

theorem step_stopping_cons (hstage : r.stage = .stopping) {record : Record} {rest : List Record}
    (hqueue : r.queue = record :: rest) : r.step env = { r with stage := .ready } := by
  rw [step, hstage, hqueue]
  rfl

include hcalm in
theorem step_stopping_nil (hstage : r.stage = .stopping) (hqueue : r.queue = []) :
    r.step env = { r.carryOut env [.close r.stock.dropped] with
      stock := r.stock.takeDropped.2.dispose, stage := .ended false } := by
  rw [step, hstage, hqueue]
  have hclose := Job.work_calm hcalm r.outlet r.journal (.close r.stock.dropped)
  change (r.outlet.close env workerThread r.stock.dropped r.journal).aborted = none at hclose
  simp only [List.isEmpty_nil, ↓reduceIte, finish, close, Stock.takeDropped]
  rw [hclose]
  rfl

theorem step_ended {lost : Bool} (hstage : r.stage = .ended lost) : r.step env = r := by
  rw [step, hstage]

end Background
end Logbook
