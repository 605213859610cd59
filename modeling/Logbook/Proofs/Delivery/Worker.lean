import Logbook.Proofs.Delivery.Requests
import Logbook.Proofs.Delivery.Traffic
set_option autoImplicit false

/-!
# What a step of a worker comes to

`Goes` lists it, whatever the appenders answer: the worker goes on, or its job broke off and it
fails, or it closes the appenders because all is delivered. What later proofs know about a step
where appenders may break off comes from there.
-/
namespace Logbook

variable {env : Environment}

namespace Job

def requests (env : Environment) (o : Outlet) (j : Journal) : Job → List Request
  | .deliver record => o.lineRequests env record
  | .flush dropped => o.flushRequests env j Background.workerThread dropped
  | .change a => Outlet.changeCalls o.handles a.handles
  | .close dropped => o.closeRequests env j Background.workerThread dropped

def handles (old : List Handle) : Job → List Handle
  | .change a => a.handles
  | .close _ => []
  | _ => old

variable (env) (o : Outlet) (j : Journal) (job : Job)

theorem makes : (job.work env o j).Makes env j (job.requests env o j) := by
  cases job with
  | deliver record => exact o.deliver_makes env j record
  | flush dropped => exact o.flush_makes env j _ dropped
  | change a => exact o.change_makes env j a
  | close dropped => exact o.close_makes env j _ dropped

theorem asks : Asks o.handles (job.requests env o j) (job.handles o.handles) := by
  cases job with
  | deliver record => exact .serve fun _ h => o.serves_lineRequests env h
  | flush dropped => exact .serve fun _ h => o.serves_flushRequests env j _ dropped h
  | change a => exact .change a.handles
  | close dropped => exact o.asks_close env j _ dropped

variable {env o j job}

theorem handles_work (h : (job.work env o j).aborted = none) :
    (job.work env o j).outlet.handles = job.handles o.handles := by
  cases job with
  | deliver record => exact o.handles_deliver env j record
  | flush dropped => exact o.handles_flush env j _ dropped
  | change a => exact o.handles_change env j h
  | close dropped => exact o.handles_close env j _ dropped h

end Job

namespace Background

variable (r : Background)

def job? : Option Job :=
  match r.stage with
  | .ready => r.queue.head?.map .deliver
  | .delivered _ => none
  | .idle => if r.stock.running then r.idleJob? else none
  | .stopping => if r.queue.isEmpty then some (.close r.stock.dropped) else none
  | .ended _ => none

/-- Work that is done lets the worker go on, and work that breaks off makes it fail. -/
theorem resume_cases (env : Environment) (w : Worked) (next : Background → Background) :
    w.aborted = none ∧
        r.resume env w next = next { r with outlet := w.outlet, journal := w.journal } ∨
      ∃ reason, w.aborted = some reason ∧ r.resume env w next =
        { r with outlet := w.outlet, journal := w.journal }.fail env reason := by
  rw [resume]
  cases w.aborted with
  | none => exact .inl ⟨rfl, rfl⟩
  | some reason => exact .inr ⟨reason, rfl, rfl⟩

theorem useTurn_of_none (env : Environment) (h : r.idleJob? = none) :
    ∃ phase, r.useTurn env = { r with phase, stage := .ready } := by
  rw [idleJob?] at h
  rw [useTurn]
  generalize r.phase.turn r.published.isSome = turned at h
  obtain ⟨turn, phase⟩ := turned
  refine ⟨phase, ?_⟩
  cases turn with
  | flush => cases h
  | change =>
    have hpublished : r.published = none := by simpa using h
    simp only [change, hpublished]
  | rest => rfl

theorem useTurn_of_some (env : Environment) {job : Job} (h : r.idleJob? = some job) :
    ∃ dropped policy published phase, r.useTurn env =
      ({ r with stock.dropped := dropped, published, phase, stage := .ready } : Background).resume
        env (job.work env r.outlet r.journal) fun r => { r with stock.policy := policy } := by
  rw [idleJob?] at h
  rw [useTurn]
  generalize r.phase.turn r.published.isSome = turned at h
  obtain ⟨turn, phase⟩ := turned
  obtain ⟨stock, queue, published, accepting, outlet, before, stage, daemon, joined, journal⟩ := r
  cases turn with
  | flush =>
    cases h
    refine ⟨0, stock.policy, published, phase, ?_⟩
    change resume _ env ((Job.flush stock.dropped).work env outlet journal) id = _
    rw [resume, resume]
    cases ((Job.flush stock.dropped).work env outlet journal).aborted <;> rfl
  | change =>
    cases published with
    | none => cases h
    | some a =>
      cases h
      exact ⟨stock.dropped, a.policy, none, phase, rfl⟩
  | rest => cases h

theorem job?_ne_close (hstage : r.stage ≠ .stopping) {job : Job} (h : r.job? = some job)
    (dropped : Nat) : job ≠ .close dropped := by
  rintro rfl
  cases hcase : r.stage with
  | ready =>
    rw [job?, hcase] at h
    obtain ⟨record, -, hrecord⟩ := Option.map_eq_some_iff.mp h
    cases hrecord
  | delivered record => rw [job?, hcase] at h; cases h
  | idle =>
    simp only [job?, hcase, idleJob?] at h
    split at h
    · split at h
      · cases h
      · obtain ⟨a, -, ha⟩ := Option.map_eq_some_iff.mp h
        cases ha
      · cases h
    · cases h
  | stopping => exact hstage hcase
  | ended lost => rw [job?, hcase] at h; cases h

theorem fail_eq (env : Environment) (reason : String) :
    let closed := r.outlet.close env workerThread r.stock.dropped
      (r.journal.add (.workerFailed reason))
    (r.fail env reason).stage = .ended false ∧ (r.fail env reason).stock.running = false ∧
      (r.fail env reason).accepting = false ∧
      (r.fail env reason).stock.pool = r.stock.pool.dispose ∧
      (r.fail env reason).journal.requests = closed.journal.requests := by
  intro closed
  refine ⟨rfl, rfl, rfl, rfl, ?_⟩
  change (if closed.aborted.isSome then closed.journal.add .closeFailed
    else closed.journal).requests = _
  split
  · exact (Journal.requests_add _ _).trans (List.append_nil _)
  · rfl

theorem finish_eq (env : Environment) :
    let closed := r.outlet.close env workerThread r.stock.dropped r.journal
    (r.finish env).stage = .ended closed.aborted.isSome ∧
      (r.finish env).stock.running = r.stock.running ∧ (r.finish env).accepting = r.accepting ∧
      (r.finish env).stock.pool =
        (if closed.aborted.isSome then r.stock.pool else r.stock.pool.dispose) ∧
      (r.finish env).outlet = closed.outlet ∧ (r.finish env).journal = closed.journal := by
  intro closed
  have hclose : r.close env = ({ r with
      stock := r.stock.takeDropped.2, outlet := closed.outlet, journal := closed.journal },
      closed.aborted) := rfl
  rw [finish, hclose]
  cases closed.aborted with
  | none => exact ⟨rfl, rfl, rfl, rfl, rfl, rfl⟩
  | some reason => exact ⟨rfl, rfl, rfl, rfl, rfl, rfl⟩

theorem step_takes (env : Environment) (hstage : r.stage = .ready) {record : Record}
    {rest : List Record} (hqueue : r.queue = record :: rest) :
    r.step env = ({ r with queue := rest } : Background).resume env
      ((Job.deliver record).work env r.outlet r.journal)
      fun r => { r with stage := .delivered record } := by
  rw [step, hstage, hqueue]
  rfl

theorem step_finishes (env : Environment) (hstage : r.stage = .stopping) (hqueue : r.queue = []) :
    r.step env = r.finish env := by
  rw [step, hstage, hqueue]
  rfl

/-- What a step of a worker that has not ended comes to, whatever the appenders answer. -/
inductive Goes (env : Environment) (r : Background) : Background → Prop where
  | on {s : Background}
      (done : ∀ job, r.job? = some job → (job.work env r.outlet r.journal).aborted = none)
      (made : (s.outlet, s.journal) = r.job?.toList.foldl (Job.apply env) (r.outlet, r.journal))
      (alive : ∀ lost, s.stage ≠ .ended lost)
      (stopping : s.stage = .stopping → r.stock.running = false)
      (running_eq : s.stock.running = r.stock.running)
      (accepting_eq : s.accepting = r.accepting)
      (capacity_eq : s.stock.pool.capacity = r.stock.pool.capacity) : Goes env r s
  | fails {s : Background} {job : Job} {reason : String} (job_eq : r.job? = some job)
      (open_stage : r.stage ≠ .stopping)
      (broken : (job.work env r.outlet r.journal).aborted = some reason)
      (outlet_eq : s.outlet = (job.work env r.outlet r.journal).outlet)
      (journal_eq : s.journal = (job.work env r.outlet r.journal).journal)
      (pool_eq : s.stock.pool = r.stock.pool) : Goes env r (s.fail env reason)
  | closes (stage_eq : r.stage = .stopping) (queue_eq : r.queue = []) : Goes env r (r.finish env)

theorem capacity_release (s : Stock) (record : Record) :
    (s.release record).pool.capacity = s.pool.capacity := by
  rw [Stock.release, Pool.release]
  split <;> rfl

theorem step_goes (env : Environment) (halive : ∀ lost, r.stage ≠ .ended lost) :
    r.Goes env (r.step env) := by
  -- a step without a job
  have hrest {s : Background} (hjob : r.job? = none) (houtlet : s.outlet = r.outlet)
      (hjournal : s.journal = r.journal) (hstage : ∀ lost, s.stage ≠ .ended lost)
      (hstopping : s.stage = .stopping → r.stock.running = false)
      (hrunning : s.stock.running = r.stock.running) (haccepting : s.accepting = r.accepting)
      (hcapacity : s.stock.pool.capacity = r.stock.pool.capacity) : r.Goes env s :=
    .on (by rw [hjob]; exact fun _ h => by cases h) (by rw [hjob, houtlet, hjournal]; rfl) hstage
      hstopping hrunning haccepting hcapacity
  cases hstage : r.stage with
  | ready =>
    cases hqueue : r.queue with
    | nil =>
      have hjob : r.job? = none := by rw [job?, hstage, hqueue]; rfl
      rw [step_ready_nil hstage hqueue]
      exact hrest hjob rfl rfl (fun _ => Stage.noConfusion) (fun h => by cases h) rfl rfl rfl
    | cons record rest =>
      have hjob : r.job? = some (.deliver record) := by rw [job?, hstage, hqueue]; rfl
      have hopen : r.stage ≠ .stopping := by rw [hstage]; exact Stage.noConfusion
      rw [r.step_takes env hstage hqueue]
      rcases resume_cases { r with queue := rest } env _
        fun r => { r with stage := .delivered record } with ⟨hdone, heq⟩ | ⟨reason, hbroken, heq⟩
      · rw [heq]
        refine .on ?_ (by rw [hjob]; rfl) (fun _ => Stage.noConfusion) (fun h => by cases h) rfl rfl
          rfl
        rw [hjob]
        rintro _ ⟨⟩
        exact hdone
      · rw [heq]
        exact .fails hjob hopen hbroken rfl rfl rfl
  | delivered record =>
    have hjob : r.job? = none := by rw [job?, hstage]
    rw [step_delivered hstage]
    exact hrest hjob rfl rfl (fun _ => Stage.noConfusion) (fun h => by cases h) rfl rfl
      (capacity_release _ _)
  | idle =>
    cases hrunning : r.stock.running with
    | true =>
      have hjob : r.job? = r.idleJob? := by rw [job?, hstage]; exact if_pos hrunning
      have hopen : r.stage ≠ .stopping := by rw [hstage]; exact Stage.noConfusion
      rw [step_idle hstage hrunning]
      cases hidle : r.idleJob? with
      | none =>
        obtain ⟨phase, hturn⟩ := r.useTurn_of_none env hidle
        rw [hturn]
        exact hrest (hjob.trans hidle) rfl rfl (fun _ => Stage.noConfusion) (fun h => by cases h)
          rfl rfl rfl
      | some job =>
        obtain ⟨dropped, policy, published, phase, hturn⟩ := r.useTurn_of_some env hidle
        have hsome := hjob.trans hidle
        rw [hturn]
        rcases resume_cases { r with stock.dropped := dropped, published, phase, stage := .ready }
          env (job.work env r.outlet r.journal) fun r => { r with stock.policy := policy } with
          ⟨hdone, heq⟩ | ⟨reason, hbroken, heq⟩
        · rw [heq]
          refine .on ?_ (by rw [hsome]; rfl) (fun _ => Stage.noConfusion) (fun h => by cases h) rfl
            rfl rfl
          rw [hsome]
          rintro _ ⟨⟩
          exact hdone
        · rw [heq]
          exact .fails hsome hopen hbroken rfl rfl rfl
    | false =>
      have hjob : r.job? = none := by
        rw [job?, hstage]
        exact if_neg (by rw [hrunning]; exact Bool.false_ne_true)
      rw [step_idle_stopped hstage hrunning]
      exact hrest hjob rfl rfl (fun _ => Stage.noConfusion) (fun _ => hrunning) rfl rfl rfl
  | stopping =>
    cases hqueue : r.queue with
    | nil =>
      rw [r.step_finishes env hstage hqueue]
      exact .closes hstage hqueue
    | cons record rest =>
      have hjob : r.job? = none := by rw [job?, hstage, hqueue]; rfl
      rw [step_stopping_cons hstage hqueue]
      exact hrest hjob rfl rfl (fun _ => Stage.noConfusion) (fun h => by cases h) rfl rfl rfl
  | ended lost => exact absurd hstage (halive lost)

theorem step_of_done
    (hdone : ∀ job, r.job? = some job → (job.work env r.outlet r.journal).aborted = none) :
    ((r.step env).outlet, (r.step env).journal) =
      r.job?.toList.foldl (Job.apply env) (r.outlet, r.journal) := by
  by_cases hended : ∃ lost, r.stage = .ended lost
  · obtain ⟨lost, hstage⟩ := hended
    have hjob : r.job? = none := by rw [job?, hstage]
    rw [step_ended hstage, hjob]
    rfl
  have hgoes := r.step_goes env (not_exists.mp hended)
  generalize r.step env = s at hgoes
  cases hgoes with
  | on _ hmade => exact hmade
  | fails hjob _ hbroken => cases hbroken.symm.trans (hdone _ hjob)
  | closes hstage hqueue =>
    have hjob : r.job? = some (.close r.stock.dropped) := by rw [job?, hstage, hqueue]; rfl
    obtain ⟨-, -, -, -, houtlet, hjournal⟩ := r.finish_eq env
    rw [houtlet, hjournal, hjob]
    rfl

end Background
end Logbook
