import Logbook.Proofs.Delivery.Worker
set_option autoImplicit false

/-!
# How a runner comes to its end

A worker whose runner was told to end has finitely many steps left, whatever its appenders answer,
and the time that `settle` gives it is enough. So a shutdown is a signal and some steps of the
worker. A runner that is closed asks its appenders for nothing more.
-/
namespace Logbook

variable {env : Environment}

theorem Stock.tryAcquire_keeps {s s' : Stock} {record : Record}
    (h : s.tryAcquire = some (record, s')) :
    s'.running = s.running ∧ (s.running = false → s'.pool = s.pool) ∧
      s'.pool.capacity = s.pool.capacity ∧ s'.dropped = s.dropped := by
  rw [tryAcquire] at h
  split at h
  · rename_i hrunning
    obtain ⟨⟨item, pool⟩, hlent, heq⟩ := Option.map_eq_some_iff.mp h
    cases heq
    obtain ⟨-, -, hcapacity⟩ := Pool.tryAcquire_eq_some_iff.1 hlent
    exact ⟨rfl, fun hstopped => absurd hrunning (by simp [hstopped]), hcapacity, rfl⟩
  · cases h
    exact ⟨rfl, fun _ => rfl, rfl, rfl⟩

namespace Background

variable (r : Background)

/-! ## Running out -/

/-- Steps that a worker takes at most after its runner was told to end. -/
def stepsLeft : Nat :=
  match r.stage with
  | .ready => 2 * r.queue.length + 3
  | .delivered _ => 2 * r.queue.length + 4
  | .idle => if r.queue.isEmpty then 2 else 2 * r.queue.length + 5
  | .stopping => if r.queue.isEmpty then 1 else 2 * r.queue.length + 4
  | .ended _ => 0

theorem stepsLeft_eq_zero_iff : r.stepsLeft = 0 ↔ ∃ lost, r.stage = .ended lost := by
  rw [stepsLeft]
  cases r.stage with
  | ready => simp
  | delivered record => simp
  | idle => simp only [reduceCtorEq, exists_false, iff_false]; split <;> omega
  | stopping => simp only [reduceCtorEq, exists_false, iff_false]; split <;> omega
  | ended lost => simp

theorem stepsLeft_le : r.stepsLeft ≤ 2 * r.queue.length + 5 := by
  rw [stepsLeft]
  cases r.stage with
  | ready => simp only; omega
  | delivered record => simp only; omega
  | idle => simp only; split <;> omega
  | stopping => simp only; split <;> omega
  | ended lost => simp only; omega

theorem stepsLeft_step (hrunning : r.stock.running = false) (hleft : r.stepsLeft ≠ 0) :
    (r.step env).stock.running = false ∧ (r.step env).stepsLeft < r.stepsLeft := by
  have hpos := Nat.pos_of_ne_zero hleft
  cases hstage : r.stage with
  | ready =>
    cases hqueue : r.queue with
    | nil =>
      rw [step_ready_nil hstage hqueue]
      exact ⟨hrunning, by simp [stepsLeft, hstage, hqueue]⟩
    | cons record rest =>
      rw [r.step_takes env hstage hqueue]
      rcases resume_cases { r with queue := rest } env
        ((Job.deliver record).work env r.outlet r.journal)
        fun r => { r with stage := .delivered record } with ⟨-, heq⟩ | ⟨reason, -, heq⟩
      · rw [heq]
        refine ⟨hrunning, ?_⟩
        simp only [stepsLeft, hstage, hqueue, List.length_cons]
        omega
      · rw [heq]
        exact ⟨rfl, hpos⟩
  | delivered record =>
    rw [step_delivered hstage]
    exact ⟨hrunning, by simp [stepsLeft, hstage]⟩
  | idle =>
    rw [step_idle_stopped hstage hrunning]
    refine ⟨hrunning, ?_⟩
    simp only [stepsLeft, hstage]
    split <;> omega
  | stopping =>
    cases hqueue : r.queue with
    | nil =>
      have hclosed : (r.close env).1.stock.running = false := hrunning
      rw [r.step_finishes env hstage hqueue, finish]
      generalize r.close env = closed at hclosed
      obtain ⟨closed, aborted⟩ := closed
      cases aborted with
      | none => exact ⟨hclosed, hpos⟩
      | some reason => exact ⟨hclosed, hpos⟩
    | cons record rest =>
      rw [step_stopping_cons hstage hqueue]
      exact ⟨hrunning, by simp [stepsLeft, hstage, hqueue]⟩
  | ended lost => exact absurd ((r.stepsLeft_eq_zero_iff).mpr ⟨lost, hstage⟩) hleft

theorem steps_succ (env : Environment) (fuel : Nat) : steps env false (fuel + 1) r =
    if r.isResting then r else steps env false fuel (r.step env) := by
  simp [steps]

theorem steps_ended (hrunning : r.stock.running = false) {fuel : Nat}
    (hfuel : r.stepsLeft ≤ fuel) : ∃ lost, (steps env false fuel r).stage = .ended lost := by
  induction fuel generalizing r with
  | zero => exact (r.stepsLeft_eq_zero_iff).mp (Nat.le_zero.mp hfuel)
  | succ fuel ih =>
    rw [steps_succ]
    by_cases hleft : r.stepsLeft = 0
    · obtain ⟨lost, hstage⟩ := (r.stepsLeft_eq_zero_iff).mp hleft
      have hresting : r.isResting = true := by rw [isResting, hstage]
      rw [if_pos hresting]
      exact ⟨lost, hstage⟩
    · have hresting : r.isResting = false := by
        cases hstage : r.stage with
        | ended lost => exact absurd ((r.stepsLeft_eq_zero_iff).mpr ⟨lost, hstage⟩) hleft
        | _ => simp [isResting, hstage, hrunning]
      obtain ⟨hstopped, hless⟩ := r.stepsLeft_step hrunning hleft
      rw [if_neg (by rw [hresting]; exact Bool.false_ne_true)]
      exact ih _ hstopped (by omega)

theorem steps_eq_run (env : Environment) (held leaving : List Record) (fuel : Nat) :
    ∃ n, Traffic.run env ⟨.background r, held, leaving⟩ (List.replicate n .work) =
      ⟨.background (steps env false fuel r), held, leaving⟩ := by
  induction fuel generalizing r with
  | zero => exact ⟨0, rfl⟩
  | succ fuel ih =>
    rw [steps_succ]
    split
    · exact ⟨0, rfl⟩
    · obtain ⟨n, hrun⟩ := ih (r.step env)
      exact ⟨n + 1, hrun⟩

/-- What others leave as it is between two steps of a worker. A runner that has stopped stays
stopped, and lends nothing from its pool. -/
structure Between (r s : Background) : Prop where
  stage_eq : s.stage = r.stage
  outlet_eq : s.outlet = r.outlet
  journal_eq : s.journal = r.journal
  stopped : r.stock.running = false → s.stock.running = false ∧ s.stock.pool = r.stock.pool
  refusing : (r.stock.running = false → r.accepting = false) →
    s.stock.running = false → s.accepting = false
  capacity_eq : s.stock.pool.capacity = r.stock.pool.capacity

namespace Between

variable {r s u : Background}

theorem refl (r : Background) : r.Between r := ⟨rfl, rfl, rfl, fun h => ⟨h, rfl⟩, id, rfl⟩

theorem trans (h : r.Between s) (h' : s.Between u) : r.Between u where
  stage_eq := h'.stage_eq.trans h.stage_eq
  outlet_eq := h'.outlet_eq.trans h.outlet_eq
  journal_eq := h'.journal_eq.trans h.journal_eq
  stopped hstopped := by
    obtain ⟨hrunning, hpool⟩ := h.stopped hstopped
    obtain ⟨hrunning', hpool'⟩ := h'.stopped hrunning
    exact ⟨hrunning', hpool'.trans hpool⟩
  refusing hrefusing := h'.refusing (h.refusing hrefusing)
  capacity_eq := h'.capacity_eq.trans h.capacity_eq

end Between

theorem update_eq (c : Config) : ∃ published, (r.update c).1 = { r with published } := by
  rw [update]
  cases c.arrange with
  | error error => exact ⟨r.published, rfl⟩
  | ok a =>
    by_cases haccepting : r.accepting = true
    · exact ⟨some a, by simp only [if_pos haccepting]⟩
    · exact ⟨r.published, by simp only [if_neg haccepting]⟩

@[simp] theorem stage_join : r.join.stage = r.stage := by
  rw [join]
  split
  · split <;> rfl
  · rfl
  · rfl

@[simp] theorem requests_join : r.join.journal.requests = r.journal.requests := by
  rw [join]
  split
  · split
    · rfl
    · exact (Journal.requests_add _ _).trans (List.append_nil _)
  · rfl
  · rfl

theorem settle_stop_ended (env : Environment) :
    ∃ lost, (r.stop.settle env).stage = .ended lost := by
  have hleft := r.stop.stepsLeft_le
  refine r.stop.steps_ended rfl ?_
  rw [stepsToRest]
  omega

/-- A shutdown is over only when the worker has ended, and it does end. -/
theorem shutdown_ended (env : Environment) : ∃ lost, (r.shutdown env).stage = .ended lost := by
  rw [shutdown, stage_join]
  exact r.settle_stop_ended env

end Background

namespace Runner

def handles : Runner → List Handle
  | .immediate r => (r.outlet.map Outlet.handles).getD []
  | .background r => r.outlet.handles

def Closed : Runner → Prop
  | .immediate r => r.outlet = none
  | .background r => ∃ lost, r.stage = .ended lost

theorem closed_shutdown (env : Environment) (thread : String) (runner : Runner) :
    (runner.shutdown env thread).1.Closed := by
  cases runner with
  | immediate r =>
    obtain ⟨stock, outlet, journal⟩ := r
    cases outlet <;> rfl
  | background r => exact r.shutdown_ended env

end Runner

namespace Traffic

variable {t : Traffic}

/-- A shutdown is the signal to end, and then the worker goes on alone. -/
theorem shutdown_eq_run (env : Environment) (t : Traffic) (thread : String) :
    ∃ n, let ended := (t.perform env (.stop thread)).run env (List.replicate n .work)
      ended.runner.Closed ∧
        (t.runner.shutdown env thread).1.journal.requests = ended.runner.journal.requests := by
  obtain ⟨runner, held, leaving⟩ := t
  cases runner with
  | immediate r => exact ⟨0, Runner.closed_shutdown env thread (.immediate r), rfl⟩
  | background r =>
    obtain ⟨n, hrun⟩ := r.stop.steps_eq_run env held leaving r.stop.stepsToRest
    have hperform : Traffic.perform env ⟨.background r, held, leaving⟩ (.stop thread) =
        ⟨.background r.stop, held, leaving⟩ := rfl
    refine ⟨n, ?_⟩
    rw [hperform, hrun]
    exact ⟨r.settle_stop_ended env, Background.requests_join _⟩

theorem perform_immediate (env : Environment) {r : Immediate}
    (hrunner : t.runner = .immediate r) (act : Act) :
    ∃ s, (t.perform env act).runner = .immediate s := by
  obtain ⟨_, held, leaving⟩ := t
  cases hrunner
  cases act with
  | acquire =>
    rw [perform]
    split <;> exact ⟨_, rfl⟩
  | submit place thread =>
    rw [perform]
    split
    · exact ⟨r, rfl⟩
    · simp only [Runner.enter]
      exact ⟨_, rfl⟩
  | settle place =>
    rw [perform]
    split <;> exact ⟨_, rfl⟩
  | _ => exact ⟨_, rfl⟩

theorem perform_work (env : Environment) {r : Background} (hrunner : t.runner = .background r) :
    (t.perform env .work).runner = .background (r.step env) := by
  simp only [perform, hrunner]

theorem perform_background (env : Environment) {r : Background}
    (hrunner : t.runner = .background r) {act : Act} (hact : act ≠ .work) :
    ∃ s, (t.perform env act).runner = .background s ∧ r.Between s := by
  obtain ⟨_, held, leaving⟩ := t
  cases hrunner
  have hsame := Background.Between.refl r
  cases act with
  | acquire =>
    rw [perform]
    split
    · exact ⟨r, rfl, hsame⟩
    · rename_i record stock hlent
      obtain ⟨hrunning, hpool, hcapacity, -⟩ := r.stock.tryAcquire_keeps hlent
      exact ⟨{ r with stock }, rfl, rfl, rfl, rfl,
        fun hstopped => ⟨hrunning.trans hstopped, hpool hstopped⟩,
        fun hrefusing hstopped => hrefusing (hrunning.symm.trans hstopped), hcapacity⟩
  | submit place thread =>
    rw [perform]
    split
    · exact ⟨r, rfl, hsame⟩
    · simp only [Runner.enter]
      split <;> rename_i hentered <;> rw [← (Prod.mk.inj hentered).1] <;> exact ⟨r, rfl, hsame⟩
  | settle place =>
    rw [perform]
    split
    · exact ⟨r, rfl, hsame⟩
    · exact ⟨_, rfl, { hsame with }⟩
  | update c =>
    obtain ⟨published, hupdate⟩ := r.update_eq c
    refine ⟨(r.update c).1, rfl, ?_⟩
    rw [hupdate]
    exact { hsame with }
  | stop thread => exact ⟨_, rfl, rfl, rfl, rfl, fun _ => ⟨rfl, rfl⟩, fun _ _ => rfl, rfl⟩
  | work => exact absurd rfl hact
  | bring record => exact ⟨r, rfl, hsame⟩
  | fill place ops => exact ⟨r, rfl, hsame⟩
  | allocate => exact ⟨_, rfl, { hsame with }⟩
  | noteDropped => exact ⟨_, rfl, { hsame with }⟩

theorem perform_of_closed (env : Environment) (h : t.runner.Closed) (act : Act) :
    (t.perform env act).runner.Closed ∧
      (t.perform env act).runner.journal = t.runner.journal := by
  obtain ⟨runner, held, leaving⟩ := t
  have hstock (stock : Stock) : (runner.withStock stock).Closed ∧
      (runner.withStock stock).journal = runner.journal := by
    cases runner <;> exact ⟨h, rfl⟩
  cases act with
  | acquire =>
    rw [perform]
    split
    · exact ⟨h, rfl⟩
    · exact hstock _
  | allocate => exact hstock _
  | bring record => exact ⟨h, rfl⟩
  | fill place ops => exact ⟨h, rfl⟩
  | submit place thread =>
    rw [perform]
    split
    · exact ⟨h, rfl⟩
    · rename_i record _
      have henter : (runner.enter env thread record).1.Closed ∧
          (runner.enter env thread record).1.journal = runner.journal := by
        cases runner with
        | immediate r =>
          have hnone : r.outlet = none := h
          rw [Runner.enter, Immediate.write, hnone]
          exact ⟨hnone, rfl⟩
        | background r => exact ⟨h, rfl⟩
      split <;> rename_i hentered <;> rw [hentered] at henter <;> exact henter
  | settle place =>
    rw [perform]
    split
    · exact ⟨h, rfl⟩
    · cases runner <;> exact ⟨h, rfl⟩
  | noteDropped => exact hstock _
  | update c =>
    cases runner with
    | immediate r =>
      obtain ⟨stock, outlet, journal⟩ := r
      cases h
      have hupdate : ((Immediate.mk stock none journal).update env c).1 =
          ⟨stock, none, journal⟩ := by
        rw [Immediate.update]
        cases c.arrange <;> rfl
      rw [perform, Runner.update]
      simp only [hupdate]
      exact ⟨rfl, trivial⟩
    | background r =>
      obtain ⟨published, hupdate⟩ := r.update_eq c
      rw [perform, Runner.update]
      simp only [hupdate]
      exact ⟨h, rfl⟩
  | stop thread =>
    cases runner with
    | immediate r =>
      obtain ⟨stock, outlet, journal⟩ := r
      cases h
      exact ⟨rfl, rfl⟩
    | background r => exact ⟨h, rfl⟩
  | work =>
    cases runner with
    | immediate r => exact ⟨h, rfl⟩
    | background r =>
      obtain ⟨lost, hstage⟩ := h
      have hstep : Traffic.perform env ⟨.background r, held, leaving⟩ .work =
          ⟨.background r, held, leaving⟩ := by
        simp only [perform, Background.step_ended hstage]
      rw [hstep]
      exact ⟨⟨lost, hstage⟩, rfl⟩

theorem run_of_closed (env : Environment) (h : t.runner.Closed) (acts : List Act) :
    (t.run env acts).runner.Closed ∧
      (t.run env acts).runner.journal = t.runner.journal := by
  induction acts generalizing t with
  | nil => exact ⟨h, rfl⟩
  | cons act acts ih =>
    obtain ⟨hclosed, hjournal⟩ := perform_of_closed env h act
    obtain ⟨hclosed', hjournal'⟩ := ih hclosed
    exact ⟨hclosed', hjournal'.trans hjournal⟩

theorem run_append (env : Environment) (t : Traffic) (first rest : List Act) :
    t.run env (first ++ rest) = (t.run env first).run env rest :=
  List.foldl_append

/-- Neither late producers nor another shutdown make a closed runner ask its appenders for
anything. -/
theorem silent_of_closed (env : Environment) (h : t.runner.Closed) (late : List Act)
    (thread : String) :
    (t.run env late).runner.journal.requests = t.runner.journal.requests ∧
      ((t.run env late).runner.shutdown env thread).1.journal.requests =
        t.runner.journal.requests := by
  obtain ⟨hclosed, hjournal⟩ := run_of_closed env h late
  refine ⟨congrArg Journal.requests hjournal, ?_⟩
  obtain ⟨n, -, hover⟩ := shutdown_eq_run env (t.run env late) thread
  obtain ⟨hstop, hjournalStop⟩ := perform_of_closed env hclosed (.stop thread)
  obtain ⟨-, hjournalWork⟩ := run_of_closed env hstop (List.replicate n .work)
  rw [hover, hjournalWork, hjournalStop, hjournal]

end Traffic
end Logbook
