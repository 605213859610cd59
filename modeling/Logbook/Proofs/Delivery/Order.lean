import Logbook.Proofs.Delivery.Traffic
set_option autoImplicit false

/-!
# Messages are delivered in the order in which they were queued

What is queued is what was pushed and not yet taken, so what was dispatched is a beginning of what
was pushed. A worker ends only where it finds the queue empty after it saw that the runner was told
to end; whatever was pushed before that was dispatched then. A push that comes later stays in the
queue.
-/
namespace Logbook

variable {env : Environment}

def earlyPushes (marks : List Mark) : List Record :=
  (marks.takeWhile fun mark => !mark.isCleared).filterMap Mark.pushed?

theorem earlyPushes_begins (marks : List Mark) :
    earlyPushes marks <+: marks.filterMap Mark.pushed? :=
  (List.takeWhile_prefix _).filterMap _

theorem earlyPushes_append {marks : List Mark} (h : marks.any Mark.isCleared = true)
    (more : List Mark) : earlyPushes (marks ++ more) = earlyPushes marks := by
  have htake : (marks ++ more).takeWhile (fun mark => !mark.isCleared) =
      marks.takeWhile fun mark => !mark.isCleared := by
    induction marks with
    | nil => cases h
    | cons mark marks ih =>
      rw [List.cons_append, List.takeWhile_cons, List.takeWhile_cons]
      cases hmark : mark.isCleared with
      | true => rfl
      | false =>
        rw [List.any_cons, hmark, Bool.false_or] at h
        simp only [Bool.not_false, ↓reduceIte, ih h]
  rw [earlyPushes, htake, earlyPushes]

/-- The history of a worker since it started. -/
structure InOrder (env : Environment) (start r : Background) (marks : List Mark) : Prop where
  queued : marks.filterMap Mark.pushed? = marks.filterMap Mark.dispatched? ++ r.queue
  handled : marks.filter Mark.isHandling ++ r.inHand.map .released =
    (marks.filterMap Mark.dispatched?).flatMap Mark.handling
  running_eq : r.stock.running = !marks.any Mark.isCleared
  stopping : r.stage = .stopping → r.stock.running = false
  ended : ∀ lost, r.stage = .ended lost → r.stock.running = false ∧
    earlyPushes marks <+: marks.filterMap Mark.dispatched?
  jobs : (marks.filterMap Mark.job?).foldl (Job.apply env) (start.outlet, start.journal) =
    (r.outlet, r.journal)
  pool : marks.foldl Mark.onPool start.stock.pool = r.stock.pool

namespace InOrder

variable {start r s : Background} {marks : List Mark}

theorem cleared (h : InOrder env start r marks) (hrunning : r.stock.running = false) :
    marks.any Mark.isCleared = true := by
  have heq := h.running_eq
  rw [hrunning] at heq
  simpa using heq

theorem ended_append (h : InOrder env start r marks) (more : List Mark) (lost : Bool)
    (hstage : r.stage = .ended lost) : r.stock.running = false ∧
      earlyPushes (marks ++ more) <+: (marks ++ more).filterMap Mark.dispatched? := by
  obtain ⟨hrunning, hearly⟩ := h.ended lost hstage
  refine ⟨hrunning, ?_⟩
  rw [earlyPushes_append (h.cleared hrunning), List.filterMap_append]
  exact hearly.trans (List.prefix_append _ _)

/-- Nothing happened that is about a message, except that the outlet did other jobs. -/
theorem frame (h : InOrder env start r marks) (jobs : List Job)
    (hjobs : ∀ job ∈ jobs, ∀ record, job ≠ .deliver record) (hqueue : s.queue = r.queue)
    (hinHand : s.inHand = r.inHand) (hrunning : s.stock.running = r.stock.running)
    (hpool : s.stock.pool = r.stock.pool)
    (hstopping : s.stage = .stopping → s.stock.running = false)
    (hended : ∀ lost, s.stage = .ended lost → r.stage = .ended lost)
    (hjobbed : jobs.foldl (Job.apply env) (r.outlet, r.journal) = (s.outlet, s.journal)) :
    InOrder env start s (marks ++ jobs.map .worked) := by
  have hpushed : (jobs.map Mark.worked).filterMap Mark.pushed? = [] := by
    simp [List.filterMap_eq_nil_iff, Mark.pushed?]
  have hdispatched : (jobs.map Mark.worked).filterMap Mark.dispatched? = [] := by
    rw [List.filterMap_map, List.filterMap_eq_nil_iff]
    exact fun job hjob => Mark.dispatched?_worked (hjobs job hjob)
  have hhandled : (jobs.map Mark.worked).filter Mark.isHandling = [] := by
    rw [List.filter_eq_nil_iff, List.forall_mem_map]
    exact fun job hjob => Mark.isHandling_worked (hjobs job hjob)
  have hcleared : (jobs.map Mark.worked).any Mark.isCleared = false := by
    simp [Mark.isCleared]
  have hjob : (jobs.map Mark.worked).filterMap Mark.job? = jobs := by
    rw [List.filterMap_map]
    exact List.filterMap_some
  have hkept (jobs : List Job) (pool : Pool Record) :
      (jobs.map Mark.worked).foldl Mark.onPool pool = pool := by
    induction jobs with
    | nil => rfl
    | cons _ _ ih => exact ih
  exact {
    queued := by
      rw [List.filterMap_append, List.filterMap_append, hpushed, hdispatched, List.append_nil,
        List.append_nil, hqueue]
      exact h.queued
    handled := by
      rw [List.filter_append, List.filterMap_append, hhandled, hdispatched, List.append_nil,
        List.append_nil, hinHand]
      exact h.handled
    running_eq := by
      rw [List.any_append, hcleared, Bool.or_false, hrunning]
      exact h.running_eq
    stopping := hstopping
    ended := by
      intro lost hlost
      rw [hrunning]
      exact h.ended_append _ lost (hended lost hlost)
    jobs := by
      rw [List.filterMap_append, List.foldl_append, hjob, h.jobs]
      exact hjobbed
    pool := by
      rw [List.foldl_append, hkept, hpool]
      exact h.pool }

theorem lend (h : InOrder env start r marks) (hrunning : r.stock.running = true)
    {stock : Stock} (hstock : stock.running = true)
    (hpool : stock.pool = Mark.onPool r.stock.pool .lent) :
    InOrder env start { r with stock } (marks ++ [.lent]) where
  queued := by
    simpa [Mark.pushed?, Mark.dispatched?, List.filterMap_cons] using h.queued
  handled := by
    have hhandled := h.handled
    simpa [Background.inHand, Mark.dispatched?, Mark.isHandling, List.filterMap_cons,
      List.filter_cons] using hhandled
  running_eq := by
    simpa [Mark.isCleared, hstock, hrunning] using h.running_eq
  stopping := by
    intro hstop
    cases hrunning.symm.trans (h.stopping hstop)
  ended := by
    intro lost hlost
    cases hrunning.symm.trans (h.ended lost hlost).1
  jobs := by
    simpa [Mark.job?, List.filterMap_cons] using h.jobs
  pool := by
    rw [List.foldl_append, h.pool]
    exact hpool.symm

theorem push (h : InOrder env start r marks) (record : Record) :
    InOrder env start (r.push record) (marks ++ [.pushed record]) where
  queued := by
    have hqueued := h.queued
    simp [Background.push, Mark.pushed?, Mark.dispatched?, List.filterMap_cons, hqueued]
  handled := by
    have hhandled := h.handled
    simpa [Background.inHand, Background.push, Mark.dispatched?, Mark.isHandling,
      List.filterMap_cons] using hhandled
  running_eq := by
    simpa [Background.push, Mark.isCleared] using h.running_eq
  stopping := h.stopping
  ended := h.ended_append _
  jobs := by
    simpa [Background.push, Mark.job?, List.filterMap_cons] using h.jobs
  pool := by
    rw [List.foldl_append, h.pool]
    rfl

theorem stop (h : InOrder env start r marks) :
    InOrder env start r.stop (marks ++ [.cleared]) where
  queued := by
    simpa [Background.stop, Mark.pushed?, Mark.dispatched?, List.filterMap_cons] using h.queued
  handled := by
    have hhandled := h.handled
    simpa [Background.inHand, Background.stop, Mark.dispatched?, Mark.isHandling,
      List.filterMap_cons] using hhandled
  running_eq := by
    simp [Mark.isCleared, Background.stop, Stock.stop]
  stopping := fun _ => rfl
  ended := fun lost hlost => ⟨rfl, (h.ended_append _ lost hlost).2⟩
  jobs := by
    simpa [Background.stop, Mark.job?, List.filterMap_cons] using h.jobs
  pool := by
    rw [List.foldl_append, h.pool]
    rfl

theorem take (h : InOrder env start r marks) (hstage : r.stage = .ready) {record : Record}
    {rest : List Record} (hqueue : r.queue = record :: rest) :
    InOrder env start
      { r.carryOut env [.deliver record] with queue := rest, stage := .delivered record }
      (marks ++ [.taken record, .worked (.deliver record)]) where
  queued := by
    have hqueued := h.queued
    simp [Mark.pushed?, Mark.dispatched?, List.filterMap_cons, hqueued, hqueue]
  handled := by
    have hhandled := h.handled
    simp only [Background.inHand, hstage, List.map_nil, List.append_nil] at hhandled
    simp [Background.inHand, Mark.dispatched?, Mark.isHandling, List.filterMap_cons,
      List.filter_cons, hhandled, Mark.handling]
  running_eq := by
    simpa [Background.carryOut, Mark.isCleared] using h.running_eq
  stopping := fun hstop => by cases hstop
  ended := fun _ hlost => by cases hlost
  jobs := by
    rw [List.filterMap_append, List.foldl_append, h.jobs]
    rfl
  pool := by
    rw [List.foldl_append, h.pool]
    rfl

theorem giveBack (h : InOrder env start r marks) {record : Record}
    (hstage : r.stage = .delivered record) :
    InOrder env start
      { r with stock := r.stock.release record, phase := .afterEvent, stage := .ready }
      (marks ++ [.released record]) where
  queued := by
    simpa [Mark.pushed?, Mark.dispatched?, List.filterMap_cons] using h.queued
  handled := by
    have hhandled := h.handled
    simp only [Background.inHand, hstage] at hhandled
    simpa [Background.inHand, Mark.dispatched?, Mark.isHandling, List.filterMap_cons,
      List.filter_cons] using hhandled
  running_eq := by
    simpa [Stock.release, Mark.isCleared] using h.running_eq
  stopping := fun hstop => by cases hstop
  ended := fun _ hlost => by cases hlost
  jobs := by
    simpa [Mark.job?, List.filterMap_cons] using h.jobs
  pool := by
    rw [List.foldl_append, h.pool]
    rfl

theorem finish (h : InOrder env start r marks) (hstage : r.stage = .stopping)
    (hqueue : r.queue = []) :
    InOrder env start
      { r.carryOut env [.close r.stock.dropped] with
        stock := r.stock.takeDropped.2.dispose, stage := .ended false }
      (marks ++ [.worked (.close r.stock.dropped), .ended]) where
  queued := by
    simpa [Background.carryOut, Mark.pushed?, Mark.dispatched?, List.filterMap_cons]
      using h.queued
  handled := by
    have hhandled := h.handled
    simp only [Background.inHand, hstage] at hhandled
    simpa [Background.inHand, Mark.dispatched?, Mark.isHandling, List.filterMap_cons] using hhandled
  running_eq := by
    simpa [Stock.takeDropped, Stock.dispose, Mark.isCleared] using h.running_eq
  stopping := fun hstop => by cases hstop
  ended := by
    intro _ _
    -- the queue is empty, so all that was ever pushed was dispatched
    have hpushed := h.queued
    rw [hqueue, List.append_nil] at hpushed
    refine ⟨h.stopping hstage, ?_⟩
    rw [earlyPushes_append (h.cleared (h.stopping hstage)), List.filterMap_append, ← hpushed]
    exact (earlyPushes_begins marks).trans (List.prefix_append _ _)
  jobs := by
    rw [List.filterMap_append, List.foldl_append, h.jobs]
    rfl
  pool := by
    rw [List.foldl_append, h.pool]
    rfl

section Step

variable (hcalm : env.Calm)
include hcalm

theorem step (h : InOrder env start r marks) :
    InOrder env start (r.step env) (marks ++ r.marks) := by
  cases hstage : r.stage with
  | ready =>
    cases hqueue : r.queue with
    | nil =>
      rw [Background.step_ready_nil hstage hqueue, Background.marks, hstage, hqueue]
      exact h.frame [] (by simp) hqueue.symm (by rw [Background.inHand, Background.inHand, hstage])
        rfl rfl (fun hstop => by cases hstop) (fun _ hlost => by cases hlost) rfl
    | cons record rest =>
      rw [Background.step_ready_cons hcalm hstage hqueue, Background.marks, hstage, hqueue]
      exact h.take hstage hqueue
  | delivered record =>
    rw [Background.step_delivered hstage, Background.marks, hstage]
    exact h.giveBack hstage
  | idle =>
    rw [Background.marks, hstage]
    cases hrunning : r.stock.running with
    | true =>
      rw [Background.step_idle hstage hrunning]
      obtain ⟨dropped, policy, published, phase, hturn⟩ := Background.useTurn_calm hcalm (r := r)
      rw [hturn]
      refine h.frame r.idleJob?.toList ?_ rfl (by rw [Background.inHand, Background.inHand, hstage])
        rfl rfl (fun hstop => by cases hstop) (fun _ hlost => by cases hlost) rfl
      intro job hjob record
      exact Background.idleJob?_ne_deliver (by simpa using hjob) record
    | false =>
      rw [Background.step_idle_stopped hstage hrunning]
      exact h.frame [] (by simp) rfl (by rw [Background.inHand, Background.inHand, hstage])
        rfl rfl (fun _ => hrunning) (fun _ hlost => by cases hlost) rfl
  | stopping =>
    cases hqueue : r.queue with
    | nil =>
      rw [Background.step_stopping_nil hcalm hstage hqueue, Background.marks, hstage, hqueue]
      exact h.finish hstage hqueue
    | cons record rest =>
      rw [Background.step_stopping_cons hstage hqueue, Background.marks, hstage, hqueue]
      exact h.frame [] (by simp) hqueue.symm (by rw [Background.inHand, Background.inHand, hstage])
        rfl rfl (fun hstop => by cases hstop) (fun _ hlost => by cases hlost) rfl
  | ended lost =>
    rw [Background.step_ended hstage, Background.marks, hstage]
    exact h.frame [] (by simp) rfl rfl rfl rfl h.stopping (fun _ hlost => hlost) rfl

theorem perform (h : InOrder env start r marks) (t : Traffic) (hrunner : t.runner = .background r)
    (act : Act) : ∃ s, (t.perform env act).runner = .background s ∧
      InOrder env start s (marks ++ t.marks act) := by
  obtain ⟨_, held, leaving⟩ := t
  cases hrunner
  -- most turns of producers touch nothing that the history is about
  have hkeep (s : Background) (hqueue : s.queue = r.queue) (hstage : s.stage = r.stage)
      (hrunning : s.stock.running = r.stock.running) (hpool : s.stock.pool = r.stock.pool)
      (houtlet : s.outlet = r.outlet) (hjournal : s.journal = r.journal) :
      InOrder env start s (marks ++ []) :=
    h.frame [] (by simp) hqueue (by rw [Background.inHand, Background.inHand, hstage]) hrunning hpool
      (by rw [hstage, hrunning]; exact h.stopping) (by rw [hstage]; exact fun _ => id)
      (by rw [houtlet, hjournal]; rfl)
  cases act with
  | acquire =>
    cases hrunning : r.stock.running with
    | false =>
      refine ⟨r, ?_, ?_⟩
      · simp [Traffic.perform, Runner.stock, Runner.withStock, Stock.tryAcquire, hrunning]
      · simp only [Traffic.marks, hrunning]
        exact hkeep r rfl rfl rfl rfl rfl rfl
    | true =>
      have hmarks : Traffic.marks ⟨.background r, held, leaving⟩ .acquire = [.lent] := by
        simp [Traffic.marks, hrunning]
      rw [hmarks]
      cases hpool : r.stock.pool.tryAcquire with
      | none =>
        refine ⟨r, ?_, ?_⟩
        · simp [Traffic.perform, Runner.stock, Stock.tryAcquire, hrunning, hpool]
        · exact h.lend hrunning hrunning (by simp only [Mark.onPool, hpool])
      | some lent =>
        obtain ⟨record, pool⟩ := lent
        refine ⟨{ r with stock.pool := pool }, ?_, ?_⟩
        · simp [Traffic.perform, Runner.stock, Runner.withStock, Stock.tryAcquire, hrunning, hpool]
        · exact h.lend hrunning hrunning (by simp only [Mark.onPool, hpool])
  | allocate => exact ⟨_, rfl, hkeep _ rfl rfl rfl rfl rfl rfl⟩
  | bring record => exact ⟨_, rfl, hkeep _ rfl rfl rfl rfl rfl rfl⟩
  | fill place ops => exact ⟨_, rfl, hkeep _ rfl rfl rfl rfl rfl rfl⟩
  | submit place thread =>
    refine ⟨r, ?_, hkeep r rfl rfl rfl rfl rfl rfl⟩
    cases hplace : held[place]? with
    | none => simp only [Traffic.perform, hplace]
    | some record =>
      cases hrunning : r.stock.running with
      | true => simp only [Traffic.perform, hplace, Runner.enter, hrunning]
      | false => simp only [Traffic.perform, hplace, Runner.enter, hrunning]
  | settle place =>
    cases hplace : leaving[place]? with
    | none =>
      refine ⟨r, ?_, ?_⟩
      · simp only [Traffic.perform, hplace]
      · simp only [Traffic.marks, hplace]
        exact hkeep r rfl rfl rfl rfl rfl rfl
    | some record =>
      refine ⟨r.push record, ?_, ?_⟩
      · simp only [Traffic.perform, hplace, Runner.settleRecord]
      · simp only [Traffic.marks, hplace]
        exact h.push record
  | noteDropped => exact ⟨_, rfl, hkeep _ rfl rfl rfl rfl rfl rfl⟩
  | update c =>
    refine ⟨(r.update c).1, rfl, ?_⟩
    rw [Background.update]
    cases c.arrange with
    | error error => exact hkeep r rfl rfl rfl rfl rfl rfl
    | ok arrangement =>
      cases haccepting : r.accepting with
      | true =>
        exact hkeep { r with published := some arrangement, accepting := true }
          rfl rfl rfl rfl rfl rfl
      | false => exact hkeep r rfl rfl rfl rfl rfl rfl
  | stop thread => exact ⟨r.stop, rfl, h.stop⟩
  | work => exact ⟨r.step env, rfl, h.step hcalm⟩

theorem run (h : InOrder env start r marks) (t : Traffic) (hrunner : t.runner = .background r)
    (acts : List Act) : ∃ s, (t.run env acts).runner = .background s ∧
      InOrder env start s (marks ++ t.history env acts) := by
  -- the history of the turns so far grows along with the run
  induction acts generalizing r marks t with
  | nil =>
    refine ⟨r, hrunner, ?_⟩
    rw [Traffic.history, List.append_nil]
    exact h
  | cons act acts ih =>
    obtain ⟨s, hs, hstep⟩ := h.perform hcalm t hrunner act
    rw [Traffic.history, ← List.append_assoc]
    exact ih hstep (t.perform env act) hs

end Step

theorem fresh {c : Config} (hstart : Background.start env c = .running r) :
    InOrder env r r [] := by
  obtain ⟨hqueue, hstage, hstock, -⟩ := Background.start_running hstart
  exact {
    queued := by rw [hqueue]; rfl
    handled := by rw [Background.inHand, hstage]; rfl
    running_eq := by rw [hstock]; rfl
    stopping := fun hstop => by cases hstage.symm.trans hstop
    ended := fun _ hlost => by cases hstage.symm.trans hlost
    jobs := rfl
    pool := rfl }

end InOrder

/-- While no appender breaks off, a worker delivers in the order in which messages were queued,
loses none and delivers none twice. At any time what was queued is what was dispatched, in this
order, and what still waits. A message is taken, dispatched and given back before the next is
taken; the last may not have been given back yet. What the outlet and the pool have become is what
these events made of them. Once the worker has ended, all that was queued before the runner was told
to end has been dispatched. -/
theorem delivers_in_order (hcalm : env.Calm) {c : Config} {r : Background}
    (hstart : Background.start env c = .running r) (acts : List Act) :
    ∃ s, (Traffic.run env { runner := .background r } acts).runner = .background s ∧
      let marks := Traffic.history env { runner := .background r } acts
      marks.filterMap Mark.pushed? = marks.filterMap Mark.dispatched? ++ s.queue ∧
      marks.filter Mark.isHandling ++ s.inHand.map .released =
        (marks.filterMap Mark.dispatched?).flatMap Mark.handling ∧
      (marks.filterMap Mark.job?).foldl (Job.apply env) (r.outlet, r.journal) =
        (s.outlet, s.journal) ∧
      marks.foldl Mark.onPool r.stock.pool = s.stock.pool ∧
      (s.stock.running = !marks.any Mark.isCleared) ∧
      ∀ lost, s.stage = .ended lost →
        earlyPushes marks <+: marks.filterMap Mark.dispatched? := by
  have hfresh := InOrder.fresh hstart
  obtain ⟨s, hs, h⟩ := hfresh.run hcalm { runner := .background r } rfl acts
  rw [List.nil_append] at h
  exact ⟨s, hs, h.queued, h.handled, h.jobs, h.pool, h.running_eq,
    fun lost hlost => (h.ended lost hlost).2⟩

theorem delivers_in_order_before_end : ∃ r s,
    Background.start {} { poolSize := 1, heading := "" } = .running r ∧
      let acts := [.acquire, .submit 0 "main", .settle 0, .stop "main", .work, .work, .work, .work,
        .work]
      let marks := Traffic.history {} { runner := .background r } acts
      (Traffic.run {} { runner := .background r } acts).runner = .background s ∧
      s.stage = .ended false ∧ (earlyPushes marks).length = 1 ∧
      earlyPushes marks <+: marks.filterMap Mark.dispatched? := by
  obtain ⟨r, hstart⟩ : ∃ r, Background.start {} { poolSize := 1, heading := "" } = .running r :=
    ⟨_, rfl⟩
  have hcalm : Environment.Calm {} := fun _ _ _ _ hreply => by cases hreply
  obtain ⟨s, hs, -, -, -, -, -, hended⟩ := delivers_in_order hcalm hstart
    [.acquire, .submit 0 "main", .settle 0, .stop "main", .work, .work, .work, .work, .work]
  cases hstart
  cases hs
  exact ⟨_, _, rfl, rfl, rfl, rfl, hended false rfl⟩

end Logbook
