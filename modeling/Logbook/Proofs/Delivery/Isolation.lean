import Logbook.Proofs.Delivery.Shutdown
import Mathlib.Data.List.Forall2
set_option autoImplicit false

/-!
# An appender that fails is left alone with it

Two programs that differ only in how one appender answers, and that one fails or not but never
breaks off, have runners that differ only in the answers noted in their journals. `Twin` is that
relation. It is kept by every piece of work of an outlet, by every step of a worker and by every
call of a runner, so who else is called, and with what, does not depend on the failures.

Others may break off. A record whose delivery broke off is lost, so a turn is stated here once more
for that case; where no appender breaks off it is the turn as before.
-/
namespace Logbook

variable {env env' : Environment} {appender : Nat}

/-- The programs differ at most in how one appender answers, which breaks off in neither. -/
structure Environment.Twin (appender : Nat) (env env' : Environment) : Prop where
  registry_eq : env'.registry = env.registry
  now_eq : env'.now = env.now
  others_eq : ∀ other, other ≠ appender → env'.appenders other = env.appenders other
  unbroken : ∀ earlier call reason, env.appenders appender earlier call ≠ .aborted reason
  unbroken' : ∀ earlier call reason, env'.appenders appender earlier call ≠ .aborted reason

inductive Event.Twin (appender : Nat) : Event → Event → Prop where
  | same (event : Event) : Twin appender event event
  | answered {handle : Handle} (h : handle.appender = appender) (call : Call)
      (reply reply' : Reply) :
      Twin appender (.called handle call reply) (.called handle call reply')

def Journal.Twin (appender : Nat) (j j' : Journal) : Prop :=
  List.Forall₂ (Event.Twin appender) j.events.toList j'.events.toList

namespace Journal

variable {j j' : Journal}

theorem Twin.add (h : j.Twin appender j') {event event' : Event}
    (hevent : event.Twin appender event') : (j.add event).Twin appender (j'.add event') := by
  rw [Twin, Journal.add, Journal.add, Array.toList_push, Array.toList_push]
  exact List.rel_append h (.cons hevent .nil)

theorem Twin.refl (j : Journal) : j.Twin appender j :=
  List.forall₂_same.mpr fun event _ => .same event

theorem Twin.requests_eq (h : j.Twin appender j') : j'.requests = j.requests := by
  rw [requests, requests]
  unfold Twin at h
  generalize j.events.toList = events, j'.events.toList = events' at h
  induction h with
  | nil => rfl
  | cons hevent _ ih =>
    cases hevent with
    | same event => rw [List.filterMap_cons, List.filterMap_cons, ih]
    | answered _ call reply reply' => exact congrArg (_ :: ·) ih

theorem Twin.size_eq (h : j.Twin appender j') : j'.events.size = j.events.size := by
  rw [← Array.length_toList, ← Array.length_toList]
  exact (List.Forall₂.length_eq h).symm

theorem Twin.callsTo_eq (h : j.Twin appender j') (other : Nat) :
    j'.callsTo other = j.callsTo other := by
  rw [Journal.callsTo_eq, Journal.callsTo_eq, h.requests_eq]

end Journal

structure Worked.Twin (appender : Nat) (w w' : Worked) : Prop where
  outlet_eq : w'.outlet = w.outlet
  aborted_eq : w'.aborted = w.aborted
  journal : w.journal.Twin appender w'.journal

theorem Worked.Twin.andThen {w w' : Worked} (h : w.Twin appender w')
    {next next' : Outlet → Journal → Worked}
    (hnext : ∀ o j j', j.Twin appender j' → (next o j).Twin appender (next' o j')) :
    (w.andThen next).Twin appender (w'.andThen next') := by
  obtain ⟨outlet, journal, aborted⟩ := w
  obtain ⟨outlet', journal', aborted'⟩ := w'
  obtain ⟨rfl, rfl, hjournal⟩ := h
  cases aborted' with
  | none => exact hnext _ _ _ hjournal
  | some reason => exact ⟨rfl, rfl, hjournal⟩

section Outlets

variable (henv : env.Twin appender env')
include henv

theorem Journal.Twin.perform {j j' : Journal} (h : j.Twin appender j') (calls : List Request) :
    (j'.perform env'.appenders calls).2 = (j.perform env.appenders calls).2 ∧
      (j.perform env.appenders calls).1.Twin appender (j'.perform env'.appenders calls).1 := by
  induction calls generalizing j j' with
  | nil => exact ⟨rfl, h⟩
  | cons first rest ih =>
    obtain ⟨handle, call⟩ := first
    rw [Journal.perform, Journal.perform, h.callsTo_eq]
    by_cases hsame : handle.appender = appender
    · have hevent (reply reply' : Reply) := Event.Twin.answered hsame call reply reply'
      have hunbroken := henv.unbroken (j.callsTo handle.appender) call
      have hunbroken' := henv.unbroken' (j.callsTo handle.appender) call
      rw [← hsame] at hunbroken hunbroken'
      generalize env.appenders handle.appender (j.callsTo handle.appender) call = reply at *
      generalize env'.appenders handle.appender (j.callsTo handle.appender) call = reply' at *
      cases reply with
      | aborted reason => exact absurd rfl (hunbroken reason)
      | ok =>
        cases reply' with
        | aborted reason => exact absurd rfl (hunbroken' reason)
        | ok => exact ih (h.add (hevent _ _))
        | failed error => exact ih (h.add (hevent _ _))
      | failed error =>
        cases reply' with
        | aborted reason => exact absurd rfl (hunbroken' reason)
        | ok => exact ih (h.add (hevent _ _))
        | failed error => exact ih (h.add (hevent _ _))
    · rw [henv.others_eq _ hsame]
      generalize env.appenders handle.appender (j.callsTo handle.appender) call = reply
      have hadd := h.add (.same (.called handle call reply))
      cases reply with
      | ok => exact ih hadd
      | failed error => exact ih hadd
      | aborted reason => exact ⟨rfl, hadd⟩

namespace Outlet

variable (o : Outlet) {j j' : Journal} (h : j.Twin appender j')
include h

theorem perform_twin (calls : List Request) :
    (o.perform env j calls).Twin appender (o.perform env' j' calls) := by
  obtain ⟨haborted, hjournal⟩ := h.perform henv calls
  exact ⟨rfl, haborted, hjournal⟩

theorem deliver_twin (record : Record) :
    (o.deliver env j record).Twin appender (o.deliver env' j' record) := by
  rw [deliver, deliver, henv.registry_eq]
  split
  · exact ⟨rfl, rfl, h⟩
  · exact perform_twin henv _ h _

theorem notify_twin (thread : String) (dropped : Nat) :
    (o.notify env thread dropped j).Twin appender (o.notify env' thread dropped j') := by
  rw [notify, notify, henv.now_eq, h.size_eq]
  split
  · exact ⟨rfl, rfl, h⟩
  · exact deliver_twin henv o h _

theorem flush_twin (thread : String) (dropped : Nat) :
    (o.flush env thread dropped j).Twin appender (o.flush env' thread dropped j') :=
  (notify_twin henv o h thread dropped).andThen fun _ _ _ h => perform_twin henv _ h _

theorem change_twin (a : Arrangement) :
    (o.change env a j).Twin appender (o.change env' a j') := by
  rw [change, change]
  exact (perform_twin henv _ h _).andThen fun _ _ _ h => ⟨rfl, rfl, h⟩

theorem close_twin (thread : String) (dropped : Nat) :
    (o.close env thread dropped j).Twin appender (o.close env' thread dropped j') :=
  (flush_twin henv o h thread dropped).andThen fun _ _ _ h => perform_twin henv _ h _

end Outlet
end Outlets

/-! ## Workers -/

structure Background.Twin (appender : Nat) (r r' : Background) : Prop where
  rest_eq : r' = { r with journal := r'.journal }
  journal : r.journal.Twin appender r'.journal

namespace Background

variable {r r' : Background}

section Steady

variable (h : r.Twin appender r')
include h

theorem Twin.stock_eq : r'.stock = r.stock := by rw [h.rest_eq]

theorem Twin.outlet_eq : r'.outlet = r.outlet := by rw [h.rest_eq]

theorem Twin.stage_eq : r'.stage = r.stage := by rw [h.rest_eq]

theorem Twin.queue_eq : r'.queue = r.queue := by rw [h.rest_eq]

end Steady

variable (henv : env.Twin appender env')
include henv

theorem Twin.close (h : r.Twin appender r') :
    (r.close env).1.Twin appender (r'.close env').1 ∧ (r'.close env').2 = (r.close env).2 := by
  have hwork := r.outlet.close_twin henv h.journal workerThread r.stock.dropped
  obtain ⟨hrest, -⟩ := h
  generalize r'.journal = journal at hrest hwork
  subst hrest
  refine ⟨⟨?_, hwork.journal⟩, hwork.aborted_eq⟩
  simp only [Background.close, Stock.takeDropped, hwork.outlet_eq]

theorem Twin.fail (h : r.Twin appender r') (reason : String) :
    (r.fail env reason).Twin appender (r'.fail env' reason) := by
  let failing (r : Background) : Background :=
    { r.stop with queue := [], journal := r.journal.add (.workerFailed reason) }
  let ended (closed : Background × Option String) : Background :=
    { closed.1 with
      journal := if closed.2.isSome then closed.1.journal.add .closeFailed else closed.1.journal
      stock := closed.1.stock.dispose
      stage := .ended false }
  have hfailing : (failing r).Twin appender (failing r') :=
    ⟨by rw [h.rest_eq]; rfl, h.journal.add (.same (.workerFailed reason))⟩
  obtain ⟨hclosed, haborted⟩ := hfailing.close henv
  change (ended ((failing r).close env)).Twin appender (ended ((failing r').close env'))
  generalize (failing r).close env = closed, (failing r').close env' = closed' at hclosed haborted
  refine ⟨by simp only [ended]; rw [hclosed.rest_eq], ?_⟩
  simp only [ended, haborted]
  split
  · exact hclosed.journal.add (.same .closeFailed)
  · exact hclosed.journal

theorem Twin.resume (h : r.Twin appender r') {w w' : Worked} (hwork : w.Twin appender w')
    {next : Background → Background}
    (hnext : ∀ r r' : Background, r.Twin appender r' → (next r).Twin appender (next r')) :
    (r.resume env w next).Twin appender (r'.resume env' w' next) := by
  have hkept : Background.Twin appender { r with outlet := w.outlet, journal := w.journal }
      { r' with outlet := w'.outlet, journal := w'.journal } :=
    ⟨by rw [h.rest_eq, hwork.outlet_eq], hwork.journal⟩
  rw [Background.resume, Background.resume, hwork.aborted_eq]
  cases w.aborted with
  | none => exact hnext _ _ hkept
  | some reason => exact hkept.fail henv reason

theorem Twin.flush (h : r.Twin appender r') : (r.flush env).Twin appender (r'.flush env') := by
  have htaken : Background.Twin appender { r with stock := r.stock.takeDropped.2 }
      { r' with stock := r.stock.takeDropped.2 } := ⟨by rw [h.rest_eq], h.journal⟩
  rw [Background.flush, Background.flush, h.stock_eq, h.outlet_eq]
  exact htaken.resume henv (r.outlet.flush_twin henv h.journal workerThread r.stock.dropped)
    fun _ _ h => h

theorem Twin.change (h : r.Twin appender r') : (r.change env).Twin appender (r'.change env') := by
  have hpublished : r'.published = r.published := by rw [h.rest_eq]
  have htaken : Background.Twin appender { r with published := none }
      { r' with published := none } := ⟨by rw [h.rest_eq], h.journal⟩
  rw [Background.change, Background.change, hpublished, h.outlet_eq]
  cases r.published with
  | none => exact h
  | some a =>
    exact htaken.resume henv (r.outlet.change_twin henv h.journal a)
      fun _ _ h => ⟨by rw [h.rest_eq], h.journal⟩

theorem Twin.useTurn (h : r.Twin appender r') :
    (r.useTurn env).Twin appender (r'.useTurn env') := by
  have hturn : r'.phase.turn r'.published.isSome = r.phase.turn r.published.isSome := by
    rw [h.rest_eq]
  rw [Background.useTurn, Background.useTurn, hturn]
  generalize r.phase.turn r.published.isSome = turned
  obtain ⟨turn, phase⟩ := turned
  have hready : Background.Twin appender { r with phase, stage := .ready }
      { r' with phase, stage := .ready } := ⟨by rw [h.rest_eq], h.journal⟩
  cases turn with
  | flush => exact hready.flush henv
  | change => exact hready.change henv
  | rest => exact hready

theorem Twin.finish (h : r.Twin appender r') :
    (r.finish env).Twin appender (r'.finish env') := by
  obtain ⟨hclosed, haborted⟩ := h.close henv
  rw [Background.finish, Background.finish]
  generalize r.close env = closed, r'.close env' = closed' at hclosed haborted
  obtain ⟨closed, aborted⟩ := closed
  obtain ⟨closed', aborted'⟩ := closed'
  obtain rfl : aborted' = aborted := haborted
  replace hclosed : closed.Twin appender closed' := hclosed
  cases aborted' with
  | none =>
    change Background.Twin appender
      { closed with stock := closed.stock.dispose, stage := .ended false }
      { closed' with stock := closed'.stock.dispose, stage := .ended false }
    exact ⟨by rw [hclosed.rest_eq], hclosed.journal⟩
  | some reason =>
    change Background.Twin appender { closed with stage := .ended true }
      { closed' with stage := .ended true }
    exact ⟨by rw [hclosed.rest_eq], hclosed.journal⟩

/-- The worker reads nothing of the journal. -/
theorem Twin.step (h : r.Twin appender r') : (r.step env).Twin appender (r'.step env') := by
  have hstage := h.stage_eq
  have hqueue := h.queue_eq
  have hrunning := congrArg Stock.running h.stock_eq
  cases hcase : r.stage with
  | ready =>
    rw [hcase] at hstage
    cases hmessages : r.queue with
    | nil =>
      rw [hmessages] at hqueue
      rw [step_ready_nil hcase hmessages, step_ready_nil hstage hqueue]
      exact ⟨by rw [h.rest_eq], h.journal⟩
    | cons record rest =>
      rw [hmessages] at hqueue
      have htaken : Background.Twin appender { r with queue := rest } { r' with queue := rest } :=
        ⟨by rw [h.rest_eq], h.journal⟩
      rw [r.step_takes env hcase hmessages, r'.step_takes env' hstage hqueue, h.outlet_eq]
      exact htaken.resume henv (r.outlet.deliver_twin henv h.journal record)
        fun _ _ h => ⟨by rw [h.rest_eq], h.journal⟩
  | delivered record =>
    rw [hcase] at hstage
    rw [step_delivered hcase, step_delivered hstage]
    exact ⟨by rw [h.rest_eq], h.journal⟩
  | idle =>
    rw [hcase] at hstage
    cases hruns : r.stock.running with
    | true =>
      rw [hruns] at hrunning
      rw [step_idle hcase hruns, step_idle hstage hrunning]
      exact h.useTurn henv
    | false =>
      rw [hruns] at hrunning
      rw [step_idle_stopped hcase hruns, step_idle_stopped hstage hrunning]
      exact ⟨by rw [h.rest_eq], h.journal⟩
  | stopping =>
    rw [hcase] at hstage
    cases hmessages : r.queue with
    | nil =>
      rw [hmessages] at hqueue
      rw [r.step_finishes env hcase hmessages, r'.step_finishes env' hstage hqueue]
      exact h.finish henv
    | cons record rest =>
      rw [hmessages] at hqueue
      rw [step_stopping_cons hcase hmessages, step_stopping_cons hstage hqueue]
      exact ⟨by rw [h.rest_eq], h.journal⟩
  | ended lost =>
    rw [hcase] at hstage
    rw [step_ended hcase, step_ended hstage]
    exact h

theorem Twin.steps (h : r.Twin appender r') (fuel : Nat) :
    (steps env false fuel r).Twin appender (steps env' false fuel r') := by
  induction fuel generalizing r r' with
  | zero => exact h
  | succ fuel ih =>
    have hresting : r'.isResting = r.isResting := by rw [h.rest_eq]; rfl
    rw [steps_succ, steps_succ, hresting]
    split
    · exact h
    · exact ih (h.step henv)

omit henv in
theorem Twin.join (h : r.Twin appender r') : r.join.Twin appender r'.join := by
  have hjoined : r'.joined = r.joined := by rw [h.rest_eq]
  rw [Background.join, Background.join, h.stage_eq, hjoined]
  split
  · split
    · exact h
    · exact ⟨by rw [h.rest_eq], h.journal.add (.same .workerLost)⟩
  · exact ⟨by rw [h.rest_eq], h.journal⟩
  · exact h

theorem Twin.shutdown (h : r.Twin appender r') :
    (r.shutdown env).Twin appender (r'.shutdown env') := by
  have hstop : r.stop.Twin appender r'.stop := ⟨by rw [h.rest_eq]; rfl, h.journal⟩
  have hfuel : r'.stop.stepsToRest = r.stop.stepsToRest := by rw [h.rest_eq]; rfl
  rw [Background.shutdown, Background.shutdown, settle, settle, hfuel]
  exact (hstop.steps henv _).join

end Background

/-! ## Runners -/

structure Immediate.Twin (appender : Nat) (r r' : Immediate) : Prop where
  rest_eq : r' = { r with journal := r'.journal }
  journal : r.journal.Twin appender r'.journal

inductive Runner.Twin (appender : Nat) : Runner → Runner → Prop where
  | immediate {r r' : Immediate} (h : r.Twin appender r') :
      Twin appender (.immediate r) (.immediate r')
  | background {r r' : Background} (h : r.Twin appender r') :
      Twin appender (.background r) (.background r')

inductive Started.Twin (appender : Nat) : Started Runner → Started Runner → Prop where
  | running {runner runner' : Runner} (h : runner.Twin appender runner') :
      Twin appender (.running runner) (.running runner')
  | refused (error : ConfigError) : Twin appender (.refused error) (.refused error)
  | aborted {j j' : Journal} (h : j.Twin appender j') (reason : String) :
      Twin appender (.aborted j reason) (.aborted j' reason)

namespace Immediate

def tryWrite (r : Immediate) (env : Environment) (thread : String) (record : Record) :
    Immediate × Option String :=
  match r.outlet with
  | none => (r, none)
  | some outlet =>
    let delivered := outlet.deliver env r.journal record
    match delivered.aborted with
    | some reason =>
      ({ r with outlet := some delivered.outlet, journal := delivered.journal }, some reason)
    | none =>
      let flushed := delivered.outlet.flush env thread r.stock.dropped delivered.journal
      (⟨r.stock.takeDropped.2, some flushed.outlet, flushed.journal⟩, flushed.aborted)

/-- A record is given back only if its delivery did not break off. -/
theorem submit_eq (r : Immediate) (env : Environment) (thread : String) (record : Record) :
    r.submit env thread record =
      match r.tryWrite env thread record with
      | (r, none) => (r.giveBack record, none)
      | (r, some reason) => (r, some reason) := by
  obtain ⟨stock, outlet, journal⟩ := r
  cases outlet with
  | none => rfl
  | some outlet =>
    simp only [submit, tryWrite]
    cases (outlet.deliver env journal record).aborted with
    | some reason => rfl
    | none =>
      simp only [Stock.takeDropped]
      rcases Option.eq_none_or_eq_some ((outlet.deliver env journal record).outlet.flush env thread
        stock.dropped (outlet.deliver env journal record).journal).aborted with
        hflush | ⟨reason, hflush⟩
      · simp [hflush, giveBack]
      · simp [hflush]

variable (henv : env.Twin appender env') {r r' : Immediate}

theorem Twin.giveBack (h : r.Twin appender r') (record : Record) :
    (r.giveBack record).Twin appender (r'.giveBack record) :=
  ⟨by rw [h.rest_eq]; rfl, h.journal⟩

include henv

theorem Twin.tryWrite (h : r.Twin appender r') (thread : String) (record : Record) :
    (r.tryWrite env thread record).1.Twin appender (r'.tryWrite env' thread record).1 ∧
      (r'.tryWrite env' thread record).2 = (r.tryWrite env thread record).2 := by
  obtain ⟨stock, outlet, journal⟩ := r
  obtain ⟨hrest, hjournal⟩ := h
  rw [hrest]
  cases outlet with
  | none => exact ⟨⟨rfl, hjournal⟩, rfl⟩
  | some outlet =>
    have hdeliver := outlet.deliver_twin henv hjournal record
    simp only [Immediate.tryWrite, hdeliver.aborted_eq, hdeliver.outlet_eq]
    cases (outlet.deliver env journal record).aborted with
    | some reason => exact ⟨⟨rfl, hdeliver.journal⟩, rfl⟩
    | none =>
      have hflush := (outlet.deliver env journal record).outlet.flush_twin henv hdeliver.journal
        thread stock.dropped
      exact ⟨⟨by simp only [hflush.outlet_eq], hflush.journal⟩, hflush.aborted_eq⟩

theorem Twin.submit (h : r.Twin appender r') (thread : String) (record : Record) :
    (r.submit env thread record).1.Twin appender (r'.submit env' thread record).1 ∧
      (r'.submit env' thread record).2 = (r.submit env thread record).2 := by
  obtain ⟨hwritten, haborted⟩ := h.tryWrite henv thread record
  rw [submit_eq, submit_eq]
  generalize r.tryWrite env thread record = written, r'.tryWrite env' thread record = written'
    at hwritten haborted
  obtain ⟨written, aborted⟩ := written
  obtain ⟨written', aborted'⟩ := written'
  obtain rfl : aborted' = aborted := haborted
  cases aborted' with
  | none => exact ⟨Twin.giveBack hwritten record, rfl⟩
  | some reason => exact ⟨hwritten, rfl⟩

theorem Twin.update (h : r.Twin appender r') (c : Config) :
    (r.update env c).1.Twin appender (r'.update env' c).1 ∧
      (r'.update env' c).2 = (r.update env c).2 := by
  have hsame := h
  obtain ⟨stock, outlet, journal⟩ := r
  obtain ⟨hrest, hjournal⟩ := h
  rw [hrest] at hsame ⊢
  rw [Immediate.update, Immediate.update]
  cases c.arrange with
  | error error => exact ⟨hsame, rfl⟩
  | ok a =>
    cases outlet with
    | none => exact ⟨hsame, rfl⟩
    | some outlet =>
      have hchange := outlet.change_twin henv hjournal a
      simp only [hchange.outlet_eq, hchange.aborted_eq]
      exact ⟨⟨rfl, hchange.journal⟩, trivial⟩

theorem Twin.shutdown (h : r.Twin appender r') (thread : String) :
    (r.shutdown env thread).1.Twin appender (r'.shutdown env' thread).1 ∧
      (r'.shutdown env' thread).2 = (r.shutdown env thread).2 := by
  obtain ⟨stock, outlet, journal⟩ := r
  obtain ⟨hrest, hjournal⟩ := h
  rw [hrest]
  cases outlet with
  | none => exact ⟨⟨rfl, hjournal⟩, rfl⟩
  | some outlet =>
    have hclose := outlet.close_twin henv hjournal thread stock.dropped
    simp only [Immediate.shutdown, Stock.takeDropped, Stock.stop, hclose.aborted_eq]
    exact ⟨⟨rfl, hclose.journal⟩, trivial⟩

end Immediate

namespace Runner

variable {runner runner' : Runner}

theorem Twin.stock_eq (h : runner.Twin appender runner') : runner'.stock = runner.stock := by
  cases h with
  | @immediate r r' h =>
    change r'.stock = r.stock
    rw [h.rest_eq]
  | background h => exact h.stock_eq

theorem Twin.journal (h : runner.Twin appender runner') :
    runner.journal.Twin appender runner'.journal := by
  cases h with
  | immediate h => exact h.journal
  | background h => exact h.journal

theorem Twin.withStock (h : runner.Twin appender runner') (stock : Stock) :
    (runner.withStock stock).Twin appender (runner'.withStock stock) := by
  cases h with
  | immediate h => exact .immediate ⟨by rw [h.rest_eq], h.journal⟩
  | background h => exact .background ⟨by rw [h.rest_eq], h.journal⟩

theorem Twin.settleRecord (h : runner.Twin appender runner') (record : Record) :
    (runner.settleRecord record).Twin appender (runner'.settleRecord record) := by
  cases h with
  | immediate h => exact .immediate (h.giveBack record)
  | background h => exact .background ⟨by rw [h.rest_eq]; rfl, h.journal⟩

variable (henv : env.Twin appender env')
include henv

theorem Twin.submit (h : runner.Twin appender runner') (thread : String) (record : Record) :
    (runner.submit env thread record).1.Twin appender (runner'.submit env' thread record).1 ∧
      (runner'.submit env' thread record).2 = (runner.submit env thread record).2 := by
  cases h with
  | immediate h =>
    obtain ⟨hsubmit, haborted⟩ := h.submit henv thread record
    exact ⟨.immediate hsubmit, haborted⟩
  | @background r r' h =>
    refine ⟨.background ?_, rfl⟩
    rw [Background.submit, Background.submit, h.stock_eq]
    split
    · exact ⟨by rw [h.rest_eq], h.journal⟩
    · exact h

theorem Twin.update (h : runner.Twin appender runner') (c : Config) :
    (runner.update env c).1.Twin appender (runner'.update env' c).1 ∧
      (runner'.update env' c).2 = (runner.update env c).2 := by
  cases h with
  | immediate h =>
    obtain ⟨hupdate, houtcome⟩ := h.update henv c
    exact ⟨.immediate hupdate, houtcome⟩
  | @background r r' h =>
    have haccepting : r'.accepting = r.accepting := by rw [h.rest_eq]
    simp only [Runner.update, Background.update, haccepting]
    cases c.arrange with
    | error error => exact ⟨.background h, rfl⟩
    | ok a =>
      dsimp only
      split
      · refine ⟨.background ⟨?_, h.journal⟩, rfl⟩
        change ({ r' with published := some a, accepting := r.accepting } : Background) =
          { r with published := some a, journal := r'.journal }
        rw [h.rest_eq]
      · exact ⟨.background h, rfl⟩

theorem Twin.signal (h : runner.Twin appender runner') (thread : String) :
    (runner.signal env thread).Twin appender (runner'.signal env' thread) := by
  cases h with
  | immediate h => exact .immediate (h.shutdown henv thread).1
  | background h => exact .background ⟨by rw [h.rest_eq]; rfl, h.journal⟩

theorem Twin.shutdown (h : runner.Twin appender runner') (thread : String) :
    (runner.shutdown env thread).1.Twin appender (runner'.shutdown env' thread).1 ∧
      (runner'.shutdown env' thread).2 = (runner.shutdown env thread).2 := by
  cases h with
  | immediate h =>
    obtain ⟨hshutdown, haborted⟩ := h.shutdown henv thread
    exact ⟨.immediate hshutdown, haborted⟩
  | background h => exact ⟨.background (h.shutdown henv), rfl⟩

theorem start_twin (c : Config) :
    (start env c).Twin appender (start env' c) := by
  have hstart (o : Outlet) : (o.start env {}).Twin appender (o.start env' {}) :=
    o.perform_twin henv (.refl {}) _
  rw [start, start]
  cases c.strategy with
  | immediate =>
    simp only [Immediate.start]
    cases c.arrange with
    | error error => exact .refused error
    | ok a =>
      have hwork := hstart (Outlet.create a)
      simp only [hwork.aborted_eq, hwork.outlet_eq]
      cases ((Outlet.create a).start env {}).aborted with
      | none => exact .running (.immediate ⟨rfl, hwork.journal⟩)
      | some reason => exact .aborted hwork.journal reason
  | background =>
    simp only [Background.start]
    cases c.arrange with
    | error error => exact .refused error
    | ok a =>
      have hwork := hstart (Outlet.create a)
      simp only [hwork.aborted_eq, hwork.outlet_eq]
      cases ((Outlet.create a).start env {}).aborted with
      | none => exact .running (.background ⟨rfl, hwork.journal⟩)
      | some reason => exact .aborted hwork.journal reason

end Runner

/-! ## Runs -/

namespace Traffic

/-- A turn, whatever the appenders answer: a record whose delivery breaks off is lost. -/
def turn (env : Environment) (t : Traffic) : Act → Traffic
  | .submit place thread =>
    match t.held[place]?, t.runner with
    | some record, .immediate r =>
      match r.tryWrite env thread record with
      | (r, none) => ⟨.immediate r, t.held.eraseIdx place, record :: t.leaving⟩
      | (r, some _) => ⟨.immediate r, t.held.eraseIdx place, t.leaving⟩
    | _, _ => t.perform env (.submit place thread)
  | act => t.perform env act

def turns (env : Environment) (t : Traffic) (acts : List Act) : Traffic := acts.foldl (turn env) t

structure Twin (appender : Nat) (t t' : Traffic) : Prop where
  runner : t.runner.Twin appender t'.runner
  held_eq : t'.held = t.held
  leaving_eq : t'.leaving = t.leaving

variable (henv : env.Twin appender env') {t t' : Traffic}
include henv

theorem Twin.turn (h : t.Twin appender t') (act : Act) :
    (t.turn env act).Twin appender (t'.turn env' act) := by
  obtain ⟨runner, held, leaving⟩ := t
  obtain ⟨runner', held', leaving'⟩ := t'
  obtain ⟨hrunner, rfl, rfl⟩ := h
  replace hrunner : runner.Twin appender runner' := hrunner
  have hstock := hrunner.stock_eq
  cases act with
  | acquire =>
    simp only [Traffic.turn, perform, hstock]
    cases runner.stock.tryAcquire with
    | none => exact ⟨hrunner, rfl, rfl⟩
    | some lent => exact ⟨hrunner.withStock _, rfl, rfl⟩
  | allocate =>
    simp only [Traffic.turn, perform, hstock]
    exact ⟨hrunner.withStock _, rfl, rfl⟩
  | bring record => exact ⟨hrunner, rfl, rfl⟩
  | fill place ops => exact ⟨hrunner, rfl, rfl⟩
  | submit place thread =>
    cases hplace : held'[place]? with
    | none =>
      simp only [Traffic.turn, perform, hplace]
      exact ⟨hrunner, rfl, rfl⟩
    | some record =>
      cases hrunner with
      | @immediate r r' h =>
        obtain ⟨hwritten, haborted⟩ := h.tryWrite henv thread record
        simp only [Traffic.turn, hplace]
        generalize r.tryWrite env thread record = written, r'.tryWrite env' thread record = written'
          at hwritten haborted
        obtain ⟨written, aborted⟩ := written
        obtain ⟨written', aborted'⟩ := written'
        obtain rfl : aborted' = aborted := haborted
        cases aborted' with
        | none => exact ⟨.immediate hwritten, rfl, rfl⟩
        | some reason => exact ⟨.immediate hwritten, rfl, rfl⟩
      | @background r r' h =>
        simp only [Traffic.turn, perform, hplace, Runner.enter, h.stock_eq]
        cases r.stock.running with
        | true => exact ⟨.background h, rfl, rfl⟩
        | false => exact ⟨.background h, rfl, rfl⟩
  | settle place =>
    simp only [Traffic.turn, perform]
    cases leaving'[place]? with
    | none => exact ⟨hrunner, rfl, rfl⟩
    | some record => exact ⟨hrunner.settleRecord record, rfl, rfl⟩
  | noteDropped =>
    simp only [Traffic.turn, perform, hstock]
    exact ⟨hrunner.withStock _, rfl, rfl⟩
  | update c => exact ⟨(hrunner.update henv c).1, rfl, rfl⟩
  | stop thread => exact ⟨hrunner.signal henv thread, rfl, rfl⟩
  | work =>
    cases hrunner with
    | immediate h => exact ⟨.immediate h, rfl, rfl⟩
    | background h => exact ⟨.background (h.step henv), rfl, rfl⟩

theorem Twin.turns (h : t.Twin appender t') (acts : List Act) :
    (t.turns env acts).Twin appender (t'.turns env' acts) := by
  induction acts generalizing t t' with
  | nil => exact h
  | cons act acts ih => exact ih (h.turn henv act)

end Traffic

/-- It does not matter to anyone else whether an appender fails. Take two programs that differ only
in what one appender answers, and in neither it breaks off. Their runners start alike, and after the
same turns of producers, updates, worker and whoever stops them, producers hold the same records,
pool, counter and policy are the same, and the journals have the same calls in the same order, with
the same answers of all others. The failing appender gets the same calls, too. Whatever a runner is
asked next, it answers the same, and leaves the same behind. -/
theorem failures_isolated (henv : env.Twin appender env') (c : Config) :
    (Runner.start env c).Twin appender (Runner.start env' c) ∧
    ∀ runner runner', Runner.start env c = .running runner →
      Runner.start env' c = .running runner' → ∀ acts : List Act,
        let t := Traffic.turns env { runner } acts
        let t' := Traffic.turns env' { runner := runner' } acts
        t'.held = t.held ∧ t'.leaving = t.leaving ∧ t'.runner.stock = t.runner.stock ∧
        t.runner.journal.Twin appender t'.runner.journal ∧
        (∀ other, t'.runner.journal.callsTo other = t.runner.journal.callsTo other) ∧
        t'.runner.isRunning = t.runner.isRunning ∧
        t'.runner.stock.tryAcquire = t.runner.stock.tryAcquire ∧
        (∀ next, (t'.runner.update env' next).2 = (t.runner.update env next).2) ∧
        (∀ thread record,
          (t'.runner.submit env' thread record).2 = (t.runner.submit env thread record).2) ∧
        ∀ thread,
          let ended := t.runner.shutdown env thread
          let ended' := t'.runner.shutdown env' thread
          ended'.2 = ended.2 ∧ ended'.1.stock = ended.1.stock ∧
            ∀ other, ended'.1.journal.callsTo other = ended.1.journal.callsTo other := by
  refine ⟨Runner.start_twin henv c, fun runner runner' hstart hstart' acts => ?_⟩
  intro t t'
  have hbegun := Runner.start_twin henv c
  rw [hstart, hstart'] at hbegun
  have hfirst : Traffic.Twin appender { runner } { runner := runner' } := by
    cases hbegun with
    | running hrunner => exact ⟨hrunner, rfl, rfl⟩
  obtain ⟨htwin, hheld, hleaving⟩ := hfirst.turns henv acts
  refine ⟨hheld, hleaving, htwin.stock_eq, htwin.journal, htwin.journal.callsTo_eq,
    congrArg Stock.running htwin.stock_eq, congrArg Stock.tryAcquire htwin.stock_eq,
    fun next => (htwin.update henv next).2, fun thread record =>
      (htwin.submit henv thread record).2, fun thread => ?_⟩
  obtain ⟨hended, haborted⟩ := htwin.shutdown henv thread
  exact ⟨haborted, hended.stock_eq, hended.journal.callsTo_eq⟩

def Environment.answering (reply : Reply) : Environment where
  appenders appender _ _ := if appender = 0 then reply else .ok

theorem failures_isolated_full :
    let c : Config := { strategy := .immediate, poolSize := 1, heading := "",
                        appenders := [⟨"full", .trace, 0⟩, ⟨"kept", .trace, 1⟩] }
    let acts : List Act := [.acquire, .submit 0 "main", .settle 0, .stop "main"]
    Environment.Twin 0 (.answering .ok) (.answering (.failed "full")) ∧
    ∃ runner runner', Runner.start (.answering .ok) c = .running runner ∧
      Runner.start (.answering (.failed "full")) c = .running runner' ∧
      let t := Traffic.turns (.answering .ok) { runner } acts
      let t' := Traffic.turns (.answering (.failed "full")) { runner := runner' } acts
      t'.runner.journal.callsTo 1 = t.runner.journal.callsTo 1 ∧
        (t.runner.journal.callsTo 1).length = 5 := by
  intro c acts
  have htwin : Environment.Twin 0 (.answering .ok) (.answering (.failed "full")) := {
    registry_eq := rfl
    now_eq := rfl
    others_eq := fun other hother => by
      funext earlier call
      exact (if_neg hother).trans (if_neg hother).symm
    unbroken := fun _ _ _ hreply => by cases hreply
    unbroken' := fun _ _ _ hreply => by cases hreply }
  obtain ⟨runner, hstart⟩ : ∃ runner, Runner.start (.answering .ok) c = .running runner := ⟨_, rfl⟩
  obtain ⟨runner', hstart'⟩ :
      ∃ runner', Runner.start (.answering (.failed "full")) c = .running runner' := ⟨_, rfl⟩
  obtain ⟨-, hruns⟩ := failures_isolated htwin c
  obtain ⟨-, -, -, -, hcalls, -⟩ := hruns runner runner' hstart hstart' acts
  refine ⟨htwin, runner, runner', hstart, hstart', hcalls 1, ?_⟩
  cases hstart
  decide +kernel

end Logbook
