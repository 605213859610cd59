import Logbook.Proofs.Delivery.Discipline
import Logbook.Proofs.Delivery.Notice
import Mathlib.Data.List.Forall2
set_option autoImplicit false

/-!
# What becomes of the count of dropped events

The count is taken whenever the appenders are flushed or closed, and each time a notice says how
many events were dropped. So the counts in the notices and the count that is pending add up to the
events that were dropped. An appender that listens at the level of notices gets each of them whole,
and is flushed before it hears anything else.
-/
namespace Logbook

open Text

variable {env : Environment} {c : Config} {appender : Nat}

/-! ## What an appender hears of a job -/

/-- What an appender hears. A notice comes with the flush after it. -/
inductive News where
  | written (line : Line)
  | notice (count : Nat) (line : Line)
  | flush
  | dispose

namespace News

def calls : News → List Call
  | .written line => [.write line]
  | .notice _ line => [.write line, .flush]
  | .flush => [.flush]
  | .dispose => [.dispose]

def count : News → Nat
  | .notice count _ => count
  | _ => 0

end News

structure Notifies (count : Nat) (line : Line) : Prop where
  count_ne_zero : count ≠ 0
  level_eq : line.level = .warn
  text_eq : ∃ heading, line.text = heading ++ Outlet.noticeText count

inductive Flushes : Nat → News → Prop where
  | plain : Flushes 0 .flush
  | reporting {count : Nat} {line : Line} (h : Notifies count line) :
      Flushes count (.notice count line)

inductive Job.Tells (env : Environment) : Job → List News → Prop where
  | silent (record : Record) : Tells env (.deliver record) []
  | deliver (record : Record) (formatter : Line.Formatter) :
      Tells env (.deliver record) [.written (formatter.format env.registry record).1]
  | flush {count : Nat} {news : News} (h : Flushes count news) : Tells env (.flush count) [news]
  | change (a : Arrangement) : Tells env (.change a) []
  | close {count : Nat} {news : News} (h : Flushes count news) :
      Tells env (.close count) [news, .dispose]

def Job.reported : Job → Nat
  | .flush count => count
  | .close count => count
  | _ => 0

theorem Flushes.count_eq {count : Nat} {news : News} (h : Flushes count news) :
    news.count = count := by
  cases h <;> rfl

theorem Job.Tells.count_eq {job : Job} {news : List News} (h : job.Tells env news) :
    (news.map News.count).sum = job.reported := by
  cases h with
  | silent record => rfl
  | deliver record formatter => rfl
  | flush hflush => simp [reported, hflush.count_eq]
  | change a => rfl
  | close hflush =>
    rw [List.map_cons, List.map_cons, List.map_nil, hflush.count_eq]
    rfl

/-! ## Outlets that announce -/

/-- The appender is listed once and listens at the level of notices, and the line of a notice fits
the buffer on each of the threads, whenever it is written and for each count up to the given one. -/
structure Outlet.Announces (env : Environment) (appender : Nat) (threads : List String)
    (most : Nat) (o : Outlet) : Prop where
  listed_once : listed appender o.handles = 1
  hears : ∀ handle ∈ o.handles, handle.appender = appender → handle.minLevel ≤ .warn
  capacity_eq : o.formatter.capacity = Line.defaultCapacity
  fits : ∀ thread ∈ threads, ∀ (reading : Nat), ∀ count ≤ most, count ≠ 0 →
    utf8.measure
        (o.formatter.heading.text (notice (env.now reading) thread count) ++ noticeText count) ≤
      Line.defaultCapacity

theorem listed_filter_le (appender : Nat) (p : Handle → Bool) (handles : List Handle) :
    listed appender (handles.filter p) ≤ listed appender handles :=
  List.filter_sublist.countP_le

theorem listed_filter_of_forall {p : Handle → Bool} {handles : List Handle}
    (h : ∀ handle ∈ handles, handle.appender = appender → p handle = true) :
    listed appender (handles.filter p) = listed appender handles := by
  rw [listed, listed, List.countP_filter]
  refine List.countP_congr fun handle hmem => ?_
  simp only [Bool.and_eq_true, decide_eq_true_eq, and_iff_left_iff_imp]
  exact h handle hmem

namespace Outlet.Announces

variable {threads : List String} {most count : Nat} {thread : String} {o : Outlet}

/-- Of an outlet only the heading, the room for a line and the handles matter. -/
theorem congr (h : o.Announces env appender threads most) {o' : Outlet}
    (hheading : o'.formatter.heading = o.formatter.heading)
    (hcapacity : o'.formatter.capacity = o.formatter.capacity) (hhandles : o'.handles = o.handles) :
    o'.Announces env appender threads most where
  listed_once := hhandles ▸ h.listed_once
  hears := hhandles ▸ h.hears
  capacity_eq := hcapacity.trans h.capacity_eq
  fits := by
    rw [hheading]
    exact h.fits

theorem deliver (h : o.Announces env appender threads most) (j : Journal) (record : Record) :
    (o.deliver env j record).outlet.Announces env appender threads most := by
  rw [Outlet.deliver]
  split
  · exact h
  · obtain ⟨fields, hfields⟩ : ∃ fields,
        (o.formatter.format env.registry record).2 = { o.formatter with fields } := ⟨_, rfl⟩
    generalize o.formatter.format env.registry record = formatted at hfields
    obtain ⟨line, formatter⟩ := formatted
    obtain rfl : formatter = { o.formatter with fields } := hfields
    exact h.congr rfl rfl rfl

theorem flush (h : o.Announces env appender threads most) (j : Journal) (thread : String)
    (count : Nat) : (o.flush env thread count j).outlet.Announces env appender threads most := by
  have hnotify : (o.notify env thread count j).outlet.Announces env appender threads most := by
    rw [notify]
    split
    · exact h
    · exact h.deliver j _
  rw [Outlet.flush, Worked.andThen]
  split
  · exact hnotify
  · exact hnotify

theorem change (hcalm : env.Calm) (h : o.Announces env appender threads most) (j : Journal)
    {a : Arrangement} (ha : (Outlet.create a).Announces env appender threads most) :
    (o.change env a j).outlet.Announces env appender threads most := by
  rw [Outlet.change, Worked.andThen, perform_calm hcalm]
  exact ha.congr rfl h.capacity_eq rfl

theorem tells_deliver (h : o.Announces env appender threads most) (record : Record) :
    ∃ news, (Job.deliver record).Tells env news ∧
      callsOf appender (o.lineRequests env record) = news.flatMap News.calls := by
  have hle := listed_filter_le appender (fun handle => handle.minLevel ≤
    (o.formatter.format env.registry record).1.level) o.handles
  rw [h.listed_once] at hle
  rw [lineRequests, lineCalls, callsOf_callAll]
  rcases Nat.le_one_iff_eq_zero_or_eq_one.mp hle with hzero | hone
  · exact ⟨[], .silent record, by rw [hzero]; rfl⟩
  · exact ⟨_, .deliver record o.formatter, by rw [hone]; rfl⟩

theorem flushes (h : o.Announces env appender threads most) (j : Journal) (hmost : most < 2 ^ 64)
    (hthread : thread ∈ threads) (hcount : count ≤ most) :
    ∃ news, Flushes count news ∧
      callsOf appender (o.flushRequests env j thread count) = news.calls := by
  rw [flushRequests, callsOf_append, callsOf_callAll, h.listed_once, noticeRequests]
  by_cases hzero : count = 0
  · rw [if_pos hzero, hzero]
    exact ⟨.flush, .plain, rfl⟩
  · have hfits := h.fits thread hthread j.events.size count hcount hzero
    rw [← h.capacity_eq] at hfits
    obtain ⟨htext, hlevel⟩ := format_notice (Nat.lt_of_le_of_lt hcount hmost) o.formatter
      env.registry (env.now j.events.size) thread hfits
    have hall : listed appender (o.handles.filter fun handle => handle.minLevel ≤
        (o.formatter.format env.registry
          (notice (env.now j.events.size) thread count)).1.level) = 1 := by
      rw [listed_filter_of_forall, h.listed_once]
      intro handle hmem hsame
      rw [hlevel]
      exact decide_eq_true (h.hears handle hmem hsame)
    rw [if_neg hzero, lineRequests, lineCalls, callsOf_callAll, hall]
    exact ⟨.notice count _, .reporting ⟨hzero, hlevel, _, htext⟩, rfl⟩

theorem tells_flush (h : o.Announces env appender threads most) (j : Journal) (hmost : most < 2 ^ 64)
    (hthread : thread ∈ threads) (hcount : count ≤ most) :
    ∃ news, (Job.flush count).Tells env news ∧
      callsOf appender (o.flushRequests env j thread count) = news.flatMap News.calls := by
  obtain ⟨news, hflush, hcalls⟩ := h.flushes j hmost hthread hcount
  exact ⟨[news], .flush hflush, by rw [hcalls, List.flatMap_singleton]⟩

theorem tells_close (h : o.Announces env appender threads most) (j : Journal) (hmost : most < 2 ^ 64)
    (hthread : thread ∈ threads) (hcount : count ≤ most) :
    ∃ news, (Job.close count).Tells env news ∧
      callsOf appender (o.closeRequests env j thread count) = news.flatMap News.calls := by
  obtain ⟨news, hflush, hcalls⟩ := h.flushes j hmost hthread hcount
  refine ⟨[news, .dispose], .close hflush, ?_⟩
  rw [closeRequests, callsOf_append, callsOf_callAll, h.listed_once, hcalls]
  rfl

theorem tells_change (h : o.Announces env appender threads most) {a : Arrangement}
    (ha : (Outlet.create a).Announces env appender threads most) :
    ∃ news, (Job.change a).Tells env news ∧
      callsOf appender (changeCalls o.handles a.handles) = news.flatMap News.calls := by
  have hnew : listed appender a.handles = 1 := ha.listed_once
  refine ⟨[], .change a, ?_⟩
  rw [callsOf_changeCalls, h.listed_once, hnew]
  rfl

end Outlet.Announces

/-! ## The jobs of a run -/

def Act.isDrop : Act → Bool
  | .noteDropped => true
  | _ => false

def Act.thread? : Act → Option String
  | .submit _ thread => some thread
  | .stop thread => some thread
  | _ => none

namespace Traffic

def jobs (t : Traffic) (act : Act) : List Job :=
  match t.runner, act with
  | .immediate r, .submit place _ =>
    match t.held[place]?, r.outlet with
    | some record, some _ => [.deliver record, .flush r.stock.dropped]
    | _, _ => []
  | .immediate r, .update c =>
    match c.arrange, r.outlet with
    | .ok a, some _ => [.change a]
    | _, _ => []
  | .immediate r, .stop _ =>
    match r.outlet with
    | some _ => [.close r.stock.dropped]
    | none => []
  | .background r, .work => r.job?.toList
  | _, _ => []

def errands (env : Environment) (t : Traffic) : List Act → List Job
  | [] => []
  | act :: acts => t.jobs act ++ (t.perform env act).errands env acts

end Traffic

inductive Immediate.Turns (env : Environment) (r : Immediate) (act : Act) :
    Immediate → List Job → Prop where
  | aside {s : Immediate} (outlet_eq : s.outlet = r.outlet) (journal_eq : s.journal = r.journal)
      (dropped_eq : s.stock.dropped = r.stock.dropped + if act.isDrop then 1 else 0) :
      Turns env r act s []
  | submits {o : Outlet} {place : Nat} {thread : String} (act_eq : act = .submit place thread)
      (outlet_eq : r.outlet = some o) (record : Record) :
      Turns env r act (r.write env thread record) [.deliver record, .flush r.stock.dropped]
  | updates {o : Outlet} {c : Config} {a : Arrangement} (act_eq : act = .update c)
      (outlet_eq : r.outlet = some o) (arrange_eq : c.arrange = .ok a) :
      Turns env r act (r.update env c).1 [.change a]
  | stops {o : Outlet} {thread : String} (act_eq : act = .stop thread)
      (outlet_eq : r.outlet = some o) :
      Turns env r act (r.shutdown env thread).1 [.close r.stock.dropped]

namespace Traffic

variable {t : Traffic}

theorem perform_turns (env : Environment) {r : Immediate} (hrunner : t.runner = .immediate r)
    (act : Act) :
    ∃ s, (t.perform env act).runner = .immediate s ∧ r.Turns env act s (t.jobs act) := by
  obtain ⟨_, held, leaving⟩ := t
  cases hrunner
  cases act with
  | acquire =>
    rw [perform]
    split
    · exact ⟨r, rfl, .aside rfl rfl rfl⟩
    · rename_i record stock hlent
      exact ⟨_, rfl, .aside rfl rfl (r.stock.tryAcquire_keeps hlent).2.2.2⟩
  | submit place thread =>
    rw [perform]
    cases hheld : held[place]? with
    | none =>
      refine ⟨r, rfl, ?_⟩
      simp only [jobs, hheld]
      exact .aside rfl rfl rfl
    | some record =>
      cases houtlet : r.outlet with
      | none =>
        simp only [jobs, hheld, houtlet, Runner.enter, Immediate.write]
        exact ⟨r, rfl, .aside rfl rfl rfl⟩
      | some o =>
        simp only [jobs, hheld, houtlet]
        exact ⟨r.write env thread record, rfl, .submits rfl houtlet record⟩
  | settle place =>
    rw [perform]
    split
    · exact ⟨r, rfl, .aside rfl rfl rfl⟩
    · exact ⟨_, rfl, .aside rfl rfl rfl⟩
  | update c =>
    refine ⟨(r.update env c).1, rfl, ?_⟩
    cases harrange : c.arrange with
    | error error =>
      simp only [jobs, harrange, Immediate.update]
      exact .aside rfl rfl rfl
    | ok a =>
      cases houtlet : r.outlet with
      | none =>
        simp only [jobs, harrange, houtlet, Immediate.update]
        exact .aside rfl rfl rfl
      | some o =>
        simp only [jobs, harrange, houtlet]
        exact .updates rfl houtlet harrange
  | stop thread =>
    refine ⟨(r.shutdown env thread).1, rfl, ?_⟩
    cases houtlet : r.outlet with
    | none =>
      simp only [jobs, houtlet, Immediate.shutdown]
      exact .aside houtlet.symm rfl rfl
    | some o =>
      simp only [jobs, houtlet]
      exact .stops rfl houtlet
  | _ => exact ⟨_, rfl, .aside rfl rfl rfl⟩

theorem jobs_background {r : Background} (hrunner : t.runner = .background r) {act : Act}
    (hact : act ≠ .work) : t.jobs act = [] := by
  obtain ⟨_, held, leaving⟩ := t
  cases hrunner
  cases act with
  | work => exact absurd rfl hact
  | _ => rfl

theorem dropped_perform (env : Environment) {r : Background} (hrunner : t.runner = .background r)
    {act : Act} (hact : act ≠ .work) :
    (t.perform env act).runner.stock.dropped =
      r.stock.dropped + if act.isDrop then 1 else 0 := by
  obtain ⟨_, held, leaving⟩ := t
  cases hrunner
  cases act with
  | acquire =>
    rw [perform]
    split
    · rfl
    · rename_i record stock hlent
      exact (r.stock.tryAcquire_keeps hlent).2.2.2
  | submit place thread =>
    rw [perform]
    split
    · rfl
    · simp only [Runner.enter]
      split <;> rename_i hentered <;> rw [← (Prod.mk.inj hentered).1] <;> rfl
  | settle place =>
    rw [perform]
    split <;> rfl
  | update c =>
    obtain ⟨published, hupdate⟩ := r.update_eq c
    change (r.update c).1.stock.dropped = r.stock.dropped
    rw [hupdate]
  | work => exact absurd rfl hact
  | _ => rfl

end Traffic

/-! ### Counts -/

/-- The runner went over to another, and the jobs reported what is no longer pending. -/
def Runner.Accounts (before : Runner) (jobs : List Job) (after : Runner) : Prop :=
  (jobs.map Job.reported).sum + after.stock.dropped = before.stock.dropped

section Counts

variable (hcalm : env.Calm)
include hcalm

theorem Background.useTurn_accounts (r : Background) :
    (Runner.background r).Accounts r.idleJob?.toList (.background (r.useTurn env)) := by
  rw [useTurn, idleJob?]
  generalize r.phase.turn r.published.isSome = turned
  obtain ⟨turn, phase⟩ := turned
  cases turn with
  | flush =>
    let taken : Background := { r with stock := r.stock.takeDropped.2, phase, stage := .ready }
    have hflush : ({ r with phase, stage := .ready } : Background).flush env =
        taken.carryOut env [.flush r.stock.dropped] :=
      taken.resume_calm hcalm (.flush r.stock.dropped) id
    dsimp only
    rw [hflush]
    rfl
  | change =>
    obtain ⟨stock, queue, published, accepting, outlet, before, stage, daemon, joined, journal⟩ := r
    cases published with
    | none => exact Nat.zero_add _
    | some a =>
      let taken : Background :=
        ⟨stock, queue, none, accepting, outlet, phase, .ready, daemon, joined, journal⟩
      have hchange : ({ taken with published := some a } : Background).change env =
          { taken.carryOut env [.change a] with stock.policy := a.policy } :=
        taken.resume_calm hcalm (.change a) fun r => { r with stock.policy := a.policy }
      dsimp only
      rw [hchange]
      exact Nat.zero_add _
  | rest => exact Nat.zero_add _

theorem Background.step_accounts (r : Background) :
    (Runner.background r).Accounts r.job?.toList (.background (r.step env)) := by
  -- a step without a job leaves the count alone
  have hrest {s : Background} (hjob : r.job? = none)
      (hdropped : s.stock.dropped = r.stock.dropped) :
      (Runner.background r).Accounts r.job?.toList (.background s) := by
    rw [hjob]
    exact (Nat.zero_add _).trans hdropped
  cases hstage : r.stage with
  | ready =>
    cases hqueue : r.queue with
    | nil =>
      rw [step_ready_nil hstage hqueue]
      exact hrest (by rw [job?, hstage, hqueue]; rfl) rfl
    | cons record rest =>
      have hjob : r.job? = some (.deliver record) := by rw [job?, hstage, hqueue]; rfl
      rw [step_ready_cons hcalm hstage hqueue, hjob]
      exact Nat.zero_add _
  | delivered record =>
    rw [step_delivered hstage]
    exact hrest (by rw [job?, hstage]) rfl
  | idle =>
    cases hrunning : r.stock.running with
    | true =>
      have hjob : r.job? = r.idleJob? := by rw [job?, hstage]; exact if_pos hrunning
      rw [step_idle hstage hrunning, hjob]
      exact r.useTurn_accounts hcalm
    | false =>
      have hjob : r.job? = none := by
        rw [job?, hstage]
        exact if_neg (by rw [hrunning]; exact Bool.false_ne_true)
      rw [step_idle_stopped hstage hrunning]
      exact hrest hjob rfl
  | stopping =>
    cases hqueue : r.queue with
    | nil =>
      have hjob : r.job? = some (.close r.stock.dropped) := by rw [job?, hstage, hqueue]; rfl
      rw [step_stopping_nil hcalm hstage hqueue, hjob]
      rfl
    | cons record rest =>
      rw [step_stopping_cons hstage hqueue]
      exact hrest (by rw [job?, hstage, hqueue]; rfl) rfl
  | ended lost =>
    rw [step_ended hstage]
    exact hrest (by rw [job?, hstage]) rfl

theorem Immediate.Turns.accounts {r s : Immediate} {act : Act} {jobs : List Job}
    (h : r.Turns env act s jobs) :
    (jobs.map Job.reported).sum + s.stock.dropped =
      r.stock.dropped + if act.isDrop then 1 else 0 := by
  obtain ⟨stock, outlet, journal⟩ := r
  cases h with
  | aside houtlet hjournal hdropped => exact (Nat.zero_add _).trans hdropped
  | submits hact houtlet record =>
    cases houtlet
    rw [hact]
    exact Nat.zero_add _
  | updates hact houtlet harrange =>
    cases houtlet
    rw [hact, update]
    simp only [harrange]
    exact Nat.zero_add _
  | @stops o thread hact houtlet =>
    cases houtlet
    have hclose := o.close_calm hcalm journal thread stock.dropped
    rw [hact, shutdown]
    simp only [Stock.takeDropped, Stock.stop, hclose]
    rfl

theorem Traffic.perform_accounts (t : Traffic) (act : Act) :
    ((t.jobs act).map Job.reported).sum + (t.perform env act).runner.stock.dropped =
      t.runner.stock.dropped + if act.isDrop then 1 else 0 := by
  cases hrunner : t.runner with
  | immediate r =>
    obtain ⟨s, hperform, hturns⟩ := perform_turns env hrunner act
    rw [hperform]
    exact hturns.accounts hcalm
  | background r =>
    by_cases hact : act = .work
    · rw [hact, perform_work env hrunner]
      simp only [jobs, hrunner]
      exact r.step_accounts hcalm
    · rw [jobs_background hrunner hact, dropped_perform env hrunner hact]
      exact Nat.zero_add _

/-- What was dropped was reported or is pending. -/
theorem Traffic.run_accounts (t : Traffic) (acts : List Act) :
    ((t.errands env acts).map Job.reported).sum + (t.run env acts).runner.stock.dropped =
      t.runner.stock.dropped + acts.countP Act.isDrop := by
  induction acts generalizing t with
  | nil => exact Nat.zero_add _
  | cons act acts ih =>
    have hturn := t.perform_accounts hcalm act
    have hrest := ih (t.perform env act)
    rw [errands, List.map_append, List.sum_append, List.countP_cons]
    change _ + ((t.perform env act).run env acts).runner.stock.dropped = _
    omega

end Counts

/-! ### What the appender hears -/

def Config.Announces (env : Environment) (appender : Nat) (threads : List String) (most : Nat)
    (c : Config) : Prop :=
  ∀ a, c.arrange = .ok a → (Outlet.create a).Announces env appender threads most

def Runner.Announces (env : Environment) (appender : Nat) (threads : List String) (most : Nat) :
    Runner → Prop
  | .immediate r => ∀ o, r.outlet = some o → o.Announces env appender threads most
  | .background r => (∀ lost, r.stage ≠ .ended lost) →
      r.outlet.Announces env appender threads most ∧
        ∀ a, r.published = some a → (Outlet.create a).Announces env appender threads most

def Runner.Tells (env : Environment) (appender : Nat) (before : Runner) (jobs : List Job)
    (after : Runner) : Prop :=
  ∃ news, List.Forall₂ (Job.Tells env) jobs news ∧
    after.journal.callsTo appender =
      before.journal.callsTo appender ++ news.flatten.flatMap News.calls

namespace Runner.Tells

variable {before after : Runner}

theorem still (hjournal : after.journal = before.journal) :
    before.Tells env appender [] after :=
  ⟨[], .nil, by rw [hjournal]; exact (List.append_nil _).symm⟩

theorem single {job : Job} {requests : List Request}
    (hmade : after.journal.requests = before.journal.requests ++ requests)
    (htells : ∃ news, job.Tells env news ∧ callsOf appender requests = news.flatMap News.calls) :
    before.Tells env appender [job] after := by
  obtain ⟨news, htells, hcalls⟩ := htells
  refine ⟨[news], .cons htells .nil, ?_⟩
  rw [Journal.callsTo_eq, Journal.callsTo_eq, hmade, callsOf_append, hcalls,
    List.flatten_singleton]

theorem trans {between : Runner} {first rest : List Job}
    (h : before.Tells env appender first between) (h' : between.Tells env appender rest after) :
    before.Tells env appender (first ++ rest) after := by
  obtain ⟨news, htells, hcalls⟩ := h
  obtain ⟨more, hmore, hcalls'⟩ := h'
  refine ⟨news ++ more, List.rel_append htells hmore, ?_⟩
  rw [hcalls', hcalls, List.flatten_append, List.flatMap_append, List.append_assoc]

end Runner.Tells

theorem Background.published_of_job {r : Background} {a : Arrangement}
    (h : r.job? = some (.change a)) : r.published = some a := by
  have hbeat : Beat.worked (.change a) ∈ r.beats := by
    rw [beats, h]
    exact List.mem_singleton.mpr rfl
  exact (Plays.of_mem hbeat).waits a rfl

theorem Background.published_of_step {r : Background}
    (halive : ∀ lost, (r.step env).stage ≠ .ended lost) {a : Arrangement}
    (h : (r.step env).published = some a) : r.published = some a := by
  have hown : ∀ beat ∈ r.beats, beat.published? = none := fun beat hbeat => (Plays.of_mem hbeat).own
  have hwaits : ∀ (beats : List Beat) (before : Option Arrangement),
      (∀ beat ∈ beats, beat.published? = none) → beats.foldl Beat.waiting before = some a →
        before = some a := by
    intro beats
    induction beats with
    | nil => exact fun _ _ h => h
    | cons beat beats ih =>
      intro before hown h
      have hnext := ih _ (fun other hother => hown other (List.mem_cons_of_mem _ hother)) h
      rcases beat.waiting_cases with ⟨a', rfl⟩ | ⟨a', rfl⟩ | ⟨-, hkeeps⟩
      · cases hown _ List.mem_cons_self
      · cases hnext
      · exact (hkeeps before).symm.trans hnext
  rw [(step_of_alive halive).2] at h
  exact hwaits r.beats r.published hown h

theorem Background.ended_of_close {r : Background} {count : Nat}
    (h : r.job? = some (.close count)) : ∃ lost, (r.step env).stage = .ended lost := by
  by_cases hstage : r.stage = .stopping
  · have hqueue : r.queue = [] := by
      rw [job?, hstage] at h
      by_contra hne
      rw [List.isEmpty_eq_false_iff.mpr hne] at h
      cases h
    rw [r.step_finishes env hstage hqueue]
    exact ⟨_, (r.finish_eq env).1⟩
  · exact absurd rfl (r.job?_ne_close hstage h count)

section Hearing

variable (hcalm : env.Calm) {threads : List String} {most : Nat} (hmost : most < 2 ^ 64)
include hcalm hmost

omit hcalm in
theorem Job.tells {o : Outlet} (hopen : o.Announces env appender threads most) (j : Journal)
    {job : Job}
    (hworker : Background.workerThread ∈ threads) (hreported : job.reported ≤ most)
    (hchange : ∀ a, job = .change a → (Outlet.create a).Announces env appender threads most) :
    ∃ news, job.Tells env news ∧
      callsOf appender (job.requests env o j) = news.flatMap News.calls := by
  cases job with
  | deliver record => exact hopen.tells_deliver record
  | flush count => exact hopen.tells_flush j hmost hworker hreported
  | change a => exact hopen.tells_change (hchange a rfl)
  | close count => exact hopen.tells_close j hmost hworker hreported

omit hmost in
theorem Job.announces_work {o : Outlet} (hopen : o.Announces env appender threads most)
    (j : Journal) {job : Job} (hclose : ∀ count, job ≠ .close count)
    (hchange : ∀ a, job = .change a → (Outlet.create a).Announces env appender threads most) :
    (job.work env o j).outlet.Announces env appender threads most := by
  cases job with
  | deliver record => exact hopen.deliver j record
  | flush count => exact hopen.flush j _ count
  | change a => exact hopen.change hcalm j (hchange a rfl)
  | close count => exact absurd rfl (hclose count)

theorem Immediate.Turns.tells {r s : Immediate} {act : Act} {jobs : List Job}
    (h : r.Turns env act s jobs)
    (hannounces : (Runner.immediate r).Announces env appender threads most)
    (hthread : ∀ thread, act.thread? = some thread → thread ∈ threads)
    (hdropped : r.stock.dropped ≤ most)
    (hupdate : ∀ c, act = .update c → (r.update env c).2 = .done →
      c.Announces env appender threads most) :
    (Runner.immediate r).Tells env appender jobs (.immediate s) ∧
      (Runner.immediate s).Announces env appender threads most := by
  obtain ⟨stock, outlet, journal⟩ := r
  cases h with
  | aside houtlet hjournal hdropped =>
    refine ⟨.still hjournal, fun o ho => hannounces o ?_⟩
    rw [← houtlet, ho]
  | @submits o place thread hact houtlet record =>
    cases houtlet
    have hopen : o.Announces env appender threads most := hannounces o rfl
    let delivered := o.deliver env journal record
    have hdelivered : delivered.outlet.Announces env appender threads most :=
      hopen.deliver journal record
    have hfirst := (o.deliver_makes env journal record).made (o.deliver_calm hcalm journal record)
    have hlast := (delivered.outlet.flush_makes env delivered.journal thread stock.dropped).made
      (delivered.outlet.flush_calm hcalm delivered.journal thread stock.dropped)
    let between : Runner := .immediate ⟨stock, some delivered.outlet, delivered.journal⟩
    have hdeliver : (Runner.immediate ⟨stock, some o, journal⟩).Tells env appender
        [.deliver record] between := .single hfirst (hopen.tells_deliver record)
    have hflush : between.Tells env appender [.flush stock.dropped]
        (.immediate (Immediate.write ⟨stock, some o, journal⟩ env thread record)) :=
      .single hlast (hdelivered.tells_flush delivered.journal hmost (hthread thread (by rw [hact]; rfl)) hdropped)
    refine ⟨hdeliver.trans hflush, fun o' ho' => ?_⟩
    cases ho'
    exact hdelivered.flush delivered.journal thread stock.dropped
  | @updates o c a hact houtlet harrange =>
    cases houtlet
    have hchange := o.change_calm hcalm journal a
    have hupdated : Immediate.update ⟨stock, some o, journal⟩ env c =
        (⟨{ stock with policy := a.policy }, some (o.change env a journal).outlet,
          (o.change env a journal).journal⟩, .done) := by
      rw [update]
      simp only [harrange, hchange]
      rfl
    have hopen : o.Announces env appender threads most := hannounces o rfl
    have hnew : (Outlet.create a).Announces env appender threads most :=
      hupdate c hact (by rw [hupdated]) a harrange
    rw [hupdated]
    refine ⟨.single ((o.change_makes env journal a).made hchange) (hopen.tells_change hnew),
      fun o' ho' => ?_⟩
    cases ho'
    exact hopen.change hcalm journal hnew
  | @stops o thread hact houtlet =>
    cases houtlet
    have hopen : o.Announces env appender threads most := hannounces o rfl
    have hmade := (o.close_makes env journal thread stock.dropped).made
      (o.close_calm hcalm journal thread stock.dropped)
    exact ⟨.single hmade (hopen.tells_close journal hmost (hthread thread (by rw [hact]; rfl)) hdropped),
      fun o' ho' => by cases ho'⟩

theorem Background.step_tells {r : Background}
    (hannounces : (Runner.background r).Announces env appender threads most)
    (hworker : workerThread ∈ threads) (hdropped : r.stock.dropped ≤ most) :
    (Runner.background r).Tells env appender r.job?.toList (.background (r.step env)) ∧
      (Runner.background (r.step env)).Announces env appender threads most := by
  by_cases hended : ∃ lost, r.stage = .ended lost
  · obtain ⟨lost, hstage⟩ := hended
    have hjob : r.job? = none := by rw [job?, hstage]
    rw [step_ended hstage, hjob]
    exact ⟨.still rfl, hannounces⟩
  obtain ⟨hopen, hpublished⟩ := hannounces (not_exists.mp hended)
  have hdone := fun job (_ : r.job? = some job) => job.work_calm hcalm r.outlet r.journal
  have hstep := r.step_of_done hdone
  have haccounts := r.step_accounts hcalm
  have hafter (houtlet : (∀ lost, (r.step env).stage ≠ .ended lost) →
      (r.step env).outlet.Announces env appender threads most) :
      (Runner.background (r.step env)).Announces env appender threads most :=
    fun halive => ⟨houtlet halive, fun a ha => hpublished a (published_of_step halive ha)⟩
  cases hjob : r.job? with
  | none =>
    rw [hjob] at hstep
    obtain ⟨houtlet, hjournal⟩ := Prod.mk.inj hstep
    exact ⟨.still hjournal, hafter fun _ => by rw [houtlet]; exact hopen⟩
  | some job =>
    rw [hjob] at hstep haccounts
    obtain ⟨houtlet, hjournal⟩ := Prod.mk.inj hstep
    have hreported : job.reported ≤ most := by
      have hsum : job.reported + 0 + (r.step env).stock.dropped = r.stock.dropped := haccounts
      omega
    have hchange : ∀ a, job = .change a →
        (Outlet.create a).Announces env appender threads most :=
      fun a ha => hpublished a (published_of_job (hjob.trans (congrArg some ha)))
    have hmade := (job.makes env r.outlet r.journal).made (hdone job hjob)
    refine ⟨.single ?_ (Job.tells hmost hopen r.journal hworker hreported hchange), hafter fun halive => ?_⟩
    · rw [Runner.journal, hjournal]
      exact hmade
    · rw [houtlet]
      refine Job.announces_work hcalm hopen r.journal (fun count hclose => ?_) hchange
      obtain ⟨lost, hstage⟩ := ended_of_close (hjob.trans (congrArg some hclose))
      exact halive lost hstage

theorem Traffic.perform_tells {t : Traffic}
    (hannounces : t.runner.Announces env appender threads most) {act : Act}
    (hworker : Background.workerThread ∈ threads)
    (hthread : ∀ thread, act.thread? = some thread → thread ∈ threads)
    (hdropped : t.runner.stock.dropped ≤ most)
    (hupdate : ∀ c, act = .update c → (t.runner.update env c).2 = .done →
      c.Announces env appender threads most) :
    t.runner.Tells env appender (t.jobs act) (t.perform env act).runner ∧
      (t.perform env act).runner.Announces env appender threads most := by
  cases hrunner : t.runner with
  | immediate r =>
    rw [hrunner] at hannounces hdropped hupdate
    obtain ⟨s, hperform, hturns⟩ := perform_turns env hrunner act
    rw [hperform]
    exact hturns.tells hcalm hmost hannounces hthread hdropped hupdate
  | background r =>
    rw [hrunner] at hannounces hdropped hupdate
    by_cases hact : act = .work
    · rw [hact, perform_work env hrunner]
      simp only [jobs, hrunner]
      exact Background.step_tells hcalm hmost hannounces hworker hdropped
    · obtain ⟨s, hperform, hbetween, -, hcase⟩ := perform_steady env hrunner hact
      rw [jobs_background hrunner hact, hperform]
      refine ⟨.still hbetween.journal_eq, fun halive => ?_⟩
      obtain ⟨hopen, hpublished⟩ := hannounces (hbetween.stage_eq ▸ halive)
      refine ⟨by rw [hbetween.outlet_eq]; exact hopen, fun a ha => ?_⟩
      rcases hcase with ⟨-, hsame⟩ | ⟨c, a', hact', hdone, harrange, -, -, hnew⟩
      · exact hpublished a (hsame.symm.trans ha)
      · obtain rfl := Option.some.inj (hnew.symm.trans ha)
        exact hupdate c hact' hdone a' harrange

/-- Over a run the appender hears of all that the outlet was given to do, in this order. -/
theorem Traffic.run_tells {t : Traffic}
    (hannounces : t.runner.Announces env appender threads most) {acts : List Act}
    (hworker : Background.workerThread ∈ threads)
    (hthreads : ∀ act ∈ acts, ∀ thread, act.thread? = some thread → thread ∈ threads)
    (hdropped : t.runner.stock.dropped + acts.countP Act.isDrop ≤ most)
    (hupdates : ∀ before c after, acts = before ++ .update c :: after →
      ((t.run env before).runner.update env c).2 = .done →
        c.Announces env appender threads most) :
    t.runner.Tells env appender (t.errands env acts) (t.run env acts).runner := by
  induction acts generalizing t with
  | nil => exact .still rfl
  | cons act acts ih =>
    have hturn := t.perform_accounts hcalm act
    rw [List.countP_cons] at hdropped
    obtain ⟨htells, hnext⟩ := perform_tells hcalm hmost hannounces hworker
      (hthreads act List.mem_cons_self) (by omega)
      fun c hact hdone => hupdates [] c acts (by rw [hact]; rfl) hdone
    refine htells.trans
      (ih hnext (fun a ha => hthreads a (List.mem_cons_of_mem _ ha)) (by omega) ?_)
    intro before c after hsplit hdone
    exact hupdates (act :: before) c after (by rw [hsplit]; rfl) hdone

end Hearing

/-! ### The end -/

theorem Traffic.jobs_of_closed {t : Traffic} (h : t.runner.Closed) (act : Act) :
    t.jobs act = [] := by
  cases hrunner : t.runner with
  | immediate r =>
    rw [hrunner] at h
    have hnone : r.outlet = none := h
    cases act with
    | submit place thread =>
      simp only [jobs, hrunner, hnone]
      split
      · rename_i hsome
        cases hsome
      · rfl
    | update c =>
      simp only [jobs, hrunner, hnone]
      split
      · rename_i hsome
        cases hsome
      · rfl
    | stop thread => simp only [jobs, hrunner, hnone]
    | _ => simp only [jobs, hrunner]
  | background r =>
    rw [hrunner] at h
    obtain ⟨lost, hstage⟩ := h
    by_cases hact : act = .work
    · have hjob : r.job? = none := by rw [Background.job?, hstage]
      rw [hact]
      simp only [jobs, hrunner, hjob]
      rfl
    · exact jobs_background hrunner hact

section Closing

variable (hcalm : env.Calm)
include hcalm

theorem Traffic.perform_closes {t : Traffic} (hopen : ¬ t.runner.Closed) {act : Act}
    (hclosed : (t.perform env act).runner.Closed) :
    (t.perform env act).runner.stock.dropped = 0 := by
  have haccounts := t.perform_accounts hcalm act
  cases hrunner : t.runner with
  | immediate r =>
    rw [hrunner] at hopen haccounts
    obtain ⟨s, hperform, hturns⟩ := perform_turns env hrunner act
    rw [hperform] at hclosed haccounts ⊢
    generalize t.jobs act = jobs at hturns haccounts
    have hnone : s.outlet = none := hclosed
    cases hturns with
    | aside houtlet => exact absurd (houtlet.symm.trans hnone) hopen
    | submits hact houtlet record =>
      rw [Immediate.write, houtlet] at hnone
      cases hnone
    | updates hact houtlet harrange =>
      rw [Immediate.update, harrange, houtlet] at hnone
      cases hnone
    | stops hact houtlet =>
      rw [hact] at haccounts
      change r.stock.dropped + 0 + _ = r.stock.dropped + 0 at haccounts
      omega
  | background r =>
    rw [hrunner] at hopen haccounts
    by_cases hact : act = .work
    · rw [hact, perform_work env hrunner] at hclosed ⊢
      obtain ⟨lost, hended⟩ := hclosed
      have hgoes := r.step_goes env fun lost hstage => hopen ⟨lost, hstage⟩
      have hstep := r.step_accounts hcalm
      generalize r.step env = s at hended hgoes hstep
      cases hgoes with
      | on _ _ halive => exact absurd hended (halive lost)
      | @fails s job reason hjob _ hbroken =>
        cases hbroken.symm.trans (job.work_calm hcalm r.outlet r.journal)
      | closes hstage hqueue =>
        have hjob : r.job? = some (.close r.stock.dropped) := by
          rw [Background.job?, hstage, hqueue]
          rfl
        rw [hjob] at hstep
        have hsum : r.stock.dropped + 0 + (r.finish env).stock.dropped = r.stock.dropped := hstep
        change (r.finish env).stock.dropped = 0
        omega
    · obtain ⟨s, hperform, hbetween, -⟩ := perform_steady env hrunner hact
      rw [hperform] at hclosed
      obtain ⟨lost, hended⟩ := hclosed
      exact absurd ⟨lost, hbetween.stage_eq.symm.trans hended⟩ hopen

omit hcalm in
theorem Traffic.errands_of_closed {t : Traffic} (h : t.runner.Closed) (acts : List Act) :
    t.errands env acts = [] := by
  induction acts generalizing t with
  | nil => rfl
  | cons act acts ih =>
    rw [errands, jobs_of_closed h act, ih (perform_of_closed env h act).1]
    rfl

/-- After the turn that closed a runner only the events that are dropped later are pending. -/
theorem Traffic.run_closes {t : Traffic} (hopen : ¬ t.runner.Closed) {acts : List Act}
    (hclosed : (t.run env acts).runner.Closed) :
    ∃ earlier act later, acts = earlier ++ act :: later ∧ ¬ (t.run env earlier).runner.Closed ∧
      (t.run env (earlier ++ [act])).runner.Closed ∧
      (t.run env acts).runner.stock.dropped = later.countP Act.isDrop := by
  induction acts generalizing t with
  | nil => exact absurd hclosed hopen
  | cons act acts ih =>
    by_cases hnow : (t.perform env act).runner.Closed
    · have hzero := perform_closes hcalm hopen hnow
      have hrest := (t.perform env act).run_accounts hcalm acts
      rw [errands_of_closed hnow, hzero, Nat.zero_add] at hrest
      exact ⟨[], act, acts, rfl, hopen, hnow, (Nat.zero_add _).symm.trans hrest⟩
    · obtain ⟨earlier, last, later, rfl, hbefore, hafter, hpending⟩ := ih hnow hclosed
      exact ⟨act :: earlier, last, later, rfl, hbefore, hafter, hpending⟩

theorem Runner.shutdown_takes {runner : Runner} (hopen : ¬ runner.Closed) (thread : String) :
    (runner.shutdown env thread).1.stock.dropped = 0 := by
  cases runner with
  | immediate r =>
    let t : Traffic := { runner := .immediate r }
    have hclosed : (t.perform env (.stop thread)).runner.Closed :=
      closed_shutdown env thread (.immediate r)
    exact t.perform_closes hcalm hopen hclosed
  | background r =>
    obtain ⟨n, hrun⟩ := r.stop.steps_eq_run env [] [] r.stop.stepsToRest
    let t : Traffic := { runner := .background r.stop }
    have hclosed : (t.run env (List.replicate n .work)).runner.Closed := by
      rw [hrun]
      exact r.settle_stop_ended env
    obtain ⟨earlier, act, later, hsplit, -, -, hpending⟩ := t.run_closes hcalm hopen hclosed
    have hnone : later.countP Act.isDrop = 0 := by
      refine List.countP_eq_zero.mpr fun a ha => ?_
      have hmem : a ∈ List.replicate n Act.work := by
        rw [hsplit]
        exact List.mem_append_right _ (List.mem_cons_of_mem _ ha)
      rw [List.eq_of_mem_replicate hmem]
      exact Bool.false_ne_true
    rw [hrun, hnone] at hpending
    have hjoin : (r.shutdown env).stock = (r.stop.settle env).stock := by
      rw [Background.shutdown, Background.join]
      split
      · split <;> rfl
      · rfl
      · rfl
    change (r.shutdown env).stock.dropped = 0
    rw [hjoin]
    exact hpending

end Closing

/-! ### Over a whole run -/

def noticeThreads (acts : List Act) : List String :=
  Background.workerThread :: acts.filterMap Act.thread?

section Runs

variable {start : Runner}

theorem Runner.start_announces {threads : List String} {most : Nat}
    (hstart : Runner.start env c = .running start)
    (hconfig : c.Announces env appender threads most) :
    start.stock.dropped = 0 ∧ ¬ start.Closed ∧ start.Announces env appender threads most ∧
      start.journal.callsTo appender = [.start] := by
  obtain ⟨-, hrequests⟩ := start_requests hstart
  have hcalls {a : Arrangement} (harrange : c.arrange = .ok a) :
      start.journal.callsTo appender = [.start] := by
    have honce : listed appender a.handles = 1 := (hconfig a harrange).listed_once
    rw [Journal.callsTo_eq, hrequests, callsOf_callAll, ← Config.handles_of_arrange harrange, honce]
    rfl
  rcases start_running hstart with ⟨r, himmediate, rfl⟩ | ⟨r, hbackground, rfl⟩
  · obtain ⟨hstock, -⟩ := Immediate.start_running himmediate
    obtain ⟨a, harrange, houtlet⟩ := Immediate.start_outlet himmediate
    refine ⟨by rw [stock, hstock]; rfl, fun hclosed => ?_, fun o ho => ?_, hcalls harrange⟩
    · cases houtlet.symm.trans hclosed
    · obtain rfl := Option.some.inj (houtlet.symm.trans ho)
      exact hconfig a harrange
  · obtain ⟨-, hstage, hstock, -⟩ := Background.start_running hbackground
    obtain ⟨a, harrange, houtlet, hpublished⟩ := Background.start_outlet hbackground
    refine ⟨by rw [stock, hstock]; rfl, fun ⟨lost, hclosed⟩ => ?_, fun _ => ?_, hcalls harrange⟩
    · cases hstage.symm.trans hclosed
    · rw [houtlet]
      refine ⟨hconfig a harrange, fun a' ha' => ?_⟩
      cases hpublished.symm.trans ha'

theorem notifies_of_tells {jobs : List Job} {news : List (List News)}
    (h : List.Forall₂ (Job.Tells env) jobs news) {count : Nat} {line : Line}
    (hmem : .notice count line ∈ news.flatten) : Notifies count line := by
  have hflush {n : Nat} {told : News} (hflush : Flushes n told)
      (htold : told = .notice count line) : Notifies count line := by
    cases hflush with
    | plain => cases htold
    | reporting hnotifies =>
      cases htold
      exact hnotifies
  induction h with
  | nil => cases hmem
  | cons htells _ ih =>
    rw [List.flatten_cons, List.mem_append] at hmem
    rcases hmem with hmem | hmem
    · cases htells with
      | silent record => cases hmem
      | deliver record formatter => cases List.mem_singleton.mp hmem
      | flush hreports => exact hflush hreports (List.mem_singleton.mp hmem).symm
      | change a => cases hmem
      | close hreports =>
        rcases List.mem_cons.mp hmem with heq | hlast
        · exact hflush hreports heq.symm
        · cases List.mem_singleton.mp hlast
    · exact ih hmem

theorem count_of_tells {jobs : List Job} {news : List (List News)}
    (h : List.Forall₂ (Job.Tells env) jobs news) :
    (news.flatten.map News.count).sum = (jobs.map Job.reported).sum := by
  induction h with
  | nil => rfl
  | cons htells _ ih =>
    rw [List.flatten_cons, List.map_append, List.sum_append, htells.count_eq, ih, List.map_cons,
      List.sum_cons]

/-- Where no appender breaks off, an appender that is listed once in every configuration in force,
and listens at the level of notices, hears of all that the outlet is given to do, in order. What it
gets is the lines of messages, notices, each followed by a flush, and flushes. A notice says how
many events were dropped, never none, and the counts of the notices and what is pending add up to
the events that were dropped. No notice is ever cut. Once the runner is closed only events that were
dropped after that are pending, and a shutdown that closes it leaves nothing pending. -/
theorem drops_accounted (hcalm : env.Calm) (hstart : Runner.start env c = .running start)
    (acts : List Act) (appender : Nat) (hfew : acts.countP Act.isDrop < 2 ^ 64)
    (hconfig : c.Announces env appender (noticeThreads acts) (acts.countP Act.isDrop))
    (hupdates : ∀ before c after, acts = before ++ .update c :: after →
      ((Traffic.run env { runner := start } before).runner.update env c).2 = .done →
        c.Announces env appender (noticeThreads acts) (acts.countP Act.isDrop)) :
    let t : Traffic := { runner := start }
    let ended := (t.run env acts).runner
    (∃ news, List.Forall₂ (Job.Tells env) (t.errands env acts) news ∧
      ended.journal.callsTo appender = .start :: news.flatten.flatMap News.calls ∧
      (∀ count line, .notice count line ∈ news.flatten → Notifies count line) ∧
      (news.flatten.map News.count).sum + ended.stock.dropped = acts.countP Act.isDrop) ∧
    (∀ now thread count, (Outlet.notice now thread count).truncated = false) ∧
    (ended.Closed → ∃ earlier act later, acts = earlier ++ act :: later ∧
      ¬ (t.run env earlier).runner.Closed ∧ (t.run env (earlier ++ [act])).runner.Closed ∧
      ended.stock.dropped = later.countP Act.isDrop) ∧
    (¬ ended.Closed → ∀ thread, (ended.shutdown env thread).1.stock.dropped = 0) := by
  intro t ended
  obtain ⟨hnone, hopen, hannounces, hstarted⟩ := Runner.start_announces hstart hconfig
  have haccounts := t.run_accounts hcalm acts
  rw [show t.runner.stock.dropped = 0 from hnone, Nat.zero_add] at haccounts
  have hthreads : ∀ act ∈ acts, ∀ thread, act.thread? = some thread →
      thread ∈ noticeThreads acts := fun act hact thread hthread =>
    List.mem_cons_of_mem _ (List.mem_filterMap.mpr ⟨act, hact, hthread⟩)
  obtain ⟨news, htells, hcalls⟩ := Traffic.run_tells hcalm hfew hannounces
    List.mem_cons_self hthreads (Nat.le_of_eq (by rw [hnone, Nat.zero_add])) hupdates
  rw [hstarted] at hcalls
  refine ⟨⟨news, htells, hcalls, fun _ _ => notifies_of_tells htells, ?_⟩, Outlet.truncated_notice,
    t.run_closes hcalm hopen, fun hended thread => Runner.shutdown_takes hcalm hended thread⟩
  rw [count_of_tells htells]
  exact haccounts

end Runs

/-- Two events are dropped, reported by the next message after a change of configuration, a third is
reported by the shutdown, and a fourth comes too late. -/
theorem drops_accounted_four :
    let c : Config := { strategy := .immediate, poolSize := 1, heading := "",
                        appenders := [⟨"kept", .warn, 0⟩] }
    let acts : List Act := [.noteDropped, .noteDropped,
      .update { heading := "", appenders := [⟨"kept", .info, 0⟩] }, .acquire, .submit 0 "main",
      .settle 0, .noteDropped, .stop "main", .noteDropped]
    ∃ start, Runner.start {} c = .running start ∧
      let ended := (Traffic.run {} { runner := start } acts).runner
      ended.stock.dropped = 1 ∧ ∃ news : List News,
        ended.journal.callsTo 0 = .start :: news.flatMap News.calls ∧
          (∀ count line, .notice count line ∈ news → Notifies count line) ∧
          (news.map News.count).sum = 3 := by
  intro c acts
  have hcalm : Environment.Calm {} := fun _ _ _ _ h => by cases h
  have hfits : ∀ thread ∈ noticeThreads acts, ∀ count ≤ acts.countP Act.isDrop, count ≠ 0 →
      utf8.measure (Line.Heading.text ⟨[]⟩ (Outlet.notice .epoch thread count) ++
        Outlet.noticeText count) ≤ Line.defaultCapacity := by decide +kernel
  have hconfig : c.Announces {} 0 (noticeThreads acts) (acts.countP Act.isDrop) := by
    intro a harrange
    obtain rfl := Except.ok.inj ((rfl : c.arrange = .ok _).symm.trans harrange)
    exact ⟨rfl, by decide, rfl, fun thread hthread _ => hfits thread hthread⟩
  have hnext : Config.Announces {} 0 (noticeThreads acts) (acts.countP Act.isDrop)
      { heading := "", appenders := [⟨"kept", .info, 0⟩] } := by
    intro a harrange
    obtain rfl := Except.ok.inj ((rfl : Config.arrange
      { heading := "", appenders := [⟨"kept", .info, 0⟩] } = .ok _).symm.trans harrange)
    exact ⟨rfl, by decide, rfl, fun thread hthread _ => hfits thread hthread⟩
  have hupdates : ∀ before c' after, acts = before ++ .update c' :: after →
      c' = { heading := "", appenders := [⟨"kept", .info, 0⟩] } := by
    intro before c' after hsplit
    have hmem : Act.update c' ∈ acts := by
      rw [hsplit]
      exact List.mem_append_right _ List.mem_cons_self
    simpa [acts] using hmem
  obtain ⟨start, hstart⟩ : ∃ start, Runner.start {} c = .running start := ⟨_, rfl⟩
  obtain ⟨⟨news, -, hcalls, hnotices, hsum⟩, -, hclosed, -⟩ :=
    drops_accounted hcalm hstart acts 0 (by decide) hconfig
      fun before c' after hsplit _ => hupdates before c' after hsplit ▸ hnext
  have hpending : (Traffic.run {} { runner := start } acts).runner.stock.dropped = 1 := by
    cases hstart
    decide +kernel
  refine ⟨start, hstart, hpending, news.flatten, hcalls, hnotices, ?_⟩
  have hfour : acts.countP Act.isDrop = 4 := by decide
  omega

end Logbook
