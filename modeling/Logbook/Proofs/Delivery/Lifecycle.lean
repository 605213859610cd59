import Logbook.Proofs.Delivery.Shutdown
import Mathlib.Data.List.Induction
set_option autoImplicit false

/-!
# What an appender goes through

While no appender breaks off, every turn is work of the kinds that `Asks` lists, and what appenders
go through over a run follows turn by turn. An appender is live between a start and the next
disposal; lines go to live appenders of the configuration in force only. Starts and disposals come
when an appender enters or leaves the configuration in force, one for every time it is listed, so
an appender that is listed twice is started twice and disposed twice.
-/
namespace Logbook

variable {env : Environment} {c : Config}

/-! ## What a turn asks for -/

def Immediate.configured (r : Immediate) (c : Config) : List Handle :=
  match r.outlet, c.arrange with
  | none, _ => []
  | some o, .error _ => o.handles
  | some _, .ok a => a.handles

def Traffic.configured (t : Traffic) (act : Act) : List Handle :=
  match t.runner, act with
  | .immediate r, .update c => r.configured c
  | .immediate _, .stop _ => []
  | .background r, .work => r.job?.elim t.runner.handles (Job.handles t.runner.handles)
  | _, _ => t.runner.handles

/-- A runner went over to another, and asked its appenders for what the change of handles takes. -/
def Runner.Moves (before : Runner) (handles : List Handle) (after : Runner) : Prop :=
  after.handles = handles ∧ ∃ requests, Asks before.handles requests handles ∧
    after.journal.requests = before.journal.requests ++ requests

theorem Runner.Moves.still {before after : Runner} (hhandles : after.handles = before.handles)
    (hjournal : after.journal = before.journal) : before.Moves before.handles after :=
  ⟨hhandles, [], .nothing _, by rw [hjournal, List.append_nil]⟩

theorem Runner.Moves.withStock (runner : Runner) (stock : Stock) :
    runner.Moves runner.handles (runner.withStock stock) := by
  cases runner <;> exact .still rfl rfl

section Calm

variable (hcalm : env.Calm)
include hcalm

theorem Immediate.write_moves (r : Immediate) (thread : String) (record : Record) :
    (Runner.immediate r).Moves (Runner.immediate r).handles
      (.immediate (r.write env thread record)) := by
  obtain ⟨stock, outlet, journal⟩ := r
  cases outlet with
  | none => exact .still rfl rfl
  | some o =>
    let delivered := o.deliver env journal record
    have hdeliver := (o.deliver_makes env journal record).made (o.deliver_calm hcalm journal record)
    have hflush := (delivered.outlet.flush_makes env delivered.journal thread stock.dropped).made
      (delivered.outlet.flush_calm hcalm delivered.journal thread stock.dropped)
    have hhandles : delivered.outlet.handles = o.handles := o.handles_deliver env journal record
    refine ⟨(delivered.outlet.handles_flush env delivered.journal thread stock.dropped).trans
      hhandles,
      o.lineRequests env record ++ delivered.outlet.flushRequests env delivered.journal thread stock.dropped, ?_, ?_⟩
    · refine .serve_append (fun _ h => o.serves_lineRequests env h) fun _ h => ?_
      have hserves := delivered.outlet.serves_flushRequests env delivered.journal thread stock.dropped h
      rwa [hhandles] at hserves
    · rw [hdeliver, List.append_assoc] at hflush
      exact hflush

theorem Immediate.update_moves (r : Immediate) (c : Config) :
    (Runner.immediate r).Moves (r.configured c) (.immediate (r.update env c).1) := by
  obtain ⟨stock, outlet, journal⟩ := r
  cases harrange : c.arrange with
  | error error =>
    have hupdate : ((Immediate.mk stock outlet journal).update env c).1 =
        ⟨stock, outlet, journal⟩ := by rw [Immediate.update, harrange]
    rw [hupdate]
    cases outlet with
    | none => exact .still rfl rfl
    | some o =>
      rw [Immediate.configured, harrange]
      exact .still rfl rfl
  | ok a =>
    cases outlet with
    | none =>
      have hupdate : ((Immediate.mk stock none journal).update env c).1 =
          ⟨stock, none, journal⟩ := by rw [Immediate.update, harrange]
      rw [hupdate]
      exact .still rfl rfl
    | some o =>
      have hchange := o.change_calm hcalm journal a
      rw [Immediate.update, Immediate.configured, harrange]
      exact ⟨o.handles_change env journal hchange, _, .change a.handles,
        (o.change_makes env journal a).made hchange⟩

theorem Immediate.shutdown_moves (r : Immediate) (thread : String) :
    (Runner.immediate r).Moves [] (.immediate (r.shutdown env thread).1) := by
  obtain ⟨stock, outlet, journal⟩ := r
  cases outlet with
  | none => exact .still rfl rfl
  | some o =>
    exact ⟨rfl, _, o.asks_close env journal thread stock.dropped,
      (o.close_makes env journal thread stock.dropped).made
        (o.close_calm hcalm journal thread stock.dropped)⟩

theorem Background.step_moves (r : Background) :
    (Runner.background r).Moves (r.job?.elim r.outlet.handles (Job.handles r.outlet.handles))
      (.background (r.step env)) := by
  have hdone := fun job (_ : r.job? = some job) => job.work_calm hcalm r.outlet r.journal
  have hstep := r.step_of_done hdone
  cases hjob : r.job? with
  | none =>
    rw [hjob] at hstep
    obtain ⟨houtlet, hjournal⟩ := Prod.mk.inj hstep
    exact .still (congrArg Outlet.handles houtlet) hjournal
  | some job =>
    rw [hjob] at hstep
    obtain ⟨houtlet, hjournal⟩ := Prod.mk.inj hstep
    refine ⟨?_, job.requests env r.outlet r.journal, job.asks env r.outlet r.journal, ?_⟩
    · rw [Runner.handles, houtlet]
      exact Job.handles_work (hdone job hjob)
    · rw [Runner.journal, hjournal]
      exact (job.makes env r.outlet r.journal).made (hdone job hjob)

theorem Traffic.perform_moves (t : Traffic) (act : Act) :
    t.runner.Moves (t.configured act) (t.perform env act).runner := by
  obtain ⟨runner, held, leaving⟩ := t
  have hsame (hkeeps : configured ⟨runner, held, leaving⟩ act = runner.handles) {after : Runner}
      (h : runner.Moves runner.handles after) :
      runner.Moves (configured ⟨runner, held, leaving⟩ act) after := hkeeps ▸ h
  cases act with
  | acquire =>
    refine hsame (by cases runner <;> rfl) ?_
    rw [perform]
    split
    · exact .still rfl rfl
    · exact .withStock _ _
  | allocate => exact hsame (by cases runner <;> rfl) (.withStock _ _)
  | bring record => exact hsame (by cases runner <;> rfl) (.still rfl rfl)
  | fill place ops => exact hsame (by cases runner <;> rfl) (.still rfl rfl)
  | submit place thread =>
    refine hsame (by cases runner <;> rfl) ?_
    rw [perform]
    split
    · exact .still rfl rfl
    · rename_i record _
      have henter : runner.Moves runner.handles (runner.enter env thread record).1 := by
        cases runner with
        | immediate r => exact r.write_moves hcalm thread record
        | background r => exact .still rfl rfl
      split <;> rename_i hentered <;> rw [hentered] at henter <;> exact henter
  | settle place =>
    refine hsame (by cases runner <;> rfl) ?_
    rw [perform]
    split
    · exact .still rfl rfl
    · cases runner <;> exact .still rfl rfl
  | noteDropped => exact hsame (by cases runner <;> rfl) (.withStock _ _)
  | update c =>
    cases runner with
    | immediate r => exact r.update_moves hcalm c
    | background r =>
      obtain ⟨published, hupdate⟩ := r.update_eq c
      refine .still ?_ ?_
      · change (r.update c).1.outlet.handles = r.outlet.handles
        rw [hupdate]
      · change (r.update c).1.journal = r.journal
        rw [hupdate]
  | stop thread =>
    cases runner with
    | immediate r => exact r.shutdown_moves hcalm thread
    | background r => exact .still rfl rfl
  | work =>
    cases runner with
    | immediate r => exact .still rfl rfl
    | background r => exact r.step_moves hcalm

end Calm

theorem Config.start_requests {a : Arrangement} (harrange : c.arrange = .ok a)
    (hdone : ((Outlet.create a).start env {}).aborted = none) :
    ((Outlet.create a).start env {}).outlet.handles = c.appenders ∧
      ((Outlet.create a).start env {}).journal.requests = Outlet.callAll .start c.appenders := by
  have hhandles := Config.handles_of_arrange harrange
  refine ⟨hhandles, ?_⟩
  rw [((Outlet.create a).start_makes env {}).made hdone, ← hhandles]
  rfl

theorem Background.start_requests {r : Background} (hstart : start env c = .running r) :
    r.outlet.handles = c.appenders ∧
      r.journal.requests = Outlet.callAll .start c.appenders := by
  rw [start] at hstart
  cases harrange : c.arrange with
  | error error => simp [harrange] at hstart
  | ok a =>
    simp only [harrange] at hstart
    split at hstart
    · cases hstart
    · rename_i hdone
      cases hstart
      exact Config.start_requests harrange hdone

theorem Runner.start_requests {runner : Runner} (hstart : start env c = .running runner) :
    runner.handles = c.appenders ∧
      runner.journal.requests = Outlet.callAll .start c.appenders := by
  rcases start_running hstart with ⟨r, himmediate, rfl⟩ | ⟨r, hbackground, rfl⟩
  · rw [Immediate.start] at himmediate
    cases harrange : c.arrange with
    | error error => simp [harrange] at himmediate
    | ok a =>
      simp only [harrange] at himmediate
      split at himmediate
      · cases himmediate
      · rename_i hdone
        cases himmediate
        exact Config.start_requests harrange hdone
  · exact Background.start_requests hbackground

/-! ## Live appenders -/

/-- The appender was started, and not disposed since. -/
def Live (calls : List Call) : Prop :=
  ∃ before after, calls = before ++ .start :: after ∧ .dispose ∉ after

theorem Live.append {calls more : List Call} (h : Live calls) (hmore : .dispose ∉ more) :
    Live (calls ++ more) := by
  obtain ⟨before, after, rfl, hafter⟩ := h
  refine ⟨before, after ++ more, by simp, ?_⟩
  rw [List.mem_append]
  exact fun hmem => hmem.elim hafter hmore

theorem Live.append_starts (calls : List Call) {n : Nat} (h : 0 < n) :
    Live (calls ++ List.replicate n .start) := by
  obtain ⟨n, rfl⟩ := Nat.exists_eq_succ_of_ne_zero (Nat.ne_of_gt h)
  exact ⟨calls, List.replicate n .start, rfl, fun hmem => by cases List.eq_of_mem_replicate hmem⟩

def AllLive (handles : List Handle) (requests : List Request) : Prop :=
  ∀ handle ∈ handles, Live (callsOf handle.appender requests)

theorem allLive_start (handles : List Handle) :
    AllLive handles (Outlet.callAll .start handles) := by
  intro handle hhandle
  rw [callsOf_callAll]
  exact Live.append_starts [] (listed_pos hhandle)

theorem dispose_notMem_callsOf {requests : List Request}
    (h : ∀ request ∈ requests, request.2 ≠ .dispose) (appender : Nat) :
    Call.dispose ∉ callsOf appender requests := by
  rw [mem_callsOf]
  rintro ⟨request, hrequest, -, hcall⟩
  exact h request hrequest hcall

theorem write_notMem_changeCalls {old new : List Handle} {handle : Handle} {line : Line} :
    (handle, .write line) ∉ Outlet.changeCalls old new := by
  simp [Outlet.changeCalls, Outlet.callAll]

theorem append_eq_split {α : Type} {early late first rest : List α} {x : α}
    (h : early ++ late = first ++ x :: rest) :
    (∃ more, early = first ++ x :: more ∧ rest = more ++ late) ∨
      ∃ more, first = early ++ more ∧ late = more ++ x :: rest := by
  rcases List.append_eq_append_iff.mp h with ⟨more, hfirst, hlate⟩ | ⟨more, hearly, hrest⟩
  · exact .inr ⟨more, hfirst, hlate⟩
  · cases more with
    | nil => exact .inr ⟨[], by simpa using hearly.symm, by simpa using hrest.symm⟩
    | cons y more =>
      obtain ⟨rfl, htail⟩ := List.cons.inj hrest
      exact .inl ⟨more, hearly, htail⟩

namespace Asks

variable {old new : List Handle} {before requests : List Request}

theorem allLive (h : Asks old requests new) (hlive : AllLive old before) :
    AllLive new (before ++ requests) := by
  cases h with
  | serve hserve =>
    intro handle hhandle
    rw [callsOf_append]
    exact (hlive handle hhandle).append
      (dispose_notMem_callsOf (fun request hrequest => (hserve request hrequest).2.2) _)
  | change =>
    intro handle hhandle
    have hnew := listed_pos hhandle
    rw [callsOf_append, callsOf_changeCalls, if_neg (Nat.ne_of_gt hnew), List.nil_append]
    split
    · exact .append_starts _ hnew
    · rename_i hold
      obtain ⟨other, hother, hsame⟩ : ∃ other ∈ old, other.appender = handle.appender := by
        simpa [listed_eq_zero] using hold
      rw [List.append_nil, ← hsame]
      exact hlive other hother
  | close => exact fun _ hhandle => by cases hhandle

/-- Lines are written to handles in force, and while their appenders are live. -/
theorem live_of_write (h : Asks old requests new) (hlive : AllLive old before)
    {first rest : List Request} {handle : Handle} {line : Line}
    (hsplit : requests = first ++ (handle, .write line) :: rest) :
    handle ∈ old ∧ Live (callsOf handle.appender (before ++ first)) := by
  -- so far nothing was disposed
  have hcore (hmem : handle ∈ old) (hfirst : ∀ request ∈ first, request.2 ≠ .dispose) :
      handle ∈ old ∧ Live (callsOf handle.appender (before ++ first)) := by
    refine ⟨hmem, ?_⟩
    rw [callsOf_append]
    exact (hlive handle hmem).append (dispose_notMem_callsOf hfirst _)
  have hmid {first rest : List Request} :
      (handle, Call.write line) ∈ first ++ (handle, .write line) :: rest :=
    List.mem_append_right _ List.mem_cons_self
  cases h with
  | serve hserve =>
    rw [hsplit] at hserve
    refine hcore (hserve _ hmid).1 fun request hrequest => ?_
    exact (hserve request (List.mem_append_left _ hrequest)).2.2
  | change =>
    have hmem : (handle, Call.write line) ∈ Outlet.changeCalls old new := hsplit ▸ hmid
    exact absurd hmem write_notMem_changeCalls
  | @close lines hlines =>
    rw [List.append_assoc] at hsplit
    rcases append_eq_split hsplit with ⟨more, rfl, -⟩ | ⟨more, -, hlate⟩
    · refine hcore (hlines _ hmid).1 fun request hrequest => ?_
      obtain ⟨-, line', hline⟩ := hlines request (List.mem_append_left _ hrequest)
      rw [hline]
      exact fun hcall => by cases hcall
    -- what comes after the last lines is none
    · have hmem : (handle, Call.write line) ∈
          Outlet.callAll .flush old ++ Outlet.callAll .dispose old := hlate ▸ hmid
      simp [Outlet.callAll] at hmem

end Asks

theorem Traffic.allLive_run (hcalm : env.Calm) {t : Traffic}
    (h : AllLive t.runner.handles t.runner.journal.requests) (acts : List Act) :
    AllLive (t.run env acts).runner.handles (t.run env acts).runner.journal.requests := by
  induction acts generalizing t with
  | nil => exact h
  | cons act acts ih =>
    obtain ⟨hhandles, requests, hasks, hrequests⟩ := t.perform_moves hcalm act
    refine ih ?_
    rw [hhandles, hrequests]
    exact hasks.allLive h

theorem Traffic.live_of_write (hcalm : env.Calm) {start : Traffic}
    (hlive : AllLive start.runner.handles start.runner.journal.requests) (acts : List Act)
    {before after : List Request} {handle : Handle} {line : Line}
    (hnew : (handle, .write line) ∉ start.runner.journal.requests)
    (hsplit : (start.run env acts).runner.journal.requests =
      before ++ (handle, .write line) :: after) :
    Live (callsOf handle.appender before) ∧
      ∃ earlier act later, acts = earlier ++ act :: later ∧
        let moment := start.run env earlier
        moment.runner.journal.requests <+: before ∧
        before ++ [(handle, .write line)] <+: (moment.perform env act).runner.journal.requests ∧
        handle ∈ moment.runner.handles := by
  -- the last turn wrote the line, or an earlier one did
  induction acts using List.reverseRecOn generalizing after with
  | nil =>
    have hmem : (handle, Call.write line) ∈ before ++ (handle, .write line) :: after :=
      List.mem_append_right _ List.mem_cons_self
    exact absurd (hsplit ▸ hmem) hnew
  | append_singleton acts act ih =>
    let moment := start.run env acts
    have hperform : start.run env (acts ++ [act]) = moment.perform env act :=
      run_append env start acts [act]
    obtain ⟨-, requests, hasks, hmore⟩ := moment.perform_moves hcalm act
    rw [hperform, hmore] at hsplit
    rcases append_eq_split hsplit with ⟨more, hearly, -⟩ | ⟨more, rfl, hlate⟩
    · obtain ⟨hlives, earlier, turn, later, rfl, hmoment⟩ := ih hearly
      exact ⟨hlives, earlier, turn, later ++ [act], by simp, hmoment⟩
    · obtain ⟨hhandle, hlives⟩ := hasks.live_of_write (allLive_run hcalm hlive acts) hlate
      refine ⟨hlives, acts, act, [], rfl, List.prefix_append _ _, ?_, hhandle⟩
      rw [hmore, hlate]
      exact ⟨after, by simp⟩

/-- Whatever producers, updates, the worker and shutdowns do, in any order, as long as no appender
breaks off: an appender gets a line only after it was started and not disposed since, and through a
handle of the configuration in force when the turn that writes the line comes. A shutdown is made of
such turns. Once it is over, neither late producers nor further shutdowns make the runner call an
appender. -/
theorem written_while_live (hcalm : env.Calm) {runner : Runner}
    (hstart : Runner.start env c = .running runner) (acts : List Act) :
    let t := Traffic.run env { runner } acts
    (∀ (before after : List Request) (handle : Handle) (line : Line),
      t.runner.journal.requests = before ++ (handle, .write line) :: after →
        Live (callsOf handle.appender before) ∧
        ∃ earlier act later, acts = earlier ++ act :: later ∧
          let moment := Traffic.run env { runner } earlier
          moment.runner.journal.requests <+: before ∧
          before ++ [(handle, .write line)] <+: (moment.perform env act).runner.journal.requests ∧
          handle ∈ moment.runner.handles) ∧
    ∀ (thread : String),
      let closed := (t.runner.shutdown env thread).1
      (∃ n, closed.journal.requests =
        (t.run env (.stop thread :: List.replicate n .work)).runner.journal.requests) ∧
      ∀ (late : List Act) (thread' : String),
        let u := Traffic.run env { t with runner := closed } late
        u.runner.journal.requests = closed.journal.requests ∧
          (u.runner.shutdown env thread').1.journal.requests = closed.journal.requests := by
  intro t
  obtain ⟨hhandles, hrequests⟩ := Runner.start_requests hstart
  have hlive : AllLive runner.handles runner.journal.requests := by
    rw [hhandles, hrequests]
    exact allLive_start _
  refine ⟨fun before after handle line hsplit => ?_, fun thread => ?_⟩
  · refine Traffic.live_of_write hcalm hlive acts (fun hmem => ?_) hsplit
    change (handle, Call.write line) ∈ runner.journal.requests at hmem
    rw [hrequests] at hmem
    simp [Outlet.callAll] at hmem
  · intro closed
    have hclosed : closed.Closed := Runner.closed_shutdown env thread t.runner
    obtain ⟨n, -, hover⟩ := Traffic.shutdown_eq_run env t thread
    refine ⟨⟨n, hover⟩, fun late thread' => ?_⟩
    exact Traffic.silent_of_closed (t := { t with runner := closed }) env hclosed late thread'

theorem written_while_live_again : ∃ runner,
    Runner.start {} { strategy := .immediate, poolSize := 1, heading := "",
                      appenders := [⟨"a", .info, 0⟩] } = .running runner ∧
      let t := Traffic.run {} { runner } [.update { heading := "" },
        .update { heading := "", appenders := [⟨"b", .trace, 0⟩] }, .acquire, .submit 0 "main"]
      let before : List Request := [(⟨"a", .info, 0⟩, .start), (⟨"a", .info, 0⟩, .flush),
        (⟨"a", .info, 0⟩, .dispose), (⟨"b", .trace, 0⟩, .start)]
      (∃ line after,
        t.runner.journal.requests = before ++ (⟨"b", .trace, 0⟩, .write line) :: after) ∧
        Live (callsOf 0 before) := by
  obtain ⟨runner, hstart⟩ : ∃ runner,
      Runner.start {} { strategy := .immediate, poolSize := 1, heading := "",
                        appenders := [⟨"a", .info, 0⟩] } = .running runner := ⟨_, rfl⟩
  have hcalm : Environment.Calm {} := fun _ _ _ _ hreply => by cases hreply
  obtain ⟨hwritten, -⟩ := written_while_live hcalm hstart [.update { heading := "" },
    .update { heading := "", appenders := [⟨"b", .trace, 0⟩] }, .acquire, .submit 0 "main"]
  refine ⟨runner, hstart, ?_⟩
  cases hstart
  intro t before
  obtain ⟨line, after, hsplit⟩ : ∃ line after,
      t.runner.journal.requests = before ++ (⟨"b", .trace, 0⟩, .write line) :: after :=
    ⟨_, _, rfl⟩
  exact ⟨⟨line, after, hsplit⟩, (hwritten before after _ line hsplit).1⟩

/-! ## Starts and disposals -/

namespace Asks

variable {old new : List Handle} {requests : List Request}

theorem calls_of_absent (h : Asks old requests new) {appender : Nat}
    (hold : listed appender old = 0) :
    callsOf appender requests = List.replicate (listed appender new) .start := by
  have hnone {requests : List Request} (hmem : ∀ request ∈ requests, request.1 ∈ old) :
      callsOf appender requests = [] := by
    rw [List.eq_nil_iff_forall_not_mem]
    intro call hcall
    obtain ⟨request, hrequest, hsame, -⟩ := (mem_callsOf appender).mp hcall
    exact (listed_eq_zero appender).mp hold _ (hmem request hrequest) hsame
  cases h with
  | serve hserve =>
    rw [hold]
    exact hnone fun request hrequest => (hserve request hrequest).1
  | change =>
    rw [callsOf_changeCalls, hold, if_pos rfl]
    split <;> rfl
  | close hlines =>
    rw [callsOf_append, callsOf_append, callsOf_callAll, callsOf_callAll, hold,
      hnone fun request hrequest => (hlines request hrequest).1]
    rfl

theorem calls_of_staying (h : Asks old requests new) {appender : Nat}
    (hold : listed appender old ≠ 0) (hnew : listed appender new ≠ 0) :
    .start ∉ callsOf appender requests ∧ .dispose ∉ callsOf appender requests := by
  cases h with
  | serve hserve =>
    constructor
    · rw [mem_callsOf]
      rintro ⟨request, hrequest, -, hcall⟩
      exact (hserve request hrequest).2.1 hcall
    · exact dispose_notMem_callsOf (fun request hrequest => (hserve request hrequest).2.2) _
  | change =>
    rw [callsOf_changeCalls, if_neg hnew, if_neg hold]
    exact ⟨List.not_mem_nil, List.not_mem_nil⟩
  | close => exact absurd rfl hnew

/-- An appender that leaves is flushed and disposed as often as it was listed: in turns when the
configuration changes, and at the end only after all were flushed. -/
theorem calls_of_leaving (h : Asks old requests new) {appender : Nat}
    (hold : listed appender old ≠ 0) (hnew : listed appender new = 0) :
    callsOf appender requests =
        (List.replicate (listed appender old) [Call.flush, .dispose]).flatten ∨
      ∃ lines, (∀ call ∈ lines, ∃ line, call = .write line) ∧ callsOf appender requests =
        lines ++ List.replicate (listed appender old) .flush ++
          List.replicate (listed appender old) .dispose := by
  cases h with
  | serve => exact absurd hnew hold
  | change =>
    refine .inl ?_
    rw [callsOf_changeCalls, if_pos hnew, if_neg hold, List.append_nil]
  | @close lines hlines =>
    refine .inr ⟨callsOf appender lines, fun call hcall => ?_, ?_⟩
    · obtain ⟨request, hrequest, -, rfl⟩ := (mem_callsOf appender).mp hcall
      exact (hlines request hrequest).2
    · rw [callsOf_append, callsOf_append, callsOf_callAll, callsOf_callAll]

end Asks

def Runner.Tidy (runner : Runner) : Prop := runner.Closed → runner.handles = []

theorem Runner.tidy_immediate (r : Immediate) : (Runner.immediate r).Tidy := by
  intro hclosed
  rw [handles, hclosed]
  rfl

theorem Runner.tidy_start {runner : Runner} (hstart : start env c = .running runner) :
    runner.Tidy := by
  rcases start_running hstart with ⟨r, -, rfl⟩ | ⟨r, hbackground, rfl⟩
  · exact tidy_immediate r
  · rintro ⟨lost, hended⟩
    cases (Background.start_running hbackground).2.1.symm.trans hended

section Tidy

variable (hcalm : env.Calm)
include hcalm

theorem Background.tidy_step {r : Background} (h : (Runner.background r).Tidy) :
    (Runner.background (r.step env)).Tidy := by
  by_cases halive : ∀ lost, r.stage ≠ .ended lost
  · have hgoes := r.step_goes env halive
    generalize r.step env = s at hgoes
    rintro ⟨lost, hended⟩
    cases hgoes with
    | on _ _ halive' => exact absurd hended (halive' lost)
    | fails _ _ hbroken => cases hbroken.symm.trans (Job.work_calm hcalm _ _ _)
    | closes =>
      obtain ⟨-, -, -, -, houtlet, -⟩ := r.finish_eq env
      rw [Runner.handles, houtlet]
      exact r.outlet.handles_close env r.journal _ _ (r.outlet.close_calm hcalm r.journal _ _)
  · obtain ⟨lost, hstage⟩ := not_forall_not.mp halive
    rw [step_ended hstage]
    exact h

theorem Traffic.tidy_perform {t : Traffic} (h : t.runner.Tidy) (act : Act) :
    (t.perform env act).runner.Tidy := by
  cases hrunner : t.runner with
  | immediate r =>
    obtain ⟨s, hperform⟩ := perform_immediate env hrunner act
    rw [hperform]
    exact Runner.tidy_immediate s
  | background r =>
    rw [hrunner] at h
    by_cases hact : act = .work
    · rw [hact, perform_work env hrunner]
      exact Background.tidy_step hcalm h
    · obtain ⟨s, hperform, hbetween⟩ := perform_background env hrunner hact
      rw [hperform]
      rintro ⟨lost, hended⟩
      rw [Runner.handles, hbetween.outlet_eq]
      exact h ⟨lost, hbetween.stage_eq.symm.trans hended⟩

theorem Traffic.tidy_run {t : Traffic} (h : t.runner.Tidy) (acts : List Act) :
    (t.run env acts).runner.Tidy := by
  induction acts generalizing t with
  | nil => exact h
  | cons act acts ih => exact ih (tidy_perform hcalm h act)

end Tidy

/-- While no appender breaks off, a turn of whatever kind puts handles in force as `configured`
says, and an appender hears of it as often as it is listed. One that was absent is started once for
each time it is listed now, and hears nothing else. One that stays is neither started nor disposed.
One that leaves is flushed and disposed once for each time it was listed. So an appender that no
configuration lists twice is started once when it comes, disposed once when it leaves, and hears
nothing from then on until it comes again. A shutdown makes every appender leave. -/
theorem called_as_often_as_listed (hcalm : env.Calm) {runner : Runner}
    (hstart : Runner.start env c = .running runner) (appender : Nat) :
    runner.handles = c.appenders ∧
    runner.journal.callsTo appender = List.replicate (listed appender c.appenders) .start ∧
    ∀ acts : List Act,
      let t := Traffic.run env { runner } acts
      (∀ act : Act,
        let old := listed appender t.runner.handles
        let new := listed appender (t.configured act)
        (t.perform env act).runner.handles = t.configured act ∧
        ∃ calls, (t.perform env act).runner.journal.callsTo appender =
            t.runner.journal.callsTo appender ++ calls ∧
          (old = 0 → calls = List.replicate new .start) ∧
          (old ≠ 0 → new ≠ 0 → .start ∉ calls ∧ .dispose ∉ calls) ∧
          (old ≠ 0 → new = 0 →
            calls = (List.replicate old [Call.flush, .dispose]).flatten ∨
            ∃ lines, (∀ call ∈ lines, ∃ line, call = .write line) ∧
              calls = lines ++ List.replicate old .flush ++ List.replicate old .dispose)) ∧
      ∀ thread : String, ∃ n,
        let ended := (t.perform env (.stop thread)).run env (List.replicate n .work)
        ended.runner.handles = [] ∧
          (t.runner.shutdown env thread).1.journal.callsTo appender =
            ended.runner.journal.callsTo appender := by
  obtain ⟨hhandles, hrequests⟩ := Runner.start_requests hstart
  refine ⟨hhandles, ?_, fun acts => ?_⟩
  · rw [Journal.callsTo_eq, hrequests, callsOf_callAll]
  intro t
  have htidy : t.runner.Tidy := Traffic.tidy_run hcalm (Runner.tidy_start hstart) acts
  refine ⟨fun act => ?_, fun thread => ?_⟩
  · obtain ⟨hconfigured, requests, hasks, hmore⟩ := t.perform_moves hcalm act
    refine ⟨hconfigured, callsOf appender requests, ?_, hasks.calls_of_absent,
      fun hold hnew => hasks.calls_of_staying hold hnew,
      fun hold hnew => hasks.calls_of_leaving hold hnew⟩
    rw [Journal.callsTo_eq, Journal.callsTo_eq, hmore, callsOf_append]
  · obtain ⟨n, hclosed, hover⟩ := Traffic.shutdown_eq_run env t thread
    have hstopped := Traffic.tidy_perform hcalm htidy (.stop thread)
    refine ⟨n, Traffic.tidy_run hcalm hstopped _ hclosed, ?_⟩
    rw [Journal.callsTo_eq, Journal.callsTo_eq, hover]

theorem called_as_often_as_listed_swap : ∃ runner,
    Runner.start {} { strategy := .immediate, poolSize := 1, heading := "",
                      appenders := [⟨"a", .info, 0⟩] } = .running runner ∧
      let t := Traffic.perform {} { runner }
        (.update { heading := "", appenders := [⟨"b", .trace, 1⟩] })
      t.runner.handles = [⟨"b", .trace, 1⟩] ∧
        t.runner.journal.callsTo 0 = [.start, .flush, .dispose] := by
  obtain ⟨runner, hstart⟩ : ∃ runner,
      Runner.start {} { strategy := .immediate, poolSize := 1, heading := "",
                        appenders := [⟨"a", .info, 0⟩] } = .running runner := ⟨_, rfl⟩
  have hcalm : Environment.Calm {} := fun _ _ _ _ hreply => by cases hreply
  obtain ⟨-, hbegun, hturns⟩ := called_as_often_as_listed hcalm hstart 0
  obtain ⟨hturn, -⟩ := hturns []
  obtain ⟨hhandles, calls, hcalls, -, -, hleaves⟩ :=
    hturn (.update { heading := "", appenders := [⟨"b", .trace, 1⟩] })
  refine ⟨runner, hstart, ?_⟩
  cases hstart
  refine ⟨hhandles, ?_⟩
  rcases hleaves (by decide) rfl with rfl | ⟨lines, -, rfl⟩
  · exact hcalls
  · rfl

/-- An appender that is listed twice hears everything twice: a disposal, and then more. -/
theorem listed_twice_disposed_twice : ∃ runner,
    Runner.start {} { strategy := .immediate, poolSize := 1, heading := "",
                      appenders := [⟨"a", .trace, 0⟩, ⟨"a", .warn, 0⟩] } = .running runner ∧
      runner.journal.callsTo 0 = [.start, .start] ∧
      (runner.update {} { heading := "" }).1.journal.callsTo 0 =
        [.start, .start, .flush, .dispose, .flush, .dispose] ∧
      (runner.shutdown {} "main").1.journal.callsTo 0 =
        [.start, .start, .flush, .flush, .dispose, .dispose] :=
  ⟨_, rfl, rfl, rfl, rfl⟩

end Logbook
