import Logbook.Proofs.Delivery.Lifecycle
set_option autoImplicit false

/-!
# How a worker ends when an appender breaks off

One appender may break off on any call, the others never do. A job that breaks off makes the worker
stop the runner and close the appenders; so does a shutdown, when everything was delivered. Either
way the appenders are asked to flush and then to be disposed in the order of the configuration, up
to the first call that breaks off again: who comes after that is left as it is. Only when the worker
broke off in an orderly end is the pool left as well.
-/
namespace Logbook

variable {env : Environment} {c : Config} {p : Nat}

/-- No appender breaks off but one, and that one may on any call. -/
def Environment.OnlyBreaks (env : Environment) (p : Nat) : Prop :=
  ∀ appender, appender ≠ p → ∀ earlier call reason,
    env.appenders appender earlier call ≠ .aborted reason

def BreaksOff (env : Environment) (p : Nat) (before plan made : List Request) : Prop :=
  ∃ earlier handle call rest reason, plan = earlier ++ (handle, call) :: rest ∧
    made = earlier ++ [(handle, call)] ∧ handle.appender = p ∧
    env.appenders p (callsOf p (before ++ earlier)) call = .aborted reason

/-- The requests made to close the appenders of some handles: the last lines, flushes and disposals,
all of them or those up to one that broke off. -/
inductive Closes (env : Environment) (p : Nat) (handles : List Handle) (before : List Request) :
    List Request → Bool → Prop where
  | whole {lines : List Request}
      (h : ∀ request ∈ lines, request.1 ∈ handles ∧ ∃ line, request.2 = .write line) :
      Closes env p handles before
        (lines ++ Outlet.callAll .flush handles ++ Outlet.callAll .dispose handles) false
  | cut {lines closing : List Request}
      (h : ∀ request ∈ lines, request.1 ∈ handles ∧ ∃ line, request.2 = .write line)
      (hcut : BreaksOff env p before
        (lines ++ Outlet.callAll .flush handles ++ Outlet.callAll .dispose handles) closing) :
      Closes env p handles before closing true

theorem BreaksOff.subset {before plan made : List Request} (h : BreaksOff env p before plan made) :
    made ⊆ plan := by
  obtain ⟨earlier, handle, call, rest, reason, rfl, rfl, -⟩ := h
  intro request hrequest
  rcases List.mem_append.mp hrequest with hearly | hlast
  · exact List.mem_append_left _ hearly
  · exact List.mem_append_right _ (List.mem_singleton.mp hlast ▸ List.mem_cons_self)

theorem Worked.Makes.breaksOff {j : Journal} {w : Worked} {plan : List Request}
    (h : w.Makes env j plan) {reason : String} (hbroken : w.aborted = some reason) :
    ∃ p made, w.journal.requests = j.requests ++ made ∧ BreaksOff env p j.requests plan made := by
  obtain ⟨earlier, handle, call, rest, hplan, hmade, hreply⟩ :=
    Journal.requests_perform_of_some env.appenders (h.aborted_eq.symm.trans hbroken)
  refine ⟨handle.appender, _, by rw [h.journal_eq, hmade], earlier, handle, call, rest, reason,
    hplan, rfl, rfl, ?_⟩
  rw [callsOf_append, ← Journal.callsTo_eq]
  exact hreply

theorem Environment.OnlyBreaks.eq_of_breaksOff (honly : env.OnlyBreaks p) {q : Nat}
    {before plan made : List Request} (h : BreaksOff env q before plan made) : q = p := by
  obtain ⟨earlier, handle, call, rest, reason, -, -, -, hreply⟩ := h
  by_contra hne
  exact honly q hne _ _ _ hreply

theorem Outlet.close_closes (env : Environment) (o : Outlet) (thread : String) (dropped : Nat)
    (j : Journal) :
    ∃ p closing, (o.close env thread dropped j).journal.requests = j.requests ++ closing ∧
      Closes env p o.handles j.requests closing (o.close env thread dropped j).aborted.isSome := by
  have hlines : ∀ request ∈ o.noticeRequests env j thread dropped,
      request.1 ∈ o.handles ∧ ∃ line, request.2 = .write line :=
    fun _ h => o.write_of_mem_noticeRequests env j thread dropped h
  have hmakes := o.close_makes env j thread dropped
  cases haborted : (o.close env thread dropped j).aborted with
  | none => exact ⟨0, _, hmakes.made haborted, .whole hlines⟩
  | some reason =>
    obtain ⟨p, closing, hmade, hcut⟩ := hmakes.breaksOff haborted
    exact ⟨p, closing, hmade, .cut hlines hcut⟩

theorem Closes.of_only (honly : env.OnlyBreaks p) {q : Nat} {handles : List Handle}
    {before closing : List Request} {broke : Bool}
    (h : Closes env q handles before closing broke) : Closes env p handles before closing broke := by
  cases h with
  | whole hlines => exact .whole hlines
  | cut hlines hcut => exact .cut hlines (honly.eq_of_breaksOff hcut ▸ hcut)

theorem Job.dispose_mem_requests {job : Job} (hclose : ∀ dropped, job ≠ .close dropped) {o : Outlet}
    {j : Journal} {request : Request} (hrequest : request ∈ job.requests env o j) (hcall : request.2 = .dispose) :
    ∃ a, job = .change a := by
  cases job with
  | deliver record => exact absurd hcall (o.serves_lineRequests env hrequest).2.2
  | flush dropped => exact absurd hcall (o.serves_flushRequests env j _ dropped hrequest).2.2
  | change a => exact ⟨a, rfl⟩
  | close dropped => exact absurd rfl (hclose dropped)

/-- A job that breaks off leaves the appenders that it found. -/
theorem Job.handles_work_of_broken {job : Job} (hclose : ∀ dropped, job ≠ .close dropped)
    {o : Outlet} {j : Journal} {reason : String}
    (h : (job.work env o j).aborted = some reason) :
    (job.work env o j).outlet.handles = o.handles := by
  cases job with
  | deliver record => exact o.handles_deliver env j record
  | flush dropped => exact o.handles_flush env j _ dropped
  | change a => exact o.handles_change_of_broken env j h
  | close dropped => exact absurd rfl (hclose dropped)

/-! ## Before the end -/

structure Background.Tended (c : Config) (r : Background) : Prop where
  stopping : r.stage = .stopping → r.stock.running = false
  refusing : r.stock.running = false → r.accepting = false
  capacity_eq : r.stock.pool.capacity = c.poolSize
  live : AllLive r.outlet.handles r.journal.requests

namespace Background

variable {r s : Background}

theorem Tended.start (hstart : start env c = .running r) : r.Tended c := by
  obtain ⟨-, hstage, hstock, -⟩ := start_running hstart
  obtain ⟨hhandles, hrequests⟩ := start_requests hstart
  refine ⟨fun hstopping => ?_, fun hrunning => ?_, ?_, ?_⟩
  · cases hstage.symm.trans hstopping
  · rw [hstock] at hrunning
    cases hrunning
  · rw [hstock]
    simp [Stock.create, Pool.ofList]
  · rw [hhandles, hrequests]
    exact allLive_start _

theorem Tended.between (h : r.Tended c) (hbetween : r.Between s) : s.Tended c where
  stopping hstopping :=
    (hbetween.stopped (h.stopping (hbetween.stage_eq.symm.trans hstopping))).1
  refusing := hbetween.refusing h.refusing
  capacity_eq := hbetween.capacity_eq.trans h.capacity_eq
  live := by
    rw [hbetween.outlet_eq, hbetween.journal_eq]
    exact h.live

theorem Tended.step (h : r.Tended c) (halive : ∀ lost, r.stage ≠ .ended lost)
    (halive' : ∀ lost, (r.step env).stage ≠ .ended lost) : (r.step env).Tended c := by
  have hgoes := r.step_goes env halive
  generalize r.step env = s at hgoes halive'
  cases hgoes with
  | on hdone hmade _ hstopping hrunning haccepting hcapacity =>
    refine ⟨fun hstage => hrunning.trans (hstopping hstage), fun hstopped => ?_,
      hcapacity.trans h.capacity_eq, ?_⟩
    · rw [haccepting]
      exact h.refusing (hrunning.symm.trans hstopped)
    · cases hjob : r.job? with
      | none =>
        rw [hjob] at hmade
        obtain ⟨houtlet, hjournal⟩ := Prod.mk.inj hmade
        rw [houtlet, hjournal]
        exact h.live
      | some job =>
        rw [hjob] at hmade
        obtain ⟨houtlet, hjournal⟩ := Prod.mk.inj hmade
        have hwork := hdone job hjob
        rw [houtlet, hjournal]
        have hlive := (job.asks env r.outlet r.journal).allLive h.live
        rw [← (job.makes env r.outlet r.journal).made hwork, ← Job.handles_work hwork] at hlive
        exact hlive
  | fails => exact absurd rfl (halive' false)
  | closes => exact absurd (r.finish_eq env).1 (halive' _)

end Background

theorem Traffic.run_background {start : Background}
    (hstart : Background.start env c = .running start) (acts : List Act) :
    ∃ r, (Traffic.run env { runner := .background start } acts).runner = .background r ∧
      ((∀ lost, r.stage ≠ .ended lost) → r.Tended c) ∧
      ∀ lost, r.stage = .ended lost → ∃ earlier later last, acts = earlier ++ .work :: later ∧
        (Traffic.run env { runner := .background start } earlier).runner = .background last ∧
        (∀ lost, last.stage ≠ .ended lost) ∧ last.Tended c ∧ (last.step env).Between r := by
  induction acts using List.reverseRecOn with
  | nil =>
    refine ⟨start, rfl, fun _ => .start hstart, fun lost hended => ?_⟩
    cases (Background.start_running hstart).2.1.symm.trans hended
  | append_singleton acts act ih =>
    obtain ⟨r, hrunner, htended, hended⟩ := ih
    rw [run_append]
    -- the worker had ended before the last turn, and nothing that matters was done since
    have hlater {s : Background} (hbetween : r.Between s) {lost : Bool}
        (hstage : s.stage = .ended lost) : ∃ earlier later last,
        acts ++ [act] = earlier ++ .work :: later ∧
        (Traffic.run env { runner := .background start } earlier).runner = .background last ∧
        (∀ lost, last.stage ≠ .ended lost) ∧ last.Tended c ∧ (last.step env).Between s := by
      obtain ⟨earlier, later, last, rfl, hlast, halive, hlastTended, hfrom⟩ :=
        hended lost (hbetween.stage_eq.symm.trans hstage)
      exact ⟨earlier, later ++ [act], last, by simp, hlast, halive, hlastTended,
        hfrom.trans hbetween⟩
    by_cases hact : act = .work
    · subst hact
      refine ⟨r.step env, perform_work env hrunner, ?_⟩
      by_cases halive : ∀ lost, r.stage ≠ .ended lost
      · refine ⟨(htended halive).step halive, fun lost _ => ?_⟩
        exact ⟨acts, [], r, rfl, hrunner, halive, htended halive, .refl _⟩
      · obtain ⟨lost, hstage⟩ := not_forall_not.mp halive
        rw [Background.step_ended hstage]
        exact ⟨htended, fun lost hstage => hlater (.refl r) hstage⟩
    · obtain ⟨s, hperform, hbetween⟩ := perform_background env hrunner hact
      refine ⟨s, hperform, fun halive => ?_, fun lost hstage => hlater hbetween hstage⟩
      refine (htended fun lost hstage => halive lost ?_).between hbetween
      exact hbetween.stage_eq.trans hstage

/-! ## The end -/

def Pool.IsDisposed {α : Type} (pool : Pool α) : Prop := pool.items = [] ∧ pool.capacity = 0

theorem Config.poolSize_ne_zero_of_start {r : Background}
    (hstart : Background.start env c = .running r) : c.poolSize ≠ 0 := by
  intro hzero
  rw [Background.start, arrange, if_pos hzero] at hstart
  cases hstart

/-- The requests of a worker that ends with its next step: those of a job that broke off, if one
did, and those that close the appenders. -/
structure Background.Ends (env : Environment) (p : Nat) (r : Background) (lost : Bool)
    (broken closing : List Request) (broke : Bool) : Prop where
  requests_eq : (r.step env).journal.requests = r.journal.requests ++ broken ++ closing
  cause : r.stage = .stopping ∧ broken = [] ∧ lost = broke ∨
    lost = false ∧ ∃ job, r.job? = some job ∧
      BreaksOff env p r.journal.requests (job.requests env r.outlet r.journal) broken
  closes : Closes env p r.outlet.handles (r.journal.requests ++ broken) closing broke
  disposed : (∃ request ∈ broken, request.2 = .dispose) → ∃ a, r.job? = some (.change a)

/-- A step with which a worker ends, whatever the appenders answer: its job broke off or all is
delivered, and then the appenders are closed. -/
theorem Background.step_closes {r : Background} (h : r.Tended c)
    (halive : ∀ lost, r.stage ≠ .ended lost) {lost : Bool}
    (hended : (r.step env).stage = .ended lost) :
    (r.step env).stock.running = false ∧ (r.step env).accepting = false ∧
      (r.step env).stock.pool = (if lost then r.stock.pool else r.stock.pool.dispose) ∧
      ∃ broken closing broke p q,
        (r.step env).journal.requests = r.journal.requests ++ broken ++ closing ∧
        ((r.stage = .stopping ∧ r.queue = []) ∧ broken = [] ∧ lost = broke ∨
          lost = false ∧ ∃ job, r.job? = some job ∧ (∀ dropped, job ≠ .close dropped) ∧
            BreaksOff env p r.journal.requests (job.requests env r.outlet r.journal) broken) ∧
        Closes env q r.outlet.handles (r.journal.requests ++ broken) closing broke := by
  have hgoes := r.step_goes env halive
  generalize hstep : r.step env = s at hgoes hended
  cases hgoes with
  | on _ _ halive' => exact absurd hended (halive' lost)
  | @fails s job reason hjob hopen hbroken houtlet hjournal hpool =>
    obtain ⟨hstage, hrunning, haccepting, hdisposed, hrequests⟩ := s.fail_eq env reason
    cases hstage.symm.trans hended
    have hclose := r.job?_ne_close hopen hjob
    obtain ⟨p, broken, hmade, hcut⟩ := (job.makes env r.outlet r.journal).breaksOff hbroken
    obtain ⟨q, closing, hclosed, hcloses⟩ := s.outlet.close_closes env workerThread
      s.stock.dropped (s.journal.add (.workerFailed reason))
    have hbefore : (s.journal.add (.workerFailed reason)).requests =
        r.journal.requests ++ broken := by
      rw [← hmade, ← hjournal]
      exact (Journal.requests_add _ _).trans (List.append_nil _)
    rw [hbefore] at hclosed hcloses
    rw [houtlet, Job.handles_work_of_broken hclose hbroken] at hcloses
    exact ⟨hrunning, haccepting, hdisposed.trans (congrArg Pool.dispose hpool), broken, closing, _,
      p, q, hrequests.trans hclosed, .inr ⟨rfl, job, hjob, hclose, hcut⟩, hcloses⟩
  | closes hstage hqueue =>
    obtain ⟨hlost, hrunning, haccepting, hpool, -, hjournal⟩ := r.finish_eq env
    cases hlost.symm.trans hended
    have hstopped := h.stopping hstage
    obtain ⟨q, closing, hclosed, hcloses⟩ :=
      r.outlet.close_closes env workerThread r.stock.dropped r.journal
    refine ⟨hrunning.trans hstopped, haccepting.trans (h.refusing hstopped), hpool, [], closing, _,
      0, q, ?_, .inl ⟨⟨hstage, hqueue⟩, rfl, rfl⟩, ?_⟩
    · rw [hjournal, hclosed, List.append_nil]
    · rw [List.append_nil]
      exact hcloses

theorem Background.step_ends (honly : env.OnlyBreaks p) {r : Background} (h : r.Tended c)
    (halive : ∀ lost, r.stage ≠ .ended lost) {lost : Bool}
    (hended : (r.step env).stage = .ended lost) :
    (r.step env).stock.running = false ∧ (r.step env).accepting = false ∧
      (r.step env).stock.pool = (if lost then r.stock.pool else r.stock.pool.dispose) ∧
      ∃ broken closing broke, r.Ends env p lost broken closing broke := by
  obtain ⟨hrunning, haccepting, hpool, broken, closing, broke, q, q', hrequests, hcause, hcloses⟩ :=
    step_closes h halive hended
  refine ⟨hrunning, haccepting, hpool, broken, closing, broke, hrequests, ?_, hcloses.of_only honly,
    ?_⟩
  · rcases hcause with ⟨⟨hstage, -⟩, hnone, hlost⟩ | ⟨hlost, job, hjob, -, hcut⟩
    · exact .inl ⟨hstage, hnone, hlost⟩
    · exact .inr ⟨hlost, job, hjob, honly.eq_of_breaksOff hcut ▸ hcut⟩
  · rintro ⟨request, hrequest, hcall⟩
    rcases hcause with ⟨-, rfl, -⟩ | ⟨-, job, hjob, hclose, hcut⟩
    · cases hrequest
    · obtain ⟨a, rfl⟩ := Job.dispose_mem_requests hclose (hcut.subset hrequest) hcall
      exact ⟨a, hjob⟩

/-- An appender that was live when its worker came to the end, and that all calls reached, was
flushed after its last line and disposed after that, once for each time it was listed. -/
theorem Closes.calls_of_whole {handles : List Handle} {before broken closing : List Request}
    (h : Closes env p handles (before ++ broken) closing false) {appender : Nat}
    (hlive : Live (callsOf appender before)) (hbroken : .dispose ∉ callsOf appender broken) :
    ∃ earlier served, callsOf appender (before ++ broken ++ closing) =
        earlier ++ .start :: served ++ List.replicate (listed appender handles) .flush ++
          List.replicate (listed appender handles) .dispose ∧
      .dispose ∉ served := by
  cases h with
  | @whole lines hlines =>
    have hwritten : .dispose ∉ callsOf appender lines := by
      refine dispose_notMem_callsOf (fun request hrequest => ?_) appender
      obtain ⟨-, line, hline⟩ := hlines request hrequest
      rw [hline]
      exact Call.noConfusion
    obtain ⟨earlier, served, hsplit, hserved⟩ := (hlive.append hbroken).append hwritten
    refine ⟨earlier, served, ?_, hserved⟩
    rw [callsOf_append, callsOf_append, callsOf_append, callsOf_append, callsOf_callAll,
      callsOf_callAll, ← List.append_assoc, ← List.append_assoc, hsplit]

/-- However a worker comes to its end, and a shutdown makes it: the runner is stopped and takes no
configuration. The pool is gone unless the one appender that breaks off did so in an orderly end.
A job that broke off, at most one, was a change if it disposed an appender. Then the appenders were
closed, and if no call broke off again, each appender of the configuration that the broken job had
not disposed was flushed after its last line and disposed for good, once for every time it is
listed. If a call broke off again, the appenders got the calls before that one, and no more. -/
theorem worker_ends (honly : env.OnlyBreaks p) {start : Background}
    (hstart : Background.start env c = .running start) (acts : List Act) :
    ∃ r, (Traffic.run env { runner := .background start } acts).runner = .background r ∧
      (∃ lost, (r.shutdown env).stage = .ended lost) ∧
      ∀ lost, r.stage = .ended lost →
        r.stock.running = false ∧ r.accepting = false ∧ (r.stock.pool.IsDisposed ↔ lost = false) ∧
        ∃ earlier later last broken closing broke, acts = earlier ++ .work :: later ∧
          (Traffic.run env { runner := .background start } earlier).runner = .background last ∧
          last.Ends env p lost broken closing broke ∧
          r.journal.requests = last.journal.requests ++ broken ++ closing ∧
          ∀ appender, 0 < listed appender last.outlet.handles → broke = false →
            .dispose ∉ callsOf appender broken →
            ∃ before served, r.journal.callsTo appender =
                before ++ .start :: served ++
                  List.replicate (listed appender last.outlet.handles) .flush ++
                  List.replicate (listed appender last.outlet.handles) .dispose ∧
              .dispose ∉ served := by
  obtain ⟨r, hrunner, -, hends⟩ := Traffic.run_background hstart acts
  refine ⟨r, hrunner, r.shutdown_ended env, fun lost hstage => ?_⟩
  obtain ⟨earlier, later, last, hacts, hlast, halive, htended, hbetween⟩ := hends lost hstage
  have hended : (last.step env).stage = .ended lost := hbetween.stage_eq.symm.trans hstage
  obtain ⟨hrunning, haccepting, hpool, broken, closing, broke, hend⟩ :=
    last.step_ends honly htended halive hended
  obtain ⟨hstopped, hkept⟩ := hbetween.stopped hrunning
  have hrequests : r.journal.requests = last.journal.requests ++ broken ++ closing := by
    rw [hbetween.journal_eq, hend.requests_eq]
  refine ⟨hstopped, hbetween.refusing (fun _ => haccepting) hstopped, ?_, earlier, later, last,
    broken, closing, broke, hacts, hlast, hend, hrequests, ?_⟩
  · rw [hkept, hpool]
    cases lost with
    | false => exact ⟨fun _ => rfl, fun _ => ⟨rfl, rfl⟩⟩
    | true =>
      refine ⟨fun hdisposed => ?_, fun h => by cases h⟩
      exact absurd (htended.capacity_eq.symm.trans hdisposed.2)
        (Config.poolSize_ne_zero_of_start hstart)
  · intro appender hlisted hwhole hspared
    obtain ⟨handle, hhandle, hsame⟩ : ∃ handle ∈ last.outlet.handles,
        handle.appender = appender := by
      obtain ⟨handle, hhandle, hsame⟩ := List.countP_pos_iff.mp hlisted
      exact ⟨handle, hhandle, of_decide_eq_true hsame⟩
    have hlive := htended.live handle hhandle
    have hcloses := hend.closes
    rw [hsame] at hlive
    rw [hwhole] at hcloses
    rw [Journal.callsTo_eq, hrequests]
    exact hcloses.calls_of_whole hlive hspared

def Call.isWrite : Call → Bool
  | .write _ => true
  | _ => false

def Environment.breakingOn (breaks : Call → Bool) : Environment where
  appenders appender _ call := if appender = 0 ∧ breaks call = true then .aborted "full" else .ok

theorem Environment.onlyBreaks_breakingOn (breaks : Call → Bool) :
    (breakingOn breaks).OnlyBreaks 0 := by
  intro appender hne earlier call reason hreply
  have hok : (breakingOn breaks).appenders appender earlier call = .ok := if_neg fun h => hne h.1
  cases hok.symm.trans hreply

theorem worker_ends_after_write : ∃ start,
    Background.start (.breakingOn Call.isWrite) { poolSize := 2, heading := "",
                                                  appenders := [⟨"full", .trace, 0⟩,
                                                    ⟨"kept", .trace, 1⟩] } = .running start ∧
      ∃ r, (Traffic.run (.breakingOn Call.isWrite) { runner := .background start }
          [.acquire, .submit 0 "main", .settle 0, .work]).runner = .background r ∧
        r.stock.running = false ∧ r.stock.pool.IsDisposed ∧
        r.journal.callsTo 1 = [.start, .flush, .dispose] := by
  obtain ⟨start, hstart, r, hrunner, hstage, hcalls⟩ : ∃ start,
      Background.start (.breakingOn Call.isWrite) { poolSize := 2, heading := "",
                                                    appenders := [⟨"full", .trace, 0⟩,
                                                      ⟨"kept", .trace, 1⟩] } = .running start ∧
        ∃ r, (Traffic.run (.breakingOn Call.isWrite) { runner := .background start }
            [.acquire, .submit 0 "main", .settle 0, .work]).runner = .background r ∧
          r.stage = .ended false ∧ r.journal.callsTo 1 = [.start, .flush, .dispose] :=
    ⟨_, rfl, _, rfl, rfl, rfl⟩
  obtain ⟨r', hrunner', -, hends⟩ := worker_ends (Environment.onlyBreaks_breakingOn _) hstart
    [.acquire, .submit 0 "main", .settle 0, .work]
  obtain rfl : r = r' := Runner.background.inj (hrunner.symm.trans hrunner')
  obtain ⟨hrunning, -, hdisposed, -⟩ := hends false hstage
  exact ⟨start, hstart, r, hrunner, hrunning, hdisposed.mpr rfl, hcalls⟩

/-- An appender that breaks off when it is disposed in an orderly end: the one listed after it is
not disposed, and the pool is kept. -/
theorem lost_worker_keeps_pool :
    let env := Environment.breakingOn fun call => call = .dispose
    let c : Config := { poolSize := 2, heading := "",
                        appenders := [⟨"full", .trace, 0⟩, ⟨"kept", .trace, 1⟩] }
    ∃ start, Background.start env c = .running start ∧
      ∃ r, (Traffic.run env { runner := .background start }
          [.stop "main", .work, .work, .work]).runner = .background r ∧
        r.stage = .ended true ∧ ¬ r.stock.pool.IsDisposed ∧
        r.journal.callsTo 1 = [.start, .flush] := by
  refine ⟨_, rfl, _, rfl, rfl, ?_, rfl⟩
  rintro ⟨-, hcapacity⟩
  cases hcapacity

end Logbook
