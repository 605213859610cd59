import Logbook.Proofs.Delivery.Producers
import Logbook.Proofs.Delivery.Shutdown
import Logbook.Proofs.Line.Reuse
set_option autoImplicit false

/-!
# Both strategies deliver the same lines

As long as no configuration changes and no dropped event is reported, what an outlet has written is
the lines of the records that it delivered, in order, each to the handles whose level it reaches.
Delivery by the submitting thread has delivered all that was submitted. A worker is behind by its
queue, and has caught up when it closes the appenders.
-/
namespace Logbook

variable {env : Environment} {c : Config} {a : Arrangement}

/-! ## Lines -/

def Call.line? : Call → Option Line
  | .write line => some line
  | _ => none

def linesTo (appender : Nat) (requests : List Request) : List Line :=
  (callsOf appender requests).filterMap Call.line?

/-- What an appender is to get of some lines: each line once for every handle of it whose level the
line reaches. -/
def linesFor (appender : Nat) (handles : List Handle) (lines : List Line) : List Line :=
  lines.flatMap fun line =>
    List.replicate (listed appender (handles.filter fun handle => handle.minLevel ≤ line.level))
      line

def Arrangement.line (a : Arrangement) (env : Environment) (record : Record) : Line :=
  ((Outlet.create a).formatter.format env.registry record).1

section Lines

variable (appender : Nat)

@[simp] theorem linesTo_append (first rest : List Request) :
    linesTo appender (first ++ rest) = linesTo appender first ++ linesTo appender rest := by
  rw [linesTo, callsOf_append, List.filterMap_append, linesTo, linesTo]

theorem linesTo_callAll {call : Call} (hcall : call.line? = none) (handles : List Handle) :
    linesTo appender (Outlet.callAll call handles) = [] := by
  rw [linesTo, callsOf_callAll, List.filterMap_eq_nil_iff]
  intro other hother
  rw [List.eq_of_mem_replicate hother, hcall]

theorem linesTo_lineCalls (handles : List Handle) (line : Line) :
    linesTo appender (Outlet.lineCalls handles line) = linesFor appender handles [line] := by
  have hline : (Call.write line).line? = some line := rfl
  rw [linesTo, Outlet.lineCalls, callsOf_callAll, List.filterMap_replicate_of_some hline, linesFor,
    List.flatMap_singleton]

theorem linesFor_append (handles : List Handle) (first rest : List Line) :
    linesFor appender handles (first ++ rest) =
      linesFor appender handles first ++ linesFor appender handles rest :=
  List.flatMap_append

end Lines

theorem Line.Formatter.format_recycled {f : Formatter} (h : f.fields.Recycled) (registry : Registry)
    (record : Record) : (f.format registry record).1 =
      (({ f with fields := {} } : Formatter).format registry record).1 := by
  simp only [format]
  rw [write_recycled h]

theorem Arrangement.line_eq_of_alike {record record' : Record} (h : record.Alike record') :
    a.line env record = a.line env record' :=
  Line.Formatter.format_eq_of_alike h _ _

/-! ## What an outlet has written -/

structure Delivered (env : Environment) (a : Arrangement) (records : List Record) (o : Outlet)
    (requests : List Request) : Prop where
  fields : ∃ fields, fields.Recycled ∧
    o.formatter = { heading := a.heading, settings := a.settings, fields }
  handles_eq : o.handles = a.handles
  lines_eq : ∀ appender,
    linesTo appender requests = linesFor appender a.handles (records.map (a.line env))
  undisposed : ∀ request ∈ requests, request.2 ≠ .dispose

def Finished (env : Environment) (a : Arrangement) (records : List Record)
    (requests : List Request) : Prop :=
  ∃ before, requests =
      before ++ Outlet.callAll .flush a.handles ++ Outlet.callAll .dispose a.handles ∧
    (∀ appender, linesTo appender before = linesFor appender a.handles (records.map (a.line env))) ∧
    ∀ request ∈ before, request.2 ≠ .dispose

theorem Outlet.flush_none (o : Outlet) (env : Environment) (thread : String) (j : Journal) :
    (o.flush env thread 0 j).outlet = o ∧
      (o.flush env thread 0 j).Makes env j (callAll .flush o.handles) :=
  ⟨rfl, o.flush_makes env j thread 0⟩

theorem Outlet.close_none (o : Outlet) (env : Environment) (thread : String) (j : Journal) :
    (o.close env thread 0 j).Makes env j (callAll .flush o.handles ++ callAll .dispose o.handles) :=
  o.close_makes env j thread 0

namespace Delivered

variable {records : List Record} {o : Outlet} {j : Journal}

theorem create : Delivered env a [] (Outlet.create a) (Outlet.callAll .start a.handles) where
  fields := ⟨{}, .new, rfl⟩
  handles_eq := rfl
  lines_eq appender := linesTo_callAll appender rfl a.handles
  undisposed request hrequest := by
    obtain ⟨handle, -, rfl⟩ := List.mem_map.mp hrequest
    exact Call.noConfusion

/-- A formatter that was used before makes the same line. -/
theorem lineRequests_eq {requests : List Request} (h : Delivered env a records o requests)
    (record : Record) :
    o.lineRequests env record = Outlet.lineCalls a.handles (a.line env record) := by
  obtain ⟨fields, hfields, hformatter⟩ := h.fields
  have hline : (o.formatter.format env.registry record).1 = a.line env record := by
    rw [hformatter]
    exact Line.Formatter.format_recycled
      (f := { heading := a.heading, settings := a.settings, fields }) hfields env.registry record
  rw [Outlet.lineRequests, hline, h.handles_eq]

theorem extend {requests more : List Request} (h : Delivered env a records o requests)
    {o' : Outlet} (hfields : ∃ fields, fields.Recycled ∧
      o'.formatter = { heading := a.heading, settings := a.settings, fields })
    (hhandles : o'.handles = o.handles) {further : List Record}
    (hlines : ∀ appender,
      linesTo appender more = linesFor appender a.handles (further.map (a.line env)))
    (hmore : ∀ request ∈ more, request.2 ≠ .dispose) :
    Delivered env a (records ++ further) o' (requests ++ more) where
  fields := hfields
  handles_eq := hhandles.trans h.handles_eq
  lines_eq appender := by
    rw [linesTo_append, h.lines_eq, hlines, List.map_append, linesFor_append]
  undisposed request hrequest :=
    (List.mem_append.mp hrequest).elim (h.undisposed request) (hmore request)

variable (hcalm : env.Calm)
include hcalm

theorem deliver (h : Delivered env a records o j.requests) (record : Record) :
    Delivered env a (records ++ [record]) (o.deliver env j record).outlet
      (o.deliver env j record).journal.requests := by
  have hmade := (o.deliver_makes env j record).made (o.deliver_calm hcalm j record)
  rw [h.lineRequests_eq record] at hmade
  rw [hmade]
  refine h.extend ?_ (o.handles_deliver env j record)
    (fun appender => linesTo_lineCalls appender a.handles (a.line env record)) ?_
  · obtain ⟨fields, hfields, hformatter⟩ := h.fields
    rw [Outlet.deliver]
    split
    · exact ⟨fields, hfields, hformatter⟩
    · refine ⟨_, Line.Formatter.recycled_write
        (f := { heading := a.heading, settings := a.settings, fields }) hfields env.registry
        record, ?_⟩
      rw [hformatter]
      rfl
  · intro request hrequest
    obtain ⟨-, line, hline⟩ := Outlet.write_of_mem_lineCalls hrequest
    rw [hline]
    exact Call.noConfusion

theorem flush (h : Delivered env a records o j.requests) (thread : String) :
    Delivered env a records (o.flush env thread 0 j).outlet
      (o.flush env thread 0 j).journal.requests := by
  obtain ⟨houtlet, hmakes⟩ := o.flush_none env thread j
  rw [houtlet, hmakes.made (o.flush_calm hcalm j thread 0)]
  have hextended : Delivered env a (records ++ []) o
      (j.requests ++ Outlet.callAll .flush o.handles) := by
    refine h.extend h.fields rfl (fun appender => linesTo_callAll appender rfl o.handles) ?_
    intro request hrequest
    obtain ⟨handle, -, rfl⟩ := List.mem_map.mp hrequest
    exact Call.noConfusion
  rwa [List.append_nil] at hextended

theorem close (h : Delivered env a records o j.requests) (thread : String) :
    Finished env a records (o.close env thread 0 j).journal.requests := by
  refine ⟨j.requests, ?_, h.lines_eq, h.undisposed⟩
  rw [(o.close_none env thread j).made (o.close_calm hcalm j thread 0), h.handles_eq,
    List.append_assoc]

end Delivered

/-! ## Runners -/

variable {records : List Record}

structure Background.Behind (env : Environment) (a : Arrangement) (records : List Record)
    (r : Background) : Prop where
  delivered : ∃ delivered, records = delivered ++ r.queue ∧
    Delivered env a delivered r.outlet r.journal.requests
  unreported : r.stock.dropped = 0
  unpublished : r.published = none
  alive : ∀ lost, r.stage ≠ .ended lost

def Runner.Delivers (env : Environment) (a : Arrangement) (records : List Record) : Runner → Prop
  | .immediate r => ∃ o, r.outlet = some o ∧ Delivered env a records o r.journal.requests ∧
      r.stock.dropped = 0
  | .background r => r.Behind env a records

theorem Runner.Delivers.withStock {runner : Runner} (h : runner.Delivers env a records)
    {stock : Stock} (hdropped : stock.dropped = runner.stock.dropped) :
    (runner.withStock stock).Delivers env a records := by
  cases runner with
  | immediate r =>
    obtain ⟨o, houtlet, hdelivered, hnone⟩ := h
    exact ⟨o, houtlet, hdelivered, hdropped.trans hnone⟩
  | background r =>
    have hbehind : r.Behind env a records := h
    exact { hbehind with unreported := hdropped.trans hbehind.unreported }

section Calm

variable (hcalm : env.Calm)
include hcalm

theorem Immediate.submit_delivers {r : Immediate}
    (h : (Runner.immediate r).Delivers env a records) (thread : String) (record : Record) :
    (Runner.immediate (r.submit env thread record).1).Delivers env a (records ++ [record]) := by
  obtain ⟨stock, outlet, journal⟩ := r
  obtain ⟨o, houtlet, hdelivered, hnone⟩ := h
  cases houtlet
  have hwritten := (hdelivered.deliver hcalm record).flush hcalm thread
  have hdropped : stock.dropped = 0 := hnone
  rw [Immediate.submit_calm hcalm]
  refine ⟨_, rfl, ?_, rfl⟩
  simp only [giveBack, write, hdropped]
  exact hwritten

theorem Immediate.shutdown_finishes {r : Immediate}
    (h : (Runner.immediate r).Delivers env a records) (thread : String) :
    Finished env a records (r.shutdown env thread).1.journal.requests := by
  obtain ⟨stock, outlet, journal⟩ := r
  obtain ⟨o, houtlet, hdelivered, hnone⟩ := h
  cases houtlet
  have hclosed := hdelivered.close hcalm thread
  have hdropped : stock.dropped = 0 := hnone
  simp only [shutdown, Stock.stop, Stock.takeDropped, hdropped]
  exact hclosed

namespace Background

variable {r : Background}

theorem useTurn_behind (h : r.Behind env a records) : (r.useTurn env).Behind env a records := by
  obtain ⟨delivered, hrecords, hdelivered⟩ := h.delivered
  rw [useTurn]
  generalize r.phase.turn r.published.isSome = turned
  obtain ⟨turn, phase⟩ := turned
  have hready : ∀ lost, Stage.ready ≠ .ended lost := fun _ => Stage.noConfusion
  cases turn with
  | flush =>
    have hflush := hdelivered.flush hcalm workerThread
    have hdone := r.outlet.flush_calm hcalm r.journal workerThread 0
    simp only [flush, Stock.takeDropped, h.unreported, resume, hdone]
    exact ⟨⟨delivered, hrecords, hflush⟩, rfl, h.unpublished, hready⟩
  | change =>
    simp only [change, h.unpublished]
    exact ⟨⟨delivered, hrecords, hdelivered⟩, h.unreported, rfl, hready⟩
  | rest => exact ⟨⟨delivered, hrecords, hdelivered⟩, h.unreported, h.unpublished, hready⟩

theorem step_behind (h : r.Behind env a records) : (r.step env).Behind env a records ∨
    r.stage = .stopping ∧ (∃ lost, (r.step env).stage = .ended lost) ∧
      Finished env a records (r.step env).journal.requests := by
  obtain ⟨delivered, hrecords, hdelivered⟩ := h.delivered
  cases hstage : r.stage with
  | ready =>
    cases hqueue : r.queue with
    | nil =>
      rw [step_ready_nil hstage hqueue]
      exact .inl { h with alive := fun _ => Stage.noConfusion }
    | cons record rest =>
      rw [step_ready_cons hcalm hstage hqueue]
      refine .inl ⟨⟨delivered ++ [record], ?_, hdelivered.deliver hcalm record⟩, h.unreported,
        h.unpublished, fun _ => Stage.noConfusion⟩
      rw [hrecords, hqueue, List.append_assoc]
      rfl
  | delivered record =>
    rw [step_delivered hstage]
    exact .inl { h with alive := fun _ => Stage.noConfusion }
  | idle =>
    cases hrunning : r.stock.running with
    | true =>
      rw [step_idle hstage hrunning]
      exact .inl (useTurn_behind hcalm h)
    | false =>
      rw [step_idle_stopped hstage hrunning]
      exact .inl { h with alive := fun _ => Stage.noConfusion }
  | stopping =>
    cases hqueue : r.queue with
    | nil =>
      rw [step_stopping_nil hcalm hstage hqueue]
      refine .inr ⟨rfl, ⟨false, rfl⟩, ?_⟩
      rw [hqueue, List.append_nil] at hrecords
      have hclosed := hdelivered.close hcalm workerThread
      rw [← hrecords, ← h.unreported] at hclosed
      exact hclosed
    | cons record rest =>
      rw [step_stopping_cons hstage hqueue]
      exact .inl { h with alive := fun _ => Stage.noConfusion }
  | ended lost => exact absurd hstage (h.alive lost)

theorem steps_behind (h : r.Behind env a records) (fuel : Nat) :
    (steps env false fuel r).Behind env a records ∨
      Finished env a records (steps env false fuel r).journal.requests := by
  induction fuel generalizing r with
  | zero => exact .inl h
  | succ fuel ih =>
    rw [steps_succ]
    split
    · exact .inl h
    · rcases step_behind hcalm h with hbehind | ⟨-, ⟨lost, hended⟩, hfinished⟩
      · exact ih hbehind
      · -- a worker that has ended takes no more steps
        refine .inr ?_
        have hresting : (r.step env).isResting = true := by rw [isResting, hended]
        cases fuel with
        | zero => exact hfinished
        | succ fuel =>
          rw [steps_succ, if_pos hresting]
          exact hfinished

theorem shutdown_finishes (h : r.Behind env a records) :
    Finished env a records (r.shutdown env).journal.requests := by
  have hstop : r.stop.Behind env a records := { h with }
  obtain ⟨lost, hended⟩ := r.settle_stop_ended env
  rw [shutdown, requests_join]
  rcases steps_behind hcalm hstop r.stop.stepsToRest with hbehind | hfinished
  · exact absurd hended (hbehind.alive lost)
  · exact hfinished

end Background

theorem Runner.shutdown_finishes {runner : Runner} (h : runner.Delivers env a records)
    (thread : String) :
    Finished env a records (runner.shutdown env thread).1.journal.requests := by
  cases runner with
  | immediate r => exact Immediate.shutdown_finishes hcalm h thread
  | background r => exact Background.shutdown_finishes hcalm h

/-- What is submitted is delivered or queued, while requests for records are answered without
counting a dropped event. -/
theorem Traffic.move_delivers {t : Traffic} (hconserves : t.Conserves c)
    (h : t.runner.Delivers env a records) {m : Move} (hanswer : t.answer? m ≠ some .counted) :
    (t.move env m).runner.Delivers env a (records ++ (t.submission? m).toList) := by
  cases m with
  | acquire source level now thread =>
    have hrecords : records ++ (t.submission? (.acquire source level now thread)).toList =
        records := List.append_nil _
    rw [hrecords]
    rcases source.acquire_cases level now thread t.runner.stock with
      ⟨record, after, hlent, heq⟩ | ⟨acquisition, hrefused, heq⟩ | heq
    · rw [move_acquire_granted heq]
      refine h.withStock ?_
      rcases hlent with hlent | hmade
      · exact (t.runner.stock.tryAcquire_keeps hlent).2.2.2
      · rw [← (Prod.mk.inj hmade).2]
    · rw [move_acquire_refused heq (by rw [hrefused]; exact Answer.noConfusion)]
      exact h.withStock rfl
    · rw [answer?, heq] at hanswer
      exact absurd rfl hanswer
  | fill place ops => exact (List.append_nil records).symm ▸ h
  | submit place thread =>
    rw [move, submission?]
    cases hplace : t.held[place]? with
    | none => exact (List.append_nil records).symm ▸ h
    | some record =>
      have hrunning := hconserves.serves.stock.running
      cases hrunner : t.runner with
      | immediate r =>
        rw [hrunner] at h
        exact Immediate.submit_delivers hcalm h thread record
      | background r =>
        rw [hrunner] at h hrunning
        have hbehind : r.Behind env a records := h
        obtain ⟨delivered, hrecords, hdelivered⟩ := hbehind.delivered
        have hsubmit : r.submit record = { r with queue := r.queue ++ [record] } := by
          rw [Background.submit]
          exact if_pos hrunning
        change (r.submit record).Behind env a (records ++ [record])
        rw [hsubmit]
        exact { hbehind with
          delivered := ⟨delivered, by rw [hrecords, List.append_assoc], hdelivered⟩ }
  | work =>
    have hrecords : records ++ (t.submission? .work).toList = records := List.append_nil _
    rw [hrecords, move, perform]
    cases hrunner : t.runner with
    | immediate r => exact h
    | background r =>
      have hserves := hconserves.serves
      rw [hrunner] at h hserves
      -- the runner runs, so its worker does not end
      rcases Background.step_behind hcalm h with hbehind | ⟨hstopping, -⟩
      · exact hbehind
      · exact absurd hstopping hserves.2

theorem Traffic.moveAll_delivers {t : Traffic} (hconserves : t.Conserves c)
    (h : t.runner.Delivers env a records) {moves : List Move}
    (hanswers : .counted ∉ t.answers env moves) :
    (t.moveAll env moves).runner.Delivers env a (records ++ t.submissions env moves) := by
  induction moves generalizing t records with
  | nil => exact (List.append_nil records).symm ▸ h
  | cons m moves ih =>
    rw [answers, collect, List.mem_append, not_or] at hanswers
    obtain ⟨hfirst, hrest⟩ := hanswers
    have hanswer : t.answer? m ≠ some .counted := by
      intro hcounted
      rw [hcounted] at hfirst
      exact hfirst List.mem_cons_self
    rw [submissions, collect, ← List.append_assoc]
    exact ih (hconserves.move hcalm m) (move_delivers hcalm hconserves h hanswer) hrest

end Calm

theorem Runner.start_delivers (hcalm : env.Calm) (harrange : c.arrange = .ok a)
    (strategy : Strategy) :
    ∃ runner, start env { c with strategy } = .running runner ∧ runner.Delivers env a [] := by
  have harrange' : ({ c with strategy } : Config).arrange = .ok a := harrange
  have hdone : ((Outlet.create a).start env {}).aborted = none :=
    Outlet.perform_calm hcalm _ _ _
  have hcreated : Delivered env a [] ((Outlet.create a).start env {}).outlet
      ((Outlet.create a).start env {}).journal.requests := by
    rw [((Outlet.create a).start_makes env {}).made hdone]
    exact .create
  cases strategy with
  | immediate =>
    let r : Immediate := ⟨Stock.create { c with strategy := .immediate },
      some ((Outlet.create a).start env {}).outlet, ((Outlet.create a).start env {}).journal⟩
    have hstart : Immediate.start env { c with strategy := .immediate } = .running r := by
      simp only [Immediate.start, harrange', hdone, r]
    refine ⟨.immediate r, by simp only [start, hstart], _, rfl, hcreated, rfl⟩
  | background =>
    let r : Background := {
      stock := Stock.create { c with strategy := .background }
      outlet := ((Outlet.create a).start env {}).outlet
      daemon := c.daemon
      journal := ((Outlet.create a).start env {}).journal }
    have hstart : Background.start env { c with strategy := .background } = .running r := by
      simp only [Background.start, harrange', hdone, r]
    refine ⟨.background r, by simp only [start, hstart], ⟨[], rfl, hcreated⟩, rfl, rfl, ?_⟩
    exact fun _ => Stage.noConfusion

/-- What an appender got of some drafts when its runner was closed: their lines, in order, as far as
they reach the levels of its handles. It was flushed after the last one, and disposed only then. -/
structure Received (env : Environment) (c : Config) (a : Arrangement) (drafts : List Draft)
    (appender : Nat) (calls : List Call) : Prop where
  lines_eq : calls.filterMap Call.line? =
    linesFor appender c.appenders (drafts.map fun draft => a.line env (draft.record c))
  closing : ∃ before, calls =
      before ++ List.replicate (listed appender c.appenders) .flush ++
        List.replicate (listed appender c.appenders) .dispose ∧
    .dispose ∉ before

theorem Finished.received {requests : List Request} (h : Finished env a records requests)
    (harrange : c.arrange = .ok a) {drafts : List Draft}
    (hshown : List.Forall₂ (fun record draft => record.Alike (draft.record c)) records drafts)
    (appender : Nat) : Received env c a drafts appender (callsOf appender requests) := by
  obtain ⟨before, hrequests, hlines, hundisposed⟩ := h
  have hhandles := Config.handles_of_arrange harrange
  have hsame : records.map (a.line env) = drafts.map fun draft => a.line env (draft.record c) := by
    have hmapped : List.Forall₂ (· = ·) (records.map (a.line env))
        (drafts.map fun draft => a.line env (draft.record c)) :=
      List.rel_map (fun _ _ halike => Arrangement.line_eq_of_alike halike) hshown
    rw [List.forall₂_eq_eq_eq] at hmapped
    exact hmapped
  rw [hrequests]
  refine ⟨?_, callsOf appender before, ?_, ?_⟩
  · change linesTo appender _ = _
    rw [linesTo_append, linesTo_append, hlines, linesTo_callAll appender rfl,
      linesTo_callAll appender rfl, List.append_nil, List.append_nil, hsame, hhandles]
  · rw [callsOf_append, callsOf_append, callsOf_callAll, callsOf_callAll, hhandles]
  · rw [mem_callsOf]
    rintro ⟨request, hrequest, -, hcall⟩
    exact hundisposed request hrequest hcall

theorem Runner.start_receives (hcalm : env.Calm) (harrange : c.arrange = .ok a)
    (strategy : Strategy) :
    ∃ runner, start env { c with strategy } = .running runner ∧
      ∀ moves : List Move,
        let t : Traffic := { runner }
        .counted ∉ t.answers env moves → ∀ (thread : String) (appender : Nat),
          Received env c a (t.drafts env [] moves) appender
            (((t.moveAll env moves).runner.shutdown env thread).1.journal.callsTo appender) := by
  obtain ⟨runner, hstart, hdelivers⟩ := start_delivers hcalm harrange strategy
  refine ⟨runner, hstart, ?_⟩
  intro moves t hquiet thread appender
  have hconserves := Traffic.Conserves.fresh hstart
  have hfinished := shutdown_finishes hcalm
    (Traffic.moveAll_delivers (t := t) hcalm hconserves hdelivers hquiet) thread
  have hshows : t.Shows { c with strategy } [] := .nil
  rw [Journal.callsTo_eq]
  exact hfinished.received harrange (hshows.submissions hcalm hconserves moves) appender

/-- The strategy makes no difference to what appenders get. Two runners of one configuration get the
same drafts submitted, in one order. When and through whom producers ask for records, what they are
refused, which records they are lent, and when the worker takes its steps, may differ; no appender
breaks off, and no dropped event is counted. When both runners were shut down, an appender has got
the same lines from either, those of the drafts. -/
theorem strategies_deliver_alike (hcalm : env.Calm) (harrange : c.arrange = .ok a) :
    ∃ now later : Runner,
      Runner.start env { c with strategy := .immediate } = .running now ∧
      Runner.start env { c with strategy := .background } = .running later ∧
      ∀ moves moves' : List Move,
        let t : Traffic := { runner := now }
        let u : Traffic := { runner := later }
        .counted ∉ t.answers env moves → .counted ∉ u.answers env moves' →
        u.drafts env [] moves' = t.drafts env [] moves →
        ∀ (thread thread' : String) (appender : Nat),
          let calls := ((t.moveAll env moves).runner.shutdown env thread).1.journal.callsTo appender
          let calls' :=
            ((u.moveAll env moves').runner.shutdown env thread').1.journal.callsTo appender
          calls'.filterMap Call.line? = calls.filterMap Call.line? ∧
            Received env c a (t.drafts env [] moves) appender calls ∧
            Received env c a (t.drafts env [] moves) appender calls' := by
  obtain ⟨now, hnow, hreceives⟩ := Runner.start_receives hcalm harrange .immediate
  obtain ⟨later, hlater, hreceives'⟩ := Runner.start_receives hcalm harrange .background
  refine ⟨now, later, hnow, hlater, ?_⟩
  intro moves moves' t u hquiet hquiet' hsame thread thread' appender calls calls'
  have hcalls := hreceives moves hquiet thread appender
  have hcalls' := hreceives' moves' hquiet' thread' appender
  rw [hsame] at hcalls'
  exact ⟨hcalls'.lines_eq.trans hcalls.lines_eq.symm, hcalls, hcalls'⟩

/-- The producer with a worker behind the runner is refused a record at first, and waits. -/
theorem strategies_deliver_alike_two_records : ∃ now later,
    Runner.start {} { strategy := .immediate, poolSize := 1, heading := "",
                      appenders := [⟨"a", .info, 0⟩, ⟨"b", .error, 0⟩] } = .running now ∧
    Runner.start {} { strategy := .background, poolSize := 1, heading := "",
                      appenders := [⟨"a", .info, 0⟩, ⟨"b", .error, 0⟩] } = .running later ∧
      let first : List Move := [.acquire (.logger ⟨⟨"app", false⟩, .info⟩) .info .epoch "main",
        .fill 0 [.add (.value (.text "up") none)], .submit 0 "main"]
      let second : Move := .acquire (.pool none) .error .epoch "other"
      let lines := fun (runner : Runner) (moves : List Move) =>
        let closed := ((Traffic.moveAll {} { runner } moves).runner.shutdown {} "main").1
        (closed.journal.callsTo 0).filterMap Call.line?
      lines later (first ++ [second, .work, .work, second, .work, .submit 0 "other"]) =
          lines now (first ++ [second, .submit 0 "other"]) ∧
        (lines now (first ++ [second, .submit 0 "other"])).length = 3 := by
  have hcalm : Environment.Calm {} := fun _ _ _ _ hreply => by cases hreply
  obtain ⟨now, later, hnow, hlater, hruns⟩ := strategies_deliver_alike
    (c := { poolSize := 1, heading := "", appenders := [⟨"a", .info, 0⟩, ⟨"b", .error, 0⟩] })
    hcalm rfl
  refine ⟨now, later, hnow, hlater, ?_⟩
  intro first second lines
  cases hnow
  cases hlater
  obtain ⟨hsame, -⟩ := hruns (first ++ [second, .submit 0 "other"])
    (first ++ [second, .work, .work, second, .work, .submit 0 "other"])
    (by decide) (by decide) rfl "main" "main" 0
  exact ⟨hsame, rfl⟩

end Logbook
