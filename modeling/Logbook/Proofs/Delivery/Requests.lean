import Logbook.Proofs.Delivery.Calm
set_option autoImplicit false

/-!
# What appenders are asked to do

Whatever an outlet does for a runner is a list of requests that does not depend on the answers. They
are made in turn, up to the first that breaks off. `Asks` says what the requests of any work are and
which handles the outlet has afterwards; what appenders get over a whole run follows from it alone.
-/
namespace Logbook

abbrev Request := Handle × Call

def callsOf (appender : Nat) (requests : List Request) : List Call :=
  requests.filterMap fun request =>
    if request.1.appender = appender then some request.2 else none

def listed (appender : Nat) (handles : List Handle) : Nat :=
  handles.countP fun handle => handle.appender = appender

section CallsOf

variable (appender : Nat)

@[simp] theorem callsOf_nil : callsOf appender [] = [] := rfl

@[simp] theorem callsOf_append (first rest : List Request) :
    callsOf appender (first ++ rest) = callsOf appender first ++ callsOf appender rest :=
  List.filterMap_append

theorem mem_callsOf {call : Call} {requests : List Request} :
    call ∈ callsOf appender requests ↔
      ∃ request ∈ requests, request.1.appender = appender ∧ request.2 = call := by
  simp [callsOf, List.mem_filterMap]

theorem callsOf_callAll (call : Call) (handles : List Handle) :
    callsOf appender (Outlet.callAll call handles) =
      List.replicate (listed appender handles) call := by
  induction handles with
  | nil => rfl
  | cons handle handles ih =>
    rw [Outlet.callAll, callsOf] at ih
    by_cases h : handle.appender = appender
    · simp [Outlet.callAll, callsOf, listed, h, ih, List.replicate_succ]
    · simp [Outlet.callAll, callsOf, listed, h, ih]

theorem listed_eq_zero {handles : List Handle} :
    listed appender handles = 0 ↔ ∀ handle ∈ handles, handle.appender ≠ appender := by
  simp [listed, List.countP_eq_zero]

theorem listed_pos {handles : List Handle} {handle : Handle} (h : handle ∈ handles) :
    0 < listed handle.appender handles :=
  List.countP_pos_iff.mpr ⟨handle, h, decide_eq_true rfl⟩

theorem isAmong_iff (handle : Handle) (handles : List Handle) :
    handle.isAmong handles = true ↔ 0 < listed handle.appender handles := by
  rw [listed, List.countP_pos_iff, Handle.isAmong, List.any_eq_true]
  simp only [Handle.sameAppender, decide_eq_true_eq, @eq_comm _ handle.appender]

theorem listed_filter_isAmong (handles others : List Handle) :
    listed appender (handles.filter fun handle => !handle.isAmong others) =
      if listed appender others = 0 then listed appender handles else 0 := by
  have hcase (handle : Handle) (hsame : handle.appender = appender) :
      handle.isAmong others = true ↔ listed appender others ≠ 0 := by
    rw [isAmong_iff, hsame, Nat.pos_iff_ne_zero]
  split
  · rename_i hzero
    rw [listed, List.countP_filter, listed]
    refine List.countP_congr fun handle _ => ?_
    simp only [Bool.and_eq_true, decide_eq_true_eq, Bool.not_eq_true', and_iff_left_iff_imp]
    intro hsame
    rw [← Bool.not_eq_true, hcase handle hsame]
    exact fun hne => hne hzero
  · rename_i hne
    rw [listed_eq_zero]
    intro handle hmem hsame
    rw [List.mem_filter, (hcase handle hsame).mpr hne] at hmem
    exact absurd hmem.2 Bool.false_ne_true

theorem callsOf_leaving (handles : List Handle) :
    callsOf appender (handles.flatMap fun handle => [(handle, Call.flush), (handle, .dispose)]) =
      (List.replicate (listed appender handles) [Call.flush, .dispose]).flatten := by
  induction handles with
  | nil => rfl
  | cons handle handles ih =>
    rw [callsOf] at ih
    by_cases h : handle.appender = appender
    · simp [callsOf, listed, h, ih, List.replicate_succ]
    · simp [callsOf, listed, h, ih]

/-- An appender that leaves is flushed and disposed, and one that comes is started, as often as it
is listed; the others hear nothing of the change. -/
theorem callsOf_changeCalls (old new : List Handle) :
    callsOf appender (Outlet.changeCalls old new) =
      (if listed appender new = 0 then
        (List.replicate (listed appender old) [Call.flush, .dispose]).flatten else []) ++
      (if listed appender old = 0 then List.replicate (listed appender new) .start else []) := by
  rw [Outlet.changeCalls, callsOf_append, callsOf_leaving, callsOf_callAll, listed_filter_isAmong,
    listed_filter_isAmong]
  congr 1
  · split <;> rfl
  · split <;> rfl

end CallsOf

/-! ## Requests that are made -/

def Event.request? : Event → Option Request
  | .called handle call _ => some (handle, call)
  | _ => none

namespace Journal

def requests (j : Journal) : List Request := j.events.toList.filterMap Event.request?

theorem callsTo_eq (j : Journal) (appender : Nat) :
    j.callsTo appender = callsOf appender j.requests := by
  rw [callsTo, callsOf, requests, List.filterMap_filterMap]
  congr 1
  funext event
  cases event <;> rfl

@[simp] theorem requests_add (j : Journal) (event : Event) :
    (j.add event).requests = j.requests ++ event.request?.toList := by
  rw [requests, requests, add, Array.toList_push, List.filterMap_append]
  cases event <;> rfl

variable (appenders : Nat → Behaviour)

theorem perform_append (j : Journal) (first rest : List Request) :
    j.perform appenders (first ++ rest) =
      match j.perform appenders first with
      | (j, none) => j.perform appenders rest
      | (j, some reason) => (j, some reason) := by
  induction first generalizing j with
  | nil => rfl
  | cons request first ih =>
    obtain ⟨handle, call⟩ := request
    rw [List.cons_append, perform, perform]
    generalize appenders handle.appender (j.callsTo handle.appender) call = reply
    cases reply with
    | ok => exact ih _
    | failed error => exact ih _
    | aborted reason => rfl

theorem requests_perform_of_none {j : Journal} {requests : List Request}
    (h : (j.perform appenders requests).2 = none) :
    (j.perform appenders requests).1.requests = j.requests ++ requests := by
  induction requests generalizing j with
  | nil => exact (List.append_nil _).symm
  | cons request requests ih =>
    obtain ⟨handle, call⟩ := request
    rw [perform] at h ⊢
    generalize appenders handle.appender (j.callsTo handle.appender) call = reply at h ⊢
    cases reply with
    | ok => rw [ih h, requests_add, List.append_assoc]; rfl
    | failed error => rw [ih h, requests_add, List.append_assoc]; rfl
    | aborted reason => cases h

theorem requests_perform_of_some {j : Journal} {requests : List Request} {reason : String}
    (h : (j.perform appenders requests).2 = some reason) :
    ∃ earlier handle call rest, requests = earlier ++ (handle, call) :: rest ∧
      (j.perform appenders requests).1.requests = j.requests ++ (earlier ++ [(handle, call)]) ∧
      appenders handle.appender
        (j.callsTo handle.appender ++ callsOf handle.appender earlier) call = .aborted reason := by
  induction requests generalizing j with
  | nil => cases h
  | cons request requests ih =>
    obtain ⟨first, asked⟩ := request
    rw [perform] at h ⊢
    generalize hreply : appenders first.appender (j.callsTo first.appender) asked = reply at h ⊢
    -- the first request was answered, and a later one breaks off
    have hlater (hgoes : ((j.add (.called first asked reply)).perform appenders requests).2 =
        some reason) :
        ∃ earlier handle call rest,
          (first, asked) :: requests = earlier ++ (handle, call) :: rest ∧
          ((j.add (.called first asked reply)).perform appenders requests).1.requests =
            j.requests ++ (earlier ++ [(handle, call)]) ∧
          appenders handle.appender
            (j.callsTo handle.appender ++ callsOf handle.appender earlier) call =
              .aborted reason := by
      obtain ⟨earlier, handle, call, rest, hsplit, hmade, hbreaks⟩ := ih hgoes
      refine ⟨(first, asked) :: earlier, handle, call, rest, by rw [hsplit]; rfl, ?_, ?_⟩
      · rw [hmade, requests_add]
        simp [Event.request?]
      · rw [← hbreaks, callsTo_add_called, List.append_assoc]
        congr 2
        by_cases hsame : first.appender = handle.appender <;> simp [callsOf, hsame]
    cases reply with
    | ok => exact hlater h
    | failed error => exact hlater h
    | aborted reason' =>
      cases h
      refine ⟨[], first, asked, requests, rfl, ?_, ?_⟩
      · rw [requests_add]
        rfl
      · rw [callsOf_nil, List.append_nil]
        exact hreply

end Journal

/-- Work that makes the given requests, and breaks off where they do. -/
structure Worked.Makes (env : Environment) (j : Journal) (w : Worked) (requests : List Request) :
    Prop where
  journal_eq : w.journal = (j.perform env.appenders requests).1
  aborted_eq : w.aborted = (j.perform env.appenders requests).2

namespace Worked.Makes

variable {env : Environment} {j : Journal} {w : Worked} {requests more : List Request}

theorem made (h : w.Makes env j requests) (hdone : w.aborted = none) :
    w.journal.requests = j.requests ++ requests := by
  rw [h.journal_eq]
  exact Journal.requests_perform_of_none _ (h.aborted_eq.symm.trans hdone)

theorem andThen (h : w.Makes env j requests) {next : Outlet → Journal → Worked}
    (hnext : w.aborted = none → (next w.outlet w.journal).Makes env w.journal more) :
    (w.andThen next).Makes env j (requests ++ more) := by
  have happend := Journal.perform_append env.appenders j requests more
  obtain ⟨outlet, journal, aborted⟩ := w
  obtain ⟨hjournal, haborted⟩ := h
  simp only at hjournal haborted
  rw [← Prod.eta (j.perform env.appenders requests), ← hjournal, ← haborted] at happend
  cases aborted with
  | none =>
    obtain ⟨hjournal', haborted'⟩ := hnext rfl
    exact ⟨by rw [happend]; exact hjournal', by rw [happend]; exact haborted'⟩
  | some reason => exact ⟨by rw [happend]; rfl, by rw [happend]; rfl⟩

end Worked.Makes

namespace Outlet

variable (o : Outlet) (env : Environment) (j : Journal) (thread : String) (dropped : Nat)

def lineRequests (record : Record) : List Request :=
  lineCalls o.handles (o.formatter.format env.registry record).1

def noticeRequests : List Request :=
  if dropped = 0 then [] else o.lineRequests env (notice (env.now j.events.size) thread dropped)

def flushRequests : List Request :=
  o.noticeRequests env j thread dropped ++ callAll .flush o.handles

def closeRequests : List Request :=
  o.flushRequests env j thread dropped ++ callAll .dispose o.handles

theorem perform_makes (requests : List Request) :
    (o.perform env j requests).Makes env j requests :=
  ⟨rfl, rfl⟩

theorem deliver_makes (record : Record) :
    (o.deliver env j record).Makes env j (o.lineRequests env record) := by
  rw [deliver]
  split
  · rename_i hnone
    rw [lineRequests, hnone]
    exact ⟨rfl, rfl⟩
  · exact ⟨rfl, rfl⟩

@[simp] theorem handles_deliver (record : Record) :
    (o.deliver env j record).outlet.handles = o.handles := by
  rw [deliver]
  split <;> rfl

theorem notify_makes :
    (o.notify env thread dropped j).Makes env j (o.noticeRequests env j thread dropped) := by
  rw [notify, noticeRequests]
  split
  · exact ⟨rfl, rfl⟩
  · exact o.deliver_makes env j _

@[simp] theorem handles_notify : (o.notify env thread dropped j).outlet.handles = o.handles := by
  rw [notify]
  split
  · rfl
  · exact o.handles_deliver env j _

theorem flush_makes :
    (o.flush env thread dropped j).Makes env j (o.flushRequests env j thread dropped) := by
  refine (o.notify_makes env j thread dropped).andThen fun _ => ?_
  rw [handles_notify]
  exact perform_makes _ _ _ _

@[simp] theorem handles_flush : (o.flush env thread dropped j).outlet.handles = o.handles := by
  rw [flush, Worked.andThen]
  split <;> exact o.handles_notify env j thread dropped

theorem change_makes (a : Arrangement) :
    (o.change env a j).Makes env j (changeCalls o.handles a.handles) := by
  let taken : Outlet :=
    { o with formatter.heading := a.heading, formatter.settings := a.settings }
  have hasked := taken.perform_makes env j (changeCalls o.handles a.handles)
  have hmakes : (o.change env a j).Makes env j (changeCalls o.handles a.handles ++ []) :=
    @Worked.Makes.andThen env j _ _ [] hasked
      (fun o j => ⟨{ o with handles := a.handles }, j, none⟩) fun _ => ⟨rfl, rfl⟩
  rwa [List.append_nil] at hmakes

theorem handles_change {a : Arrangement} (h : (o.change env a j).aborted = none) :
    (o.change env a j).outlet.handles = a.handles := by
  rw [change, Worked.andThen] at h ⊢
  split at h
  · rfl
  · rename_i hbroken
    cases hbroken.symm.trans h

theorem handles_change_of_broken {a : Arrangement} {reason : String}
    (h : (o.change env a j).aborted = some reason) :
    (o.change env a j).outlet.handles = o.handles := by
  rw [change, Worked.andThen] at h ⊢
  split at h
  · cases h
  · rfl

theorem close_makes :
    (o.close env thread dropped j).Makes env j (o.closeRequests env j thread dropped) := by
  refine (o.flush_makes env j thread dropped).andThen fun _ => ?_
  rw [handles_flush]
  exact perform_makes _ _ _ _

theorem handles_close (h : (o.close env thread dropped j).aborted = none) :
    (o.close env thread dropped j).outlet.handles = [] := by
  rw [close, Worked.andThen] at h ⊢
  split at h
  · rfl
  · rename_i hbroken
    cases hbroken.symm.trans h

theorem start_makes : (o.start env j).Makes env j (callAll .start o.handles) :=
  perform_makes _ _ _ _

end Outlet

/-! ## What one piece of work asks for -/

/-- Work of an outlet with the handles `old` asks for some requests and leaves the handles `new`. -/
inductive Asks (old : List Handle) : List Request → List Handle → Prop where
  | serve {requests : List Request}
      (h : ∀ request ∈ requests, request.1 ∈ old ∧ request.2 ≠ .start ∧ request.2 ≠ .dispose) :
      Asks old requests old
  | change (new : List Handle) : Asks old (Outlet.changeCalls old new) new
  | close {lines : List Request}
      (h : ∀ request ∈ lines, request.1 ∈ old ∧ ∃ line, request.2 = .write line) :
      Asks old (lines ++ Outlet.callAll .flush old ++ Outlet.callAll .dispose old) []

theorem Asks.nothing (handles : List Handle) : Asks handles [] handles := .serve (by simp)

theorem Asks.serve_append {handles : List Handle} {first rest : List Request}
    (hfirst : ∀ request ∈ first, request.1 ∈ handles ∧ request.2 ≠ .start ∧ request.2 ≠ .dispose)
    (hrest : ∀ request ∈ rest, request.1 ∈ handles ∧ request.2 ≠ .start ∧ request.2 ≠ .dispose) :
    Asks handles (first ++ rest) handles :=
  .serve fun request hrequest =>
    (List.mem_append.mp hrequest).elim (hfirst request) (hrest request)

namespace Outlet

variable (o : Outlet) (env : Environment) (j : Journal) (thread : String) (dropped : Nat)

theorem write_of_mem_lineCalls {handles : List Handle} {line : Line} {request : Request}
    (h : request ∈ lineCalls handles line) :
    request.1 ∈ handles ∧ ∃ line, request.2 = .write line := by
  obtain ⟨handle, hhandle, rfl⟩ := List.mem_map.mp h
  exact ⟨(List.mem_filter.mp hhandle).1, line, rfl⟩

theorem write_of_mem_noticeRequests {request : Request}
    (h : request ∈ o.noticeRequests env j thread dropped) :
    request.1 ∈ o.handles ∧ ∃ line, request.2 = .write line := by
  rw [noticeRequests] at h
  split at h
  · cases h
  · exact write_of_mem_lineCalls h

theorem serves_lineRequests {record : Record} {request : Request}
    (h : request ∈ o.lineRequests env record) :
    request.1 ∈ o.handles ∧ request.2 ≠ .start ∧ request.2 ≠ .dispose := by
  obtain ⟨hhandle, line, hline⟩ := write_of_mem_lineCalls h
  rw [hline]
  exact ⟨hhandle, by simp, by simp⟩

theorem serves_flushRequests {request : Request}
    (h : request ∈ o.flushRequests env j thread dropped) :
    request.1 ∈ o.handles ∧ request.2 ≠ .start ∧ request.2 ≠ .dispose := by
  rcases List.mem_append.mp h with h | h
  · obtain ⟨hhandle, line, hline⟩ := o.write_of_mem_noticeRequests env j thread dropped h
    rw [hline]
    exact ⟨hhandle, by simp, by simp⟩
  · obtain ⟨handle, hhandle, rfl⟩ := List.mem_map.mp h
    exact ⟨hhandle, by simp, by simp⟩

theorem asks_close : Asks o.handles (o.closeRequests env j thread dropped) [] :=
  .close fun _ h => o.write_of_mem_noticeRequests env j thread dropped h

end Outlet
end Logbook
