import Logbook.Proofs.Delivery.Losses
set_option autoImplicit false

/-!
# Changing the configuration of a runner without a worker

A configuration with a fault is refused and changes nothing. Otherwise the heading and the settings
are taken over first, then the appenders that leave are flushed and disposed and those that come
are started, one after the other, and at last the handles and the policy follow. If an appender
breaks off on the way, the runner goes on with the new heading and settings, the old handles and the
old policy, and the appenders that were disposed before are still listed.
-/
namespace Logbook

/-! ## What a configuration arranges -/

structure Config.Arranges (c : Config) (a : Arrangement) : Prop where
  poolSize_pos : 0 < c.poolSize
  segmentSize_pos : 0 < c.segmentSize
  stringCapacity_pos : 0 < c.stringCapacity
  stringCapacity_le : c.stringCapacity ≤ maxStringCapacity
  parses : Line.Heading.parse c.heading = .ok a.heading
  settings_eq : a.settings = c.settings
  policy_eq : a.policy = c.policy
  handles_eq : a.handles = c.appenders

theorem Config.arrange_eq_ok_iff {c : Config} {a : Arrangement} :
    c.arrange = .ok a ↔ c.Arranges a := by
  constructor
  · intro h
    rw [arrange] at h
    split at h
    · cases h
    · split at h
      · cases h
      · split at h
        · cases h
        · split at h
          · cases h
          · cases h
            rename_i parsed
            exact ⟨by omega, by omega, by omega, by omega, parsed, rfl, rfl, rfl⟩
  · rintro ⟨hpool, hsegment, hpos, hle, hparse, hsettings, hpolicy, hhandles⟩
    obtain ⟨heading, settings, policy, handles⟩ := a
    rw [arrange, if_neg (by omega), if_neg (by omega), if_neg (by omega)]
    simp_all

/-! ## The requests of a change -/

namespace Outlet

variable {old new : List Handle}

def leaving (old new : List Handle) : List Handle := old.filter fun handle => !handle.isAmong new

theorem isAmong_of_mem {handle : Handle} {handles : List Handle} (h : handle ∈ handles) :
    handle.isAmong handles = true :=
  (isAmong_iff handle handles).mpr (listed_pos h)

theorem changeCalls_self (handles : List Handle) : changeCalls handles handles = [] := by
  have none_leaves : (handles.filter fun handle => !handle.isAmong handles) = [] := by
    rw [List.filter_eq_nil_iff]
    intro handle hmem
    simp [isAmong_of_mem hmem]
  rw [changeCalls, none_leaves]
  rfl

theorem dispose_mem_changeCalls {handle : Handle} :
    (handle, Call.dispose) ∈ changeCalls old new ↔
      handle ∈ old ∧ handle.isAmong new = false := by
  simp [changeCalls, callAll]

/-- The second request of a change disposes the first appender that leaves, so a change that breaks
off any later has disposed one. -/
theorem disposed_before {earlier rest : List Request} {last : Request}
    (h : changeCalls old new = earlier ++ last :: rest) :
    (∃ handle, (handle, Call.dispose) ∈ earlier) ↔ leaving old new ≠ [] ∧ 2 ≤ earlier.length := by
  rw [changeCalls] at h
  change (leaving old new).flatMap _ ++ _ = _ at h
  cases hleaving : leaving old new with
  | nil =>
    -- Nothing but starts.
    rw [hleaving, List.flatMap_nil, List.nil_append] at h
    simp only [ne_eq, not_true_eq_false, false_and, iff_false, not_exists]
    intro handle hmem
    have hstart : (handle, Call.dispose) ∈ earlier ++ last :: rest := List.mem_append_left _ hmem
    rw [← h] at hstart
    simp [callAll] at hstart
  | cons first others =>
    rw [hleaving, List.flatMap_cons] at h
    simp only [ne_eq, reduceCtorEq, not_false_eq_true, true_and]
    cases earlier with
    | nil => simp
    | cons one earlier =>
      obtain ⟨rfl, htail⟩ := List.cons.inj h
      cases earlier with
      | nil => simp
      | cons two earlier =>
        obtain ⟨rfl, -⟩ := List.cons.inj htail
        simp only [List.length_cons, Nat.le_add_left, iff_true]
        exact ⟨first, by simp⟩

end Outlet

/-! ## One change -/

namespace Immediate

variable {env : Environment} {r : Immediate} {outlet : Outlet} {c : Config} {a : Arrangement}

def arrangement? (r : Immediate) : Option Arrangement :=
  r.outlet.map fun outlet =>
    ⟨outlet.formatter.heading, outlet.formatter.settings, r.stock.policy, outlet.handles⟩

theorem update_of_faulty {error : ConfigError} (h : c.arrange = .error error) :
    r.update env c = (r, .refused error) := by
  rw [update, h]

theorem update_eq (running : r.outlet = some outlet) (harrange : c.arrange = .ok a) :
    r.update env c =
      let changed := outlet.change env a r.journal
      let policy := if changed.aborted.isSome then r.stock.policy else a.policy
      (⟨{ r.stock with policy }, some changed.outlet, changed.journal⟩,
        .ofAborted? changed.aborted) := by
  rw [update, harrange]
  simp only [running]

end Immediate

namespace Outlet

variable {env : Environment} {o : Outlet} {j : Journal} {a : Arrangement}

/-- The heading and the settings are taken over before anything can break off. -/
theorem formatter_change :
    (o.change env a j).outlet.formatter =
      { o.formatter with heading := a.heading, settings := a.settings } := by
  rw [change, Worked.andThen]
  split <;> rfl

end Outlet

namespace Immediate

variable {env : Environment} {r : Immediate} {outlet : Outlet} {c : Config} {a : Arrangement}

theorem arrangement_of_done (running : r.outlet = some outlet) (harrange : c.arrange = .ok a)
    (hdone : (outlet.change env a r.journal).aborted = none) :
    (r.update env c).1.arrangement? = some a := by
  rw [update_eq running harrange]
  simp [arrangement?, hdone, Outlet.formatter_change, outlet.handles_change env r.journal hdone]

theorem arrangement_of_broken {reason : String} (running : r.outlet = some outlet)
    (harrange : c.arrange = .ok a)
    (hbroken : (outlet.change env a r.journal).aborted = some reason) :
    (r.update env c).1.arrangement? =
      some ⟨a.heading, a.settings, r.stock.policy, outlet.handles⟩ := by
  rw [update_eq running harrange]
  simp [arrangement?, hbroken, Outlet.formatter_change,
    outlet.handles_change_of_broken env r.journal hbroken]

/-- A change broke off at a request: what was asked for until then, and what the runner goes on
with. -/
structure HalfDone (env : Environment) (r : Immediate) (outlet : Outlet) (a : Arrangement)
    (reason : String) (earlier : List Request) (last : Request) (after : Immediate) : Prop where
  planned : ∃ rest, Outlet.changeCalls outlet.handles a.handles = earlier ++ last :: rest
  reply_eq : env.appenders last.1.appender
    (r.journal.callsTo last.1.appender ++ callsOf last.1.appender earlier) last.2 = .aborted reason
  requests_eq : after.journal.requests = r.journal.requests ++ (earlier ++ [last])
  stock_eq : after.stock = r.stock
  arrangement_eq : after.arrangement? =
    some ⟨a.heading, a.settings, r.stock.policy, outlet.handles⟩

theorem update_halfDone {reason : String} (running : r.outlet = some outlet)
    (harrange : c.arrange = .ok a)
    (hbroken : (outlet.change env a r.journal).aborted = some reason) :
    ∃ earlier last, HalfDone env r outlet a reason earlier last (r.update env c).1 := by
  obtain ⟨hjournal, haborted⟩ := outlet.change_makes env r.journal a
  obtain ⟨earlier, handle, call, rest, hplan, hmade, hreply⟩ :=
    Journal.requests_perform_of_some env.appenders (haborted.symm.trans hbroken)
  refine ⟨earlier, (handle, call), ⟨rest, hplan⟩, hreply, ?_, ?_,
    arrangement_of_broken running harrange hbroken⟩
  · rw [update_eq running harrange]
    change (outlet.change env a r.journal).journal.requests = _
    rw [hjournal, hmade]
  · rw [update_eq running harrange]
    simp [hbroken]

/-- Once a change broke off, the runner never goes on with all of the new configuration, with all
of the old one only if heading and settings are the same in both, and every appender that was
disposed is still listed. -/
theorem HalfDone.whole_iff {reason : String} {earlier : List Request} {last : Request}
    {after : Immediate} (h : HalfDone env r outlet a reason earlier last after)
    (running : r.outlet = some outlet) :
    ((after.arrangement? = r.arrangement? ∨ after.arrangement? = some a) ∧
        ∀ handle ∈ outlet.handles, (handle, Call.dispose) ∉ earlier) ↔
      (a.heading = outlet.formatter.heading ∧ a.settings = outlet.formatter.settings) ∧
        (Outlet.leaving outlet.handles a.handles = [] ∨ earlier.length < 2) := by
  obtain ⟨rest, hplan⟩ := h.planned
  have hnew : after.arrangement? ≠ some a := by
    intro hall
    have hhandles : a.handles = outlet.handles :=
      congrArg Arrangement.handles (Option.some.inj (h.arrangement_eq.symm.trans hall)).symm
    rw [hhandles, Outlet.changeCalls_self] at hplan
    cases earlier <;> cases hplan
  have hold : after.arrangement? = r.arrangement? ↔
      a.heading = outlet.formatter.heading ∧ a.settings = outlet.formatter.settings := by
    rw [h.arrangement_eq, arrangement?, running]
    simp
  have hlisted : (∀ handle ∈ outlet.handles, (handle, Call.dispose) ∉ earlier) ↔
      ¬ ∃ handle, (handle, Call.dispose) ∈ earlier := by
    constructor
    · rintro hnone ⟨handle, hmem⟩
      have hcall : (handle, Call.dispose) ∈ Outlet.changeCalls outlet.handles a.handles := by
        rw [hplan]
        exact List.mem_append_left _ hmem
      exact hnone handle (Outlet.dispose_mem_changeCalls.mp hcall).1 hmem
    · exact fun hnone handle _ hmem => hnone ⟨handle, hmem⟩
  rw [hlisted, Outlet.disposed_before hplan, hold, or_iff_left hnew, not_and_or, not_not,
    Nat.not_le]

end Immediate

/-! ## Many changes -/

def Arrangement.mixed (latest settled : Arrangement) : Arrangement :=
  ⟨latest.heading, latest.settings, settled.policy, settled.handles⟩

/-- The last of some accepted changes, which are each given with whether it is done. -/
def Arrangement.latest (first : Arrangement) (accepted : List (Arrangement × Bool)) :
    Arrangement :=
  (accepted.map Prod.fst).getLastD first

def Arrangement.settled (first : Arrangement) (accepted : List (Arrangement × Bool)) :
    Arrangement :=
  first.latest (accepted.filter Prod.snd)

section Accepted

variable (first : Arrangement) (earlier later : List (Arrangement × Bool))

theorem Arrangement.latest_append :
    first.latest (earlier ++ later) = (first.latest earlier).latest later := by
  simp only [latest, List.map_append, List.getLastD_eq_getLast?, List.getLast?_append]
  cases (later.map Prod.fst).getLast? <;> rfl

theorem Arrangement.settled_append :
    first.settled (earlier ++ later) = (first.settled earlier).settled later := by
  rw [settled, List.filter_append, latest_append]
  rfl

end Accepted

theorem Stock.policy_of_tryAcquire {s after : Stock} {record : Record}
    (h : s.tryAcquire = some (record, after)) : after.policy = s.policy := by
  rw [tryAcquire] at h
  split at h
  · obtain ⟨lent, -, heq⟩ := Option.map_eq_some_iff.1 h
    cases heq
    rfl
  · cases h
    rfl

namespace Outlet

variable (o : Outlet) (env : Environment) (j : Journal) (thread : String) (dropped : Nat)

theorem outlet_deliver (record : Record) :
    ∃ fields, (o.deliver env j record).outlet = { o with formatter.fields := fields } := by
  rw [deliver]
  split
  · exact ⟨_, rfl⟩
  · exact ⟨_, rfl⟩

theorem outlet_flush :
    ∃ fields, (o.flush env thread dropped j).outlet = { o with formatter.fields := fields } := by
  have hnotify : ∃ fields,
      (o.notify env thread dropped j).outlet = { o with formatter.fields := fields } := by
    rw [notify]
    split
    · exact ⟨_, rfl⟩
    · exact o.outlet_deliver env j _
  rw [flush, Worked.andThen]
  split <;> exact hnotify

end Outlet

theorem Immediate.outlet_work (r : Immediate) (env : Environment) (thread : String)
    (record : Record) (outlet : Outlet) :
    ∃ fields, (r.work env thread record outlet).outlet =
      { outlet with formatter.fields := fields } := by
  obtain ⟨fields, hdeliver⟩ := outlet.outlet_deliver env r.journal record
  rw [work, Worked.andThen]
  split
  · obtain ⟨fields', hflush⟩ := (outlet.deliver env r.journal record).outlet.outlet_flush env
      (outlet.deliver env r.journal record).journal thread r.stock.dropped
    exact ⟨fields', by rw [hflush, hdeliver]⟩
  · exact ⟨fields, hdeliver⟩

def Runner.arrangement? : Runner → Option Arrangement
  | .immediate r => r.arrangement?
  | .background _ => none

def Runner.accepted (env : Environment) (c : Config) (runner : Runner) :
    List (Arrangement × Bool) :=
  match c.arrange, (runner.update env c).2 with
  | .ok a, .done => [(a, true)]
  | .ok a, .aborted _ => [(a, false)]
  | _, _ => []

namespace Traffic

variable {env : Environment} {t : Traffic} {act : Act}

def change (env : Environment) (t : Traffic) : Act → List (Arrangement × Bool)
  | .update c => t.runner.accepted env c
  | _ => []

def accepted (env : Environment) (t : Traffic) : List Act → List (Arrangement × Bool)
  | [] => []
  | act :: acts => t.change env act ++ (t.turn env act).accepted env acts

theorem arrangement_turn (hopen : t.runner.IsOpen) (hact : act.isOwn = true)
    (hupdate : ∀ c, act ≠ .update c) :
    (t.turn env act).runner.arrangement? = t.runner.arrangement? := by
  obtain ⟨runner, held, leaving⟩ := t
  cases runner with
  | background r => exact hopen.elim
  | immediate r =>
    obtain ⟨outlet, houtlet⟩ := hopen
    cases act with
    | acquire =>
      simp only [turn, perform]
      cases hacquire : (Runner.immediate r).stock.tryAcquire with
      | none => rfl
      | some lent =>
        have hpolicy : lent.2.policy = r.stock.policy := Stock.policy_of_tryAcquire hacquire
        simp [Runner.withStock, Runner.arrangement?, Immediate.arrangement?, hpolicy]
    | submit place thread =>
      cases hplace : held[place]? with
      | none => simp only [turn, perform, hplace]
      | some record =>
        obtain ⟨dropped, hwrite⟩ := Immediate.tryWrite_eq houtlet env thread record
        obtain ⟨fields, hwork⟩ := r.outlet_work env thread record outlet
        simp only [turn, hplace, hwrite]
        cases (r.work env thread record outlet).aborted <;>
          simp [Runner.arrangement?, Immediate.arrangement?, hwork, houtlet]
    | settle place =>
      simp only [turn, perform]
      cases leaving[place]? <;> rfl
    | update c => exact absurd rfl (hupdate c)
    | stop thread => cases hact
    | _ => rfl

theorem arrangement_update {c : Config} (hopen : t.runner.IsOpen) {latest settled : Arrangement}
    (h : t.runner.arrangement? = some (latest.mixed settled)) :
    (t.turn env (.update c)).runner.arrangement? =
      some ((latest.latest (t.runner.accepted env c)).mixed
        (settled.settled (t.runner.accepted env c))) := by
  obtain ⟨runner, held, leaving⟩ := t
  cases runner with
  | background r => exact hopen.elim
  | immediate r =>
    obtain ⟨outlet, running⟩ := hopen
    have harrangement : r.arrangement? = some (latest.mixed settled) := h
    change (r.update env c).1.arrangement? = _
    simp only [Runner.accepted, Runner.update]
    cases harrange : c.arrange with
    | error error =>
      rw [Immediate.update_of_faulty harrange]
      exact h
    | ok a =>
      have houtcome : (r.update env c).2 =
          .ofAborted? (outlet.change env a r.journal).aborted := by
        rw [Immediate.update_eq running harrange]
      rw [houtcome]
      cases hchange : (outlet.change env a r.journal).aborted with
      | none => exact Immediate.arrangement_of_done running harrange hchange
      | some reason =>
        rw [Immediate.arrangement_of_broken running harrange hchange]
        rw [Immediate.arrangement?, running, Option.map_some, Option.some.injEq,
          Arrangement.mixed] at harrangement
        obtain ⟨-, -, hpolicy, hhandles⟩ := Arrangement.mk.inj harrangement
        rw [hpolicy, hhandles]
        rfl

theorem arrangement_turn_mixed (hopen : t.runner.IsOpen) (hact : act.isOwn = true)
    {latest settled : Arrangement} (h : t.runner.arrangement? = some (latest.mixed settled)) :
    (t.turn env act).runner.arrangement? =
      some ((latest.latest (t.change env act)).mixed (settled.settled (t.change env act))) := by
  by_cases hupdate : ∃ c, act = .update c
  · obtain ⟨c, rfl⟩ := hupdate
    exact arrangement_update hopen h
  · have hchange : t.change env act = [] := by
      cases act with
      | update c => exact absurd ⟨c, rfl⟩ hupdate
      | _ => rfl
    rw [arrangement_turn hopen hact fun c heq => hupdate ⟨c, heq⟩, hchange]
    exact h

/-- After any turns, the heading and the settings are those of the last change that was accepted,
and the policy and the handles those of the last that was done. -/
theorem arrangement_turns (hopen : t.runner.IsOpen) {acts : List Act}
    (hacts : ∀ act ∈ acts, act.isOwn = true) {latest settled : Arrangement}
    (h : t.runner.arrangement? = some (latest.mixed settled)) :
    (t.turns env acts).runner.arrangement? =
      some ((latest.latest (t.accepted env acts)).mixed
        (settled.settled (t.accepted env acts))) := by
  induction acts generalizing t latest settled with
  | nil => exact h
  | cons act acts ih =>
    have hact := hacts act List.mem_cons_self
    obtain ⟨hopen', -⟩ := @turn_open env t hopen act hact
    rw [accepted, Arrangement.latest_append, Arrangement.settled_append]
    exact ih hopen' (fun other hother => hacts other (List.mem_cons_of_mem _ hother))
      (arrangement_turn_mixed hopen hact h)

end Traffic

/-! ## All or nothing -/

namespace Immediate

variable {env : Environment} {r : Immediate} {outlet : Outlet}

/-- How a change of configuration ends. A refusal changes nothing, and a change that is done takes
over everything and disposes none of the appenders that are listed then. One that breaks off leaves
the runner with the new heading and settings, the old handles and the old policy; that is a whole
configuration, with no disposed appender in it, only if the heading and the settings stay the same
and the first appender that leaves was not yet disposed. So after any turns the heading and the
settings are those of the last change that was accepted, and the policy and the handles those of the
last that was done. -/
theorem update_whole_unless_broken (env : Environment) (running : r.outlet = some outlet)
    (c : Config) :
    (∀ error, (r.update env c).2 = .refused error →
      (¬ ∃ a, c.Arranges a) ∧ (r.update env c).1 = r) ∧
    ((r.update env c).2 = .done → ∃ a, c.Arranges a ∧ (r.update env c).1.arrangement? = some a ∧
      (r.update env c).1.journal.requests =
        r.journal.requests ++ Outlet.changeCalls outlet.handles a.handles ∧
      (r.update env c).1.stock = { r.stock with policy := a.policy } ∧
      ∀ handle, (handle, Call.dispose) ∈ Outlet.changeCalls outlet.handles a.handles →
        handle.isAmong a.handles = false) ∧
    (∀ reason, (r.update env c).2 = .aborted reason → ∃ a earlier last, c.Arranges a ∧
      HalfDone env r outlet a reason earlier last (r.update env c).1 ∧
      (((r.update env c).1.arrangement? = r.arrangement? ∨
            (r.update env c).1.arrangement? = some a) ∧
          (∀ handle ∈ outlet.handles, (handle, Call.dispose) ∉ earlier) ↔
        (a.heading = outlet.formatter.heading ∧ a.settings = outlet.formatter.settings) ∧
          (Outlet.leaving outlet.handles a.handles = [] ∨ earlier.length < 2))) ∧
    ∀ (first : Arrangement) (t : Traffic), r.arrangement? = some first → t.runner = .immediate r →
      ∀ acts : List Act, (∀ act ∈ acts, act.isOwn = true) →
        (t.turns env acts).runner.arrangement? =
          some ((first.latest (t.accepted env acts)).mixed
            (first.settled (t.accepted env acts))) := by
  have hturns : ∀ (first : Arrangement) (t : Traffic), r.arrangement? = some first →
      t.runner = .immediate r → ∀ acts : List Act, (∀ act ∈ acts, act.isOwn = true) →
        (t.turns env acts).runner.arrangement? =
          some ((first.latest (t.accepted env acts)).mixed
            (first.settled (t.accepted env acts))) := by
    intro first t hfirst hrunner acts hacts
    refine Traffic.arrangement_turns ?_ hacts ?_
    · rw [hrunner]
      exact ⟨outlet, running⟩
    · rw [hrunner]
      exact hfirst
  cases harrange : c.arrange with
  | error error =>
    rw [update_of_faulty harrange]
    refine ⟨?_, (fun h => by cases h), (fun _ h => by cases h), hturns⟩
    rintro _ -
    refine ⟨?_, rfl⟩
    rintro ⟨a, harranges⟩
    cases harrange.symm.trans (Config.arrange_eq_ok_iff.mpr harranges)
  | ok a =>
    have harranges := Config.arrange_eq_ok_iff.mp harrange
    have houtcome : (r.update env c).2 =
        .ofAborted? (outlet.change env a r.journal).aborted := by
      rw [update_eq running harrange]
    rw [houtcome]
    cases hchange : (outlet.change env a r.journal).aborted with
    | none =>
      refine ⟨(fun _ h => by cases h), fun _ => ⟨a, harranges,
        arrangement_of_done running harrange hchange, ?_, ?_, ?_⟩, (fun _ h => by cases h), hturns⟩
      · rw [update_eq running harrange]
        exact (outlet.change_makes env r.journal a).made hchange
      · rw [update_eq running harrange]
        simp [hchange]
      · exact fun handle hmem => (Outlet.dispose_mem_changeCalls.mp hmem).2
    | some reason =>
      refine ⟨(fun _ h => by cases h), (fun h => by cases h), ?_, hturns⟩
      rintro _ ⟨⟩
      obtain ⟨earlier, last, half⟩ := update_halfDone running harrange hchange
      exact ⟨a, earlier, last, harranges, half, half.whole_iff running⟩

/-- Two appenders, of which one breaks off when it is disposed. -/
def listingTwo : Config :=
  { poolSize := 1, heading := "", appenders := [⟨"a", .trace, 1⟩, ⟨"full", .trace, 0⟩] }

def listingNone : Config :=
  { listingTwo with heading := "new ", policy := .drop, appenders := [] }

def breakingDisposal : Environment := .breakingOn fun call => call = .dispose

theorem update_whole_unless_broken_two_leave :
    ∃ r outlet, start breakingDisposal listingTwo = .running r ∧ r.outlet = some outlet ∧
      ∃ first a earlier last, r.arrangement? = some first ∧ listingNone.Arranges a ∧
        HalfDone breakingDisposal r outlet a "full" earlier last
          (r.update breakingDisposal listingNone).1 ∧
        (Traffic.turns breakingDisposal ⟨.immediate r, [], []⟩
          [.acquire, .update listingNone]).runner.arrangement? = some (a.mixed first) := by
  obtain ⟨r, outlet, first, hstart, running, hfirst, hbroken, haccepted⟩ : ∃ r outlet first,
      start breakingDisposal listingTwo = .running r ∧ r.outlet = some outlet ∧
        r.arrangement? = some first ∧
        (r.update breakingDisposal listingNone).2 = .aborted "full" ∧
        ∀ a, listingNone.arrange = .ok a →
          Traffic.accepted breakingDisposal ⟨.immediate r, [], []⟩
            [.acquire, .update listingNone] = [(a, false)] :=
    ⟨_, _, _, rfl, rfl, rfl, rfl, fun a ha => by cases ha; rfl⟩
  obtain ⟨-, -, hbreaks, hturns⟩ :=
    update_whole_unless_broken breakingDisposal running listingNone
  obtain ⟨a, earlier, last, harranges, half, -⟩ := hbreaks "full" hbroken
  have hafter := hturns first ⟨.immediate r, [], []⟩ hfirst rfl [.acquire, .update listingNone]
    (by decide)
  rw [haccepted a (Config.arrange_eq_ok_iff.2 harranges)] at hafter
  exact ⟨r, outlet, hstart, running, first, a, earlier, last, hfirst, harranges, half, hafter⟩

/-- The runner goes on with the new heading, the old handles and the old policy, and the first
appender is listed though it was disposed. -/
theorem listed_though_disposed :
    ∃ r, start breakingDisposal listingTwo = .running r ∧
      (r.update breakingDisposal listingNone).2 = .aborted "full" ∧
      (r.update breakingDisposal listingNone).1.outlet.map (·.handles) =
        some listingTwo.appenders ∧
      (r.update breakingDisposal listingNone).1.stock.policy = listingTwo.policy ∧
      (r.update breakingDisposal listingNone).1.outlet.map (·.formatter.heading) =
        (Line.Heading.parse listingNone.heading).toOption ∧
      (r.update breakingDisposal listingNone).1.journal.callsTo 1 = [.start, .flush, .dispose] :=
  ⟨_, rfl, rfl, rfl, rfl, rfl, rfl⟩

end Immediate

end Logbook
