import Logbook.Proofs.Delivery.Failure
set_option autoImplicit false

/-!
# What a worker does with its turns

The course of a run is what the worker did and what was published for it meanwhile, in order. Two
folds over the course say where the worker stands: whether a flush is due, and which configuration
waits. They hold at every moment until the worker ends, and all that is known about its turns is
read off there: a turn flushes if and only if some message was not followed by a flush, and a
configuration that is taken over is the last that was published, and was not taken over before.
-/
namespace Logbook

variable {env : Environment} {c : Config}

inductive Beat where
  | published (a : Arrangement)
  | worked (job : Job)
  /-- A turn was there for a configuration, and there was none. -/
  | vacant
  | rested

namespace Beat

def job? : Beat → Option Job
  | .worked job => some job
  | _ => none

def published? : Beat → Option Arrangement
  | .published a => some a
  | _ => none

def applied? : Beat → Option Arrangement
  | .worked (.change a) => some a
  | _ => none

def isFlush : Beat → Bool
  | .worked (.flush _) => true
  | _ => false

def isTurn : Beat → Bool
  | .worked (.flush _) => true
  | .worked (.change _) => true
  | .vacant => true
  | .rested => true
  | _ => false

def due (before : Bool) : Beat → Bool
  | .worked (.deliver _) => true
  | .worked (.flush _) => false
  | _ => before

def waiting (before : Option Arrangement) : Beat → Option Arrangement
  | .published a => some a
  | .worked (.change _) => none
  | _ => before

theorem due_cases (beat : Beat) :
    (∃ record, beat = .worked (.deliver record)) ∨ (∃ dropped, beat = .worked (.flush dropped)) ∨
      (∀ record, beat ≠ .worked (.deliver record)) ∧ (∀ dropped, beat ≠ .worked (.flush dropped)) ∧
        ∀ before, beat.due before = before := by
  cases beat with
  | worked job =>
    cases job with
    | deliver record => exact .inl ⟨record, rfl⟩
    | flush dropped => exact .inr (.inl ⟨dropped, rfl⟩)
    | _ => exact .inr (.inr ⟨fun _ h => (by cases h), fun _ h => (by cases h), fun _ => rfl⟩)
  | _ => exact .inr (.inr ⟨fun _ h => (by cases h), fun _ h => (by cases h), fun _ => rfl⟩)

theorem waiting_cases (beat : Beat) :
    (∃ a, beat = .published a) ∨ (∃ a, beat = .worked (.change a)) ∨
      (beat.published? = none ∧ beat.applied? = none) ∧
        ∀ before, beat.waiting before = before := by
  cases beat with
  | published a => exact .inl ⟨a, rfl⟩
  | worked job =>
    cases job with
    | change a => exact .inr (.inl ⟨a, rfl⟩)
    | _ => exact .inr (.inr ⟨⟨rfl, rfl⟩, fun _ => rfl⟩)
  | _ => exact .inr (.inr ⟨⟨rfl, rfl⟩, fun _ => rfl⟩)

end Beat

def Settled (beats : List Beat) : Prop :=
  ∀ earlier record later, beats = earlier ++ .worked (.deliver record) :: later →
    ∃ dropped, .worked (.flush dropped) ∈ later

theorem split_append_singleton {α : Type} {xs before after : List α} {last x : α}
    (h : xs ++ [last] = before ++ x :: after) :
    before = xs ∧ x = last ∧ after = [] ∨
      ∃ more, xs = before ++ x :: more ∧ after = more ++ [last] := by
  rcases append_eq_split h with ⟨more, hxs, hafter⟩ | ⟨more, hbefore, hlast⟩
  · exact .inr ⟨more, hxs, hafter⟩
  · cases more with
    | nil =>
      obtain ⟨rfl, rfl⟩ := List.cons.inj hlast
      exact .inl ⟨by rw [hbefore, List.append_nil], rfl, rfl⟩
    | cons y more => cases more <;> cases hlast

theorem settled_iff (beats : List Beat) : Settled beats ↔ beats.foldl Beat.due false = false := by
  induction beats using List.reverseRecOn with
  | nil =>
    refine ⟨fun _ => rfl, fun _ earlier record later hsplit => ?_⟩
    cases earlier <;> cases hsplit
  | append_singleton beats beat ih =>
    rw [List.foldl_append, List.foldl_cons, List.foldl_nil]
    rcases beat.due_cases with ⟨record, rfl⟩ | ⟨dropped, rfl⟩ | ⟨hdeliver, hflush, hkeeps⟩
    · refine ⟨fun h => ?_, fun h => by cases h⟩
      obtain ⟨dropped, hmem⟩ := h beats record [] rfl
      cases hmem
    · refine ⟨fun _ => rfl, fun _ earlier record later hsplit => ?_⟩
      rcases split_append_singleton hsplit with ⟨-, hlast, -⟩ | ⟨more, -, rfl⟩
      · cases hlast
      · exact ⟨dropped, by simp⟩
    · rw [hkeeps, ← ih]
      constructor
      · intro h earlier record later hsplit
        obtain ⟨dropped, hmem⟩ := h earlier record (later ++ [beat]) (by rw [hsplit]; simp)
        rcases List.mem_append.mp hmem with hmem | hmem
        · exact ⟨dropped, hmem⟩
        · exact absurd (List.mem_singleton.mp hmem).symm (hflush dropped)
      · intro h earlier record later hsplit
        rcases split_append_singleton hsplit with ⟨-, hlast, -⟩ | ⟨more, hbeats, rfl⟩
        · exact absurd hlast.symm (hdeliver record)
        · obtain ⟨dropped, hmem⟩ := h earlier record more hbeats
          exact ⟨dropped, List.mem_append_left _ hmem⟩

/-- A configuration that waits was the last to be published, and was not taken over since. -/
theorem published_of_waiting {beats : List Beat} {a : Arrangement}
    (h : beats.foldl Beat.waiting none = some a) :
    ∃ earlier later, beats = earlier ++ .published a :: later ∧
      ∀ beat ∈ later, beat.published? = none ∧ beat.applied? = none := by
  induction beats using List.reverseRecOn with
  | nil => cases h
  | append_singleton beats beat ih =>
    rw [List.foldl_append, List.foldl_cons, List.foldl_nil] at h
    rcases beat.waiting_cases with ⟨a', rfl⟩ | ⟨a', rfl⟩ | ⟨hneither, hkeeps⟩
    · cases h
      exact ⟨beats, [], rfl, fun _ hmem => by cases hmem⟩
    · cases h
    · obtain ⟨earlier, later, hsplit, hlater⟩ := ih ((hkeeps _).symm.trans h)
      refine ⟨earlier, later ++ [beat], by rw [hsplit]; simp, fun other hother => ?_⟩
      rcases List.mem_append.mp hother with hother | hother
      · exact hlater other hother
      · exact List.mem_singleton.mp hother ▸ hneither

/-- If only the configuration that waits is taken over, then they are taken over in the order in
which they were published, each at most once. -/
theorem applied_sublist_published {beats : List Beat}
    (h : ∀ before a after, beats = before ++ .worked (.change a) :: after →
      before.foldl Beat.waiting none = some a) :
    (beats.filterMap Beat.applied? ++ (beats.foldl Beat.waiting none).toList).Sublist
      (beats.filterMap Beat.published?) := by
  induction beats using List.reverseRecOn with
  | nil => exact .refl _
  | append_singleton beats beat ih =>
    have hbeats := ih fun before a after hsplit =>
      h before a (after ++ [beat]) (by rw [hsplit]; simp)
    rw [List.foldl_append, List.foldl_cons, List.foldl_nil, List.filterMap_append,
      List.filterMap_append]
    rcases beat.waiting_cases with ⟨a, rfl⟩ | ⟨a, rfl⟩ | ⟨⟨hpublished, happlied⟩, hkeeps⟩
    · have hbefore := (List.sublist_append_left _ _).trans hbeats
      change (_ ++ [] ++ [a]).Sublist (_ ++ [a])
      rw [List.append_nil]
      exact hbefore.append (.refl [a])
    · rw [h beats a [] rfl] at hbeats
      exact (List.append_nil _).symm ▸ hbeats.trans (List.sublist_append_left _ _)
    · rw [hkeeps, List.filterMap_cons_none happlied, List.filterMap_cons_none hpublished]
      simpa using hbeats

/-! ## The beats of a run -/

namespace Background

variable (r : Background)

def beats : List Beat :=
  match r.job?, r.stage with
  | some job, _ => [.worked job]
  | none, .idle =>
    if r.stock.running then
      match (r.phase.turn r.published.isSome).1 with
      | .rest => [.rested]
      | _ => [.vacant]
    else []
  | none, _ => []

def due : Bool :=
  match r.stage with
  | .delivered _ => true
  | _ => decide (r.phase = .flushDue)

variable {r}

theorem resume_of_alive {w : Worked} {next : Background → Background}
    (halive : ∀ lost, (r.resume env w next).stage ≠ .ended lost) :
    r.resume env w next = next { r with outlet := w.outlet, journal := w.journal } := by
  rcases r.resume_cases env w next with ⟨-, heq⟩ | ⟨reason, -, heq⟩
  · exact heq
  · exact absurd (heq ▸ (fail_eq _ env reason).1) (halive false)

theorem flush_of_alive (halive : ∀ lost, (r.flush env).stage ≠ .ended lost) :
    (r.flush env).stage = r.stage ∧ (r.flush env).phase = r.phase ∧
      (r.flush env).published = r.published := by
  rw [flush] at halive ⊢
  dsimp only at halive ⊢
  rw [resume_of_alive halive]
  exact ⟨rfl, rfl, rfl⟩

theorem change_of_alive (halive : ∀ lost, (r.change env).stage ≠ .ended lost) :
    (r.change env).stage = r.stage ∧ (r.change env).phase = r.phase ∧
      (r.change env).published = none := by
  cases hpublished : r.published with
  | none => simp only [change, hpublished, and_self]
  | some a =>
    simp only [change, hpublished] at halive ⊢
    rw [resume_of_alive halive]
    exact ⟨rfl, rfl, rfl⟩

theorem useTurn_of_alive (halive : ∀ lost, (r.useTurn env).stage ≠ .ended lost) :
    let turned := r.phase.turn r.published.isSome
    (r.useTurn env).stage = .ready ∧ (r.useTurn env).phase = turned.2 ∧
      (r.useTurn env).published = if turned.1 = .change then none else r.published := by
  rw [useTurn] at halive ⊢
  generalize r.phase.turn r.published.isSome = turned at halive ⊢
  obtain ⟨turn, phase⟩ := turned
  cases turn with
  | flush => exact flush_of_alive halive
  | change => exact change_of_alive halive
  | rest => exact ⟨rfl, rfl, rfl⟩

theorem beats_idle (hstage : r.stage = .idle) (hrunning : r.stock.running = true) :
    let turned := r.phase.turn r.published.isSome
    r.phase = .flushDue ∧ turned = (.flush, .changeDue) ∧
        r.beats = [.worked (.flush r.stock.dropped)] ∨
      r.phase ≠ .flushDue ∧ turned.2 = .quiet ∧
        ((∃ a, r.published = some a ∧ turned.1 = .change ∧ r.beats = [.worked (.change a)]) ∨
          r.published = none ∧ (r.beats = [.vacant] ∨ r.beats = [.rested])) := by
  have hjob : r.job? = r.idleJob? := by rw [job?, hstage]; exact if_pos hrunning
  simp only [beats, hjob, idleJob?, hstage, hrunning, ↓reduceIte]
  cases r.phase with
  | flushDue => exact .inl ⟨rfl, rfl, rfl⟩
  | changeDue =>
    refine .inr ⟨Phase.noConfusion, rfl, ?_⟩
    cases r.published with
    | none => exact .inr ⟨rfl, .inl rfl⟩
    | some a => exact .inl ⟨a, rfl, rfl, rfl⟩
  | quiet =>
    refine .inr ⟨Phase.noConfusion, rfl, ?_⟩
    cases r.published with
    | none => exact .inr ⟨rfl, .inr rfl⟩
    | some a => exact .inl ⟨a, rfl, rfl, rfl⟩

theorem step_of_alive (halive : ∀ lost, (r.step env).stage ≠ .ended lost) :
    (r.step env).due = r.beats.foldl Beat.due r.due ∧
      (r.step env).published = r.beats.foldl Beat.waiting r.published := by
  cases hstage : r.stage with
  | ready =>
    cases hqueue : r.queue with
    | nil =>
      have hbeats : r.beats = [] := by simp only [beats, job?, hstage, hqueue]; rfl
      rw [step_ready_nil hstage hqueue, hbeats]
      refine ⟨?_, rfl⟩
      simp only [due, hstage, List.foldl_nil]
    | cons record rest =>
      have hbeats : r.beats = [.worked (.deliver record)] := by
        simp only [beats, job?, hstage, hqueue]; rfl
      rw [r.step_takes env hstage hqueue] at halive ⊢
      rw [resume_of_alive halive, hbeats]
      exact ⟨rfl, rfl⟩
  | delivered record =>
    have hbeats : r.beats = [] := by simp only [beats, job?, hstage]
    rw [step_delivered hstage, hbeats]
    refine ⟨?_, rfl⟩
    simp only [due, hstage, List.foldl_nil]
    rfl
  | idle =>
    cases hrunning : r.stock.running with
    | true =>
      rw [step_idle hstage hrunning] at halive ⊢
      obtain ⟨hready, hphase, hpublished⟩ := useTurn_of_alive halive
      have hdue : (r.useTurn env).due =
          decide ((r.phase.turn r.published.isSome).2 = .flushDue) := by
        rw [due, hready, hphase]
      have hbefore : r.due = decide (r.phase = .flushDue) := by rw [due, hstage]
      rw [hdue, hpublished, hbefore]
      rcases beats_idle hstage hrunning with ⟨-, hturned, hbeats⟩ |
        ⟨hphase, hturned, ⟨a, -, hchange, hbeats⟩ | ⟨hnone, hbeats⟩⟩
      · rw [hturned, hbeats]
        exact ⟨rfl, rfl⟩
      · rw [hturned, hchange, hbeats, decide_eq_false hphase]
        exact ⟨rfl, rfl⟩
      · rw [hturned, hnone, ite_self, decide_eq_false hphase]
        rcases hbeats with hbeats | hbeats <;> rw [hbeats] <;> exact ⟨rfl, rfl⟩
    | false =>
      have hbeats : r.beats = [] := by simp [beats, job?, hstage, hrunning]
      rw [step_idle_stopped hstage hrunning, hbeats]
      refine ⟨?_, rfl⟩
      simp only [due, hstage, List.foldl_nil]
  | stopping =>
    cases hqueue : r.queue with
    | nil =>
      rw [r.step_finishes env hstage hqueue] at halive
      exact absurd (r.finish_eq env).1 (halive _)
    | cons record rest =>
      have hbeats : r.beats = [] := by simp [beats, job?, hstage, hqueue]
      rw [step_stopping_cons hstage hqueue, hbeats]
      refine ⟨?_, rfl⟩
      simp only [due, hstage, List.foldl_nil]
  | ended lost =>
    rw [step_ended hstage] at halive
    exact absurd hstage (halive lost)

theorem update_cases (r : Background) (c : Config) :
    (∃ a, c.arrange = .ok a ∧ r.accepting = true ∧
      r.update c = ({ r with published := some a }, .done)) ∨
    ∃ error, r.update c = (r, .refused error) := by
  rw [update]
  cases harrange : c.arrange with
  | error error => exact .inr ⟨error, rfl⟩
  | ok a =>
    by_cases haccepting : r.accepting = true
    · exact .inl ⟨a, rfl, haccepting, if_pos haccepting⟩
    · exact .inr ⟨.stopped, if_neg haccepting⟩

structure Plays (r : Background) (beat : Beat) : Prop where
  beats_eq : r.beats = [beat]
  alive : ∀ lost, r.stage ≠ .ended lost
  turn : beat.isTurn = true → beat.isFlush = r.due
  waits : ∀ a, beat = .worked (.change a) → r.published = some a
  own : beat.published? = none

theorem Plays.of_no_turn {job : Job} (hbeats : r.beats = [.worked job])
    (halive : ∀ lost, r.stage ≠ .ended lost) (hturn : (Beat.worked job).isTurn = false) :
    r.Plays (.worked job) where
  beats_eq := hbeats
  alive := halive
  turn hyes := by cases hturn.symm.trans hyes
  waits a hchange := by
    rw [hchange] at hturn
    cases hturn
  own := rfl

theorem Plays.of_mem {beat : Beat} (h : beat ∈ r.beats) : r.Plays beat := by
  have hnothing (hbeats : r.beats = []) : False := by rw [hbeats] at h; cases h
  have honly {other : Beat} (hbeats : r.beats = [other]) : beat = other :=
    List.mem_singleton.mp (hbeats ▸ h)
  cases hstage : r.stage with
  | ready =>
    cases hqueue : r.queue with
    | nil => exact (hnothing (by simp only [beats, job?, hstage, hqueue]; rfl)).elim
    | cons record rest =>
      have hbeats : r.beats = [.worked (.deliver record)] := by
        simp only [beats, job?, hstage, hqueue]; rfl
      rw [honly hbeats]
      exact .of_no_turn hbeats (by simp [hstage]) rfl
  | delivered record => exact (hnothing (by simp only [beats, job?, hstage])).elim
  | idle =>
    cases hrunning : r.stock.running with
    | true =>
      have halive : ∀ lost, r.stage ≠ .ended lost := by simp [hstage]
      have hdue : r.due = decide (r.phase = .flushDue) := by rw [due, hstage]
      rcases beats_idle hstage hrunning with ⟨hphase, -, hbeats⟩ |
        ⟨hphase, -, ⟨a, hpublished, -, hbeats⟩ | ⟨-, hbeats⟩⟩
      · rw [honly hbeats]
        exact ⟨hbeats, halive, fun _ => by rw [hdue, hphase]; rfl, fun _ h => (by cases h), rfl⟩
      · rw [honly hbeats]
        refine ⟨hbeats, halive, fun _ => by rw [hdue, decide_eq_false hphase]; rfl, ?_, rfl⟩
        rintro _ ⟨⟩
        exact hpublished
      · rcases hbeats with hbeats | hbeats
        all_goals
          rw [honly hbeats]
          exact ⟨hbeats, halive, fun _ => by rw [hdue, decide_eq_false hphase]; rfl,
            fun _ h => (by cases h), rfl⟩
    | false => exact (hnothing (by simp [beats, job?, hstage, hrunning])).elim
  | stopping =>
    cases hqueue : r.queue with
    | nil =>
      have hbeats : r.beats = [.worked (.close r.stock.dropped)] := by
        simp [beats, job?, hstage, hqueue]
      rw [honly hbeats]
      exact .of_no_turn hbeats (by simp [hstage]) rfl
    | cons record rest => exact (hnothing (by simp [beats, job?, hstage, hqueue])).elim
  | ended lost => exact (hnothing (by simp only [beats, job?, hstage])).elim

end Background

namespace Traffic

def beats (t : Traffic) (act : Act) : List Beat :=
  match t.runner, act with
  | .background r, .update c =>
    match c.arrange, (r.update c).2 with
    | .ok a, .done => [.published a]
    | _, _ => []
  | .background r, .work => r.beats
  | _, _ => []

def course (env : Environment) (t : Traffic) : List Act → List Beat
  | [] => []
  | act :: acts => t.beats act ++ (t.perform env act).course env acts

theorem course_append (env : Environment) (t : Traffic) (first rest : List Act) :
    t.course env (first ++ rest) = t.course env first ++ (t.run env first).course env rest := by
  induction first generalizing t with
  | nil => rfl
  | cons act first ih =>
    rw [List.cons_append, course, course, ih, List.append_assoc]
    rfl

theorem beats_work {t : Traffic} {r : Background} (hrunner : t.runner = .background r) :
    t.beats .work = r.beats := by
  simp only [beats, hrunner]

/-- Others than the worker publish a configuration, or do nothing that it plays by. -/
theorem perform_steady (env : Environment) {t : Traffic} {r : Background}
    (hrunner : t.runner = .background r) {act : Act} (hact : act ≠ .work) :
    ∃ s, (t.perform env act).runner = .background s ∧ r.Between s ∧ s.phase = r.phase ∧
      (t.beats act = [] ∧ s.published = r.published ∨
        ∃ c a, act = .update c ∧ (r.update c).2 = .done ∧ c.arrange = .ok a ∧ r.accepting = true ∧
          t.beats act = [.published a] ∧ s.published = some a) := by
  obtain ⟨s, hperform, hbetween⟩ := perform_background env hrunner hact
  refine ⟨s, hperform, hbetween, ?_⟩
  obtain ⟨_, held, leaving⟩ := t
  cases hrunner
  cases act with
  | acquire =>
    rw [perform] at hperform
    split at hperform <;> cases hperform <;> exact ⟨rfl, .inl ⟨rfl, rfl⟩⟩
  | submit place thread =>
    rw [perform] at hperform
    split at hperform
    · cases hperform
      exact ⟨rfl, .inl ⟨rfl, rfl⟩⟩
    · simp only [Runner.enter] at hperform
      split at hperform <;> rename_i hentered <;> obtain ⟨rfl, -⟩ := Prod.mk.inj hentered <;>
        cases hperform <;> exact ⟨rfl, .inl ⟨rfl, rfl⟩⟩
  | settle place =>
    rw [perform] at hperform
    split at hperform <;> cases hperform <;> exact ⟨rfl, .inl ⟨rfl, rfl⟩⟩
  | update c =>
    rcases r.update_cases c with ⟨a, harrange, haccepting, hupdate⟩ | ⟨error, hupdate⟩
    · simp only [perform, Runner.update, hupdate] at hperform
      cases hperform
      refine ⟨rfl, .inr ⟨c, a, rfl, by rw [hupdate], harrange, haccepting, ?_, rfl⟩⟩
      simp only [beats, harrange, hupdate]
    · simp only [perform, Runner.update, hupdate] at hperform
      cases hperform
      refine ⟨rfl, .inl ⟨?_, rfl⟩⟩
      simp only [beats, hupdate]
      split
      · rename_i hrefused
        cases hrefused
      · rfl
  | work => exact absurd rfl hact
  | _ =>
    cases hperform
    exact ⟨rfl, .inl ⟨rfl, rfl⟩⟩

theorem length_beats_le (t : Traffic) (act : Act) : (t.beats act).length ≤ 1 := by
  obtain ⟨runner, held, leaving⟩ := t
  cases runner with
  | immediate r => exact Nat.zero_le 1
  | background r =>
    cases act with
    | update c =>
      simp only [beats]
      split
      · exact Nat.le_refl 1
      · exact Nat.zero_le 1
    | work =>
      change r.beats.length ≤ 1
      by_cases hnone : r.beats = []
      · rw [hnone]
        exact Nat.zero_le 1
      · obtain ⟨beat, hbeat⟩ := List.exists_mem_of_ne_nil _ hnone
        rw [(Background.Plays.of_mem hbeat).beats_eq]
        exact Nat.le_refl 1
    | _ => exact Nat.zero_le 1

theorem exists_turn_of_course (env : Environment) {t : Traffic} {acts : List Act}
    {before after : List Beat} {beat : Beat} (h : t.course env acts = before ++ beat :: after) :
    ∃ earlier act later, acts = earlier ++ act :: later ∧ before = t.course env earlier ∧
      (t.run env earlier).beats act = [beat] := by
  induction acts using List.reverseRecOn generalizing after with
  | nil => cases before <;> cases h
  | append_singleton acts act ih =>
    rw [course_append, course, course, List.append_nil] at h
    rcases append_eq_split h with ⟨more, hearly, -⟩ | ⟨more, rfl, hlast⟩
    · obtain ⟨earlier, turn, later, rfl, hbefore, hbeats⟩ := ih hearly
      exact ⟨earlier, turn, later ++ [act], by simp, hbefore, hbeats⟩
    · have hlength := (t.run env acts).length_beats_le act
      rw [hlast, List.length_append, List.length_cons] at hlength
      obtain rfl := List.eq_nil_of_length_eq_zero (l := more) (by omega)
      obtain rfl := List.eq_nil_of_length_eq_zero (l := after) (by omega)
      exact ⟨acts, act, [], rfl, by rw [List.append_nil], hlast⟩

end Traffic

/-- A worker that has not ended stands where the beats since its start say, and its outlet and its
journal are what its jobs made of them. -/
structure Background.Follows (env : Environment) (start : Background) (beats : List Beat)
    (r : Background) : Prop where
  due_eq : r.due = beats.foldl Beat.due false
  published_eq : r.published = beats.foldl Beat.waiting none
  made : (r.outlet, r.journal) =
    (beats.filterMap Beat.job?).foldl (Job.apply env) (start.outlet, start.journal)

namespace Background

variable {begun r s : Background} {played : List Beat}

theorem filterMap_job?_beats (r : Background) : r.beats.filterMap Beat.job? = r.job?.toList := by
  rw [beats]
  cases r.job? with
  | some job => rfl
  | none =>
    cases r.stage with
    | idle =>
      dsimp only
      split
      · split <;> rfl
      · rfl
    | _ => rfl

theorem Follows.begin (hstart : start env c = .running r) : r.Follows env [] r := by
  have hfresh : r.published = none ∧ r.phase = .quiet := by
    rw [start] at hstart
    cases harrange : c.arrange with
    | error error => simp [harrange] at hstart
    | ok a =>
      simp only [harrange] at hstart
      split at hstart
      · cases hstart
      · cases hstart
        exact ⟨rfl, rfl⟩
  obtain ⟨-, hstage, -⟩ := start_running hstart
  refine ⟨?_, hfresh.1, rfl⟩
  rw [due, hstage, hfresh.2]
  rfl

theorem Follows.step (h : begun.Follows env played r)
    (halive : ∀ lost, (r.step env).stage ≠ .ended lost) :
    begun.Follows env (played ++ r.beats) (r.step env) := by
  obtain ⟨hdue, hpublished⟩ := step_of_alive halive
  refine ⟨?_, ?_, ?_⟩
  · rw [hdue, h.due_eq, List.foldl_append]
  · rw [hpublished, h.published_eq, List.foldl_append]
  · have hbefore : ∀ lost, r.stage ≠ .ended lost := fun lost hstage => by
      rw [step_ended hstage] at halive
      exact halive lost hstage
    have hgoes := r.step_goes env hbefore
    generalize r.step env = s at hgoes halive
    cases hgoes with
    | on _ hmade =>
      rw [hmade, List.filterMap_append, filterMap_job?_beats, List.foldl_append, h.made]
    | fails => exact absurd rfl (halive false)
    | closes => exact absurd (r.finish_eq env).1 (halive _)

theorem Follows.between (h : begun.Follows env played r) (hbetween : r.Between s)
    (hphase : s.phase = r.phase) (hpublished : s.published = r.published) :
    begun.Follows env played s where
  due_eq := by
    rw [due, hbetween.stage_eq, hphase]
    exact h.due_eq
  published_eq := hpublished.trans h.published_eq
  made := by
    rw [hbetween.outlet_eq, hbetween.journal_eq]
    exact h.made

theorem Follows.publish (h : begun.Follows env played r) (hbetween : r.Between s)
    (hphase : s.phase = r.phase) {a : Arrangement} (hpublished : s.published = some a) :
    begun.Follows env (played ++ [.published a]) s where
  due_eq := by
    rw [due, hbetween.stage_eq, hphase, List.foldl_append]
    exact h.due_eq
  published_eq := by
    rw [List.foldl_append]
    exact hpublished
  made := by
    rw [hbetween.outlet_eq, hbetween.journal_eq, List.filterMap_append]
    exact h.made.trans (by rw [List.filterMap_cons_none rfl, List.filterMap_nil, List.append_nil])

end Background

section Runs

variable {start : Background} (hstart : Background.start env c = .running start)
include hstart

theorem Traffic.course_follows (acts : List Act) :
    ∃ r, (Traffic.run env { runner := .background start } acts).runner = .background r ∧
      ((∀ lost, r.stage ≠ .ended lost) →
        start.Follows env (Traffic.course env { runner := .background start } acts) r) := by
  induction acts using List.reverseRecOn with
  | nil => exact ⟨start, rfl, fun _ => .begin hstart⟩
  | append_singleton acts act ih =>
    obtain ⟨r, hrunner, hfollows⟩ := ih
    rw [run_append, course_append, course, course, List.append_nil]
    by_cases hact : act = .work
    · subst hact
      rw [beats_work hrunner]
      refine ⟨r.step env, perform_work env hrunner, fun halive =>
        (hfollows fun lost hstage => ?_).step halive⟩
      rw [Background.step_ended hstage] at halive
      exact halive lost hstage
    · obtain ⟨s, hperform, hbetween, hphase, hsteady⟩ := perform_steady env hrunner hact
      refine ⟨s, hperform, fun halive => ?_⟩
      have hbefore : ∀ lost, r.stage ≠ .ended lost := hbetween.stage_eq ▸ halive
      rcases hsteady with ⟨hbeats, hpublished⟩ | ⟨c, a, -, -, -, -, hbeats, hpublished⟩
      · rw [hbeats, List.append_nil]
        exact (hfollows hbefore).between hbetween hphase hpublished
      · rw [hbeats]
        exact (hfollows hbefore).publish hbetween hphase hpublished

omit hstart in
theorem Traffic.course_of_ended {t : Traffic} {r : Background} {lost : Bool}
    (hrunner : t.runner = .background r) (hended : r.stage = .ended lost)
    (hrunning : r.stock.running = false) (haccepting : r.accepting = false) (acts : List Act) :
    t.course env acts = [] := by
  induction acts generalizing t r with
  | nil => rfl
  | cons act acts ih =>
    rw [course]
    by_cases hact : act = .work
    · subst hact
      have hbeats : r.beats = [] := List.eq_nil_iff_forall_not_mem.mpr fun beat hbeat =>
        (Background.Plays.of_mem hbeat).alive lost hended
      have hperform := perform_work env hrunner
      rw [Background.step_ended hended] at hperform
      rw [beats_work hrunner, hbeats, ih hperform hended hrunning haccepting]
      rfl
    · obtain ⟨s, hperform, hbetween, -, hsteady⟩ := perform_steady env hrunner hact
      have hstopped := (hbetween.stopped hrunning).1
      rw [ih hperform (hbetween.stage_eq.trans hended) hstopped
        (hbetween.refusing (fun _ => haccepting) hstopped), List.append_nil]
      rcases hsteady with ⟨hbeats, -⟩ | ⟨c, a, -, -, -, haccepts, -⟩
      · exact hbeats
      · cases haccepting.symm.trans haccepts

/-- A beat of a run comes when the worker stands where the beats before say, or an update was
accepted. -/
theorem Traffic.plays_or_published {acts : List Act} {before after : List Beat} {beat : Beat}
    (hsplit : Traffic.course env { runner := .background start } acts = before ++ beat :: after) :
    (∃ r, r.Plays beat ∧ start.Follows env before r) ∨
      ∃ a, beat = .published a ∧ ∃ earlier c later r, acts = earlier ++ .update c :: later ∧
        (Traffic.run env { runner := .background start } earlier).runner = .background r ∧
        (r.update c).2 = .done ∧ c.arrange = .ok a := by
  obtain ⟨earlier, act, later, hacts, rfl, hplayed⟩ := exists_turn_of_course env hsplit
  obtain ⟨r, hrunner, hfollows⟩ := course_follows hstart earlier
  by_cases hact : act = .work
  · subst hact
    rw [beats_work hrunner] at hplayed
    have hplays : r.Plays beat := .of_mem (hplayed ▸ List.mem_singleton_self beat)
    exact .inl ⟨r, hplays, hfollows hplays.alive⟩
  · obtain ⟨s, -, -, -, hsteady⟩ := perform_steady env hrunner hact
    rcases hsteady with ⟨hnone, -⟩ | ⟨c, a, rfl, hdone, harrange, -, hpublished, -⟩
    · cases hnone.symm.trans hplayed
    · obtain ⟨rfl, -⟩ := List.cons.inj (hplayed.symm.trans hpublished)
      exact .inr ⟨a, rfl, earlier, c, later, r, hacts, hrunner, hdone, harrange⟩

theorem Traffic.course_ends {acts : List Act} {r : Background}
    (hrunner : (Traffic.run env { runner := .background start } acts).runner = .background r)
    {lost : Bool} (hended : r.stage = .ended lost) :
    ∃ earlier later last broken closing broke p q, acts = earlier ++ .work :: later ∧
      (Traffic.run env { runner := .background start } earlier).runner = .background last ∧
      start.Follows env (Traffic.course env { runner := .background start } earlier) last ∧
      Traffic.course env { runner := .background start } acts =
        Traffic.course env { runner := .background start } earlier ++ last.beats ∧
      r.journal.requests = last.journal.requests ++ broken ++ closing ∧
      (last.beats = [.worked (.close last.stock.dropped)] ∧ broken = [] ∨
        ∃ job, last.beats = [.worked job] ∧ (∀ dropped, job ≠ .close dropped) ∧
          BreaksOff env p last.journal.requests (job.requests env last.outlet last.journal) broken) ∧
      Closes env q last.outlet.handles (last.journal.requests ++ broken) closing broke := by
  obtain ⟨r', hrunner', -, hends⟩ := run_background hstart acts
  obtain rfl : r = r' := Runner.background.inj (hrunner.symm.trans hrunner')
  obtain ⟨earlier, later, last, rfl, hlast, halive, htended, hbetween⟩ := hends lost hended
  have hclosed : (last.step env).stage = .ended lost := hbetween.stage_eq.symm.trans hended
  obtain ⟨hrunning, haccepting, -, broken, closing, broke, p, q, hrequests, hcause, hcloses⟩ :=
    last.step_closes htended halive hclosed
  obtain ⟨last', hlast', hstands⟩ := course_follows hstart earlier
  obtain rfl : last = last' := Runner.background.inj (hlast.symm.trans hlast')
  have hplayed {job : Job} (hjob : last.job? = some job) : last.beats = [.worked job] := by
    rw [Background.beats, hjob]
  refine ⟨earlier, later, last, broken, closing, broke, p, q, rfl, hlast, hstands halive, ?_, ?_,
    ?_, hcloses⟩
  · rw [course_append, course, beats_work hlast, course_of_ended (perform_work env hlast) hclosed
      hrunning haccepting, List.append_nil]
  · rw [hbetween.journal_eq, hrequests]
  · rcases hcause with ⟨⟨hstage, hqueue⟩, hnone, -⟩ | ⟨-, job, hjob, hclose, hcut⟩
    · refine .inl ⟨hplayed ?_, hnone⟩
      rw [Background.job?, hstage, hqueue]
      rfl
    · exact .inr ⟨job, hplayed hjob, hclose, hcut⟩

/-- Whatever the appenders answer, and whenever messages come, configurations are published and the
worker gets its turns: a turn without a message flushes if and only if some message was not followed
by a flush. So the first such turn after messages flushes, no other does, and only when all messages
were flushed the worker rests or takes over a configuration. The one that it takes over was accepted
by an update, was published last, and was not taken over since, so configurations are taken over in
the order in which they were published, each at most once. Until the worker ends, its outlet and its
journal are what the jobs in its course made of them. It ends with one step: either its job breaks
off, or all is delivered. After that all that the appenders get is the last lines, a flush for each
and only then a disposal for each, up to a call that breaks off. -/
theorem worker_keeps_discipline (acts : List Act) :
    let begun : Traffic := { runner := .background start }
    let beats := begun.course env acts
    (∀ before beat after, beats = before ++ beat :: after →
      (beat.isTurn = true → (beat.isFlush = true ↔ ¬ Settled before)) ∧
      (∀ a, beat = .worked (.change a) → ∃ earlier later,
        before = earlier ++ .published a :: later ∧
          ∀ other ∈ later, other.published? = none ∧ other.applied? = none) ∧
      ∀ a, beat = .published a → ∃ earlier c later r, acts = earlier ++ .update c :: later ∧
        (begun.run env earlier).runner = .background r ∧ (r.update c).2 = .done ∧
        c.arrange = .ok a) ∧
    (beats.filterMap Beat.applied?).Sublist (beats.filterMap Beat.published?) ∧
    ∃ r, (begun.run env acts).runner = .background r ∧
      ((∀ lost, r.stage ≠ .ended lost) → (r.outlet, r.journal) =
        (beats.filterMap Beat.job?).foldl (Job.apply env) (start.outlet, start.journal)) ∧
      ∀ lost, r.stage = .ended lost → ∃ earlier later last broken closing broke p q,
        acts = earlier ++ .work :: later ∧
        (begun.run env earlier).runner = .background last ∧
        (last.outlet, last.journal) = ((begun.course env earlier).filterMap Beat.job?).foldl
          (Job.apply env) (start.outlet, start.journal) ∧
        beats = begun.course env earlier ++ last.beats ∧
        r.journal.requests = last.journal.requests ++ broken ++ closing ∧
        (last.beats = [.worked (.close last.stock.dropped)] ∧ broken = [] ∨
          ∃ job, last.beats = [.worked job] ∧ (∀ dropped, job ≠ .close dropped) ∧
            BreaksOff env p last.journal.requests (job.requests env last.outlet last.journal) broken) ∧
        Closes env q last.outlet.handles (last.journal.requests ++ broken) closing broke := by
  intro begun beats
  have happlied {before after : List Beat} {a : Arrangement}
      (hsplit : beats = before ++ .worked (.change a) :: after) :
      before.foldl Beat.waiting none = some a := by
    rcases Traffic.plays_or_published hstart hsplit with ⟨r, hplays, hfollows⟩ | ⟨a', hpublished, -⟩
    · exact hfollows.published_eq.symm.trans (hplays.waits a rfl)
    · cases hpublished
  refine ⟨fun before beat after hsplit => ⟨fun hturn => ?_, fun a hchange => ?_,
    fun a hpublish => ?_⟩, ?_, ?_⟩
  · rcases Traffic.plays_or_published hstart hsplit with ⟨r, hplays, hfollows⟩ | ⟨a', rfl, -⟩
    · rw [settled_iff, hplays.turn hturn, hfollows.due_eq, Bool.not_eq_false]
    · cases hturn
  · subst hchange
    exact published_of_waiting (happlied hsplit)
  · rcases Traffic.plays_or_published hstart hsplit with ⟨r, hplays, -⟩ | ⟨a', rfl, hupdate⟩
    · rw [hpublish] at hplays
      cases hplays.own
    · cases hpublish
      exact hupdate
  · exact (List.sublist_append_left _ _).trans
      (applied_sublist_published fun before a after hsplit => happlied hsplit)
  · obtain ⟨r, hrunner, hfollows⟩ := Traffic.course_follows hstart acts
    refine ⟨r, hrunner, fun halive => (hfollows halive).made, fun lost hended => ?_⟩
    obtain ⟨earlier, later, last, broken, closing, broke, p, q, hacts, hlast, hstands, hrest⟩ :=
      Traffic.course_ends hstart hrunner hended
    exact ⟨earlier, later, last, broken, closing, broke, p, q, hacts, hlast, hstands.made, hrest⟩

end Runs

theorem worker_keeps_discipline_change : ∃ start,
    Background.start {} { poolSize := 1, heading := "", appenders := [⟨"kept", .trace, 0⟩] } =
        .running start ∧
      ∃ before a, Traffic.course {} { runner := .background start } [.acquire, .submit 0 "main",
          .settle 0, .work, .work, .work, .update { heading := "" }, .work, .work, .work] =
        before ++ [.worked (.change a)] ∧ Settled before ∧ before.length = 3 := by
  obtain ⟨start, hstart⟩ : ∃ start,
      Background.start {} { poolSize := 1, heading := "", appenders := [⟨"kept", .trace, 0⟩] } =
        .running start := ⟨_, rfl⟩
  obtain ⟨hbeats, -⟩ := worker_keeps_discipline hstart [.acquire, .submit 0 "main",
    .settle 0, .work, .work, .work, .update { heading := "" }, .work, .work, .work]
  refine ⟨start, hstart, ?_⟩
  cases hstart
  refine ⟨[_, _, _], _, rfl, ?_, rfl⟩
  obtain ⟨hturn, -⟩ := hbeats [_, _, _] (.worked (.change _)) [] rfl
  by_contra hunsettled
  cases (hturn rfl).mpr hunsettled

end Logbook
