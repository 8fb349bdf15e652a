import OwnX.Task.Scheduler
import OwnX.Foundations.Proofs.MachineProofs
import Mathlib.Data.List.Nodup

/-!
# Reports, rounds and the loop of the scheduler

A report is honoured only for a round that `startNewRound` has started, since only that makes the flag
which `RoundDone` looks at; `startAll` does not. A report that is honoured while the loop is waiting for
the mutex blocks the loop for ever. And a report may end a later round, if that started in the same
second.
-/

namespace OwnX.Task

namespace Scheduler

variable {s : Scheduler} {name other : String} {round now : Int}

theorem accepts_iff :
    s.accepts name round ↔ s.roundDoneFlag name = some false ∧ s.round name = some round := by
  unfold accepts
  split
  · next flag current hflag hround =>
    rw [hflag, hround]
    cases flag <;> simp
  · next hnone =>
    constructor
    · intro h
      exact Bool.noConfusion h
    · rintro ⟨hflag, hround⟩
      exact absurd hround (hnone false round hflag)

@[simp]
theorem roundDoneFlag_setDone (s : Scheduler) (name other : String) :
    (s.setDone name).roundDoneFlag other =
      if other = name then some true else s.roundDoneFlag other := Function.update_apply _ _ _ _

@[simp]
theorem roundDoneFlag_roundCallRegistry (s : Scheduler) (name : String) :
    (s.roundCallRegistry name).roundDoneFlag = s.roundDoneFlag := by
  unfold roundCallRegistry
  split <;> rfl

@[simp]
theorem roundDoneFlag_startNewRound (s : Scheduler) (name : String) (now : Int) (other : String) :
    (s.startNewRound name now).roundDoneFlag other =
      if other = name ∧ name ∈ s.roundCall then some false else s.roundDoneFlag other := by
  unfold startNewRound
  split
  · next h => simp [Function.update_apply, h]
  · next h => simp [h]

@[simp]
theorem round_startNewRound (s : Scheduler) (name : String) (now : Int) (other : String) :
    (s.startNewRound name now).round other =
      if other = name ∧ name ∈ s.roundCall then some now else s.round other := by
  unfold startNewRound
  split
  · next h => simp [Function.update_apply, h]
  · next h => simp [h]

theorem calls_startNewRound (h : name ∈ s.roundCall) (now : Int) :
    (s.startNewRound name now).calls = s.calls ++ [(name, now)] := by
  rw [startNewRound, if_pos h]

/-- `startAll` makes no flag. -/
@[simp]
theorem roundDoneFlag_startAll (s : Scheduler) (now : String → Int) :
    (s.startAll now).roundDoneFlag = s.roundDoneFlag := by
  have hloop : ∀ (names : List String) (t : Scheduler),
      (names.foldl (fun s name => s.startFirst name (now name)) t).roundDoneFlag = t.roundDoneFlag := by
    intro names
    induction names with
    | nil => exact fun _ => rfl
    | cons name names ih => exact fun t => ih (t.startFirst name (now name))
  exact hloop s.roundCall s

end Scheduler

namespace Goroutines

open Scheduler

variable {g g' : Goroutines} {e : SchedulerEvent} {name other : String} {round now : Int}
  {ok : Goroutines → SchedulerEvent → Prop}

/-- The steps, one by one. -/
inductive Moves (g : Goroutines) : SchedulerEvent → Goroutines → Prop where
  | register (name : String) (hmu : g.mu = none) :
    Moves g (.register name) { g with scheduler := g.scheduler.roundCallRegistry name }
  | start (hmu : g.mu = none) (hloop : g.loop = .unstarted) :
    Moves g .start { g with loop := .select, first := true }
  | stop (hloop : g.loop = .select) : Moves g .stop { g with loop := .stopped }
  | lockFirst (hmu : g.mu = none) : Moves g .lockFirst { g with mu := some .first, first := false }
  | startAll (now : String → Int) (hmu : g.mu = some .first) :
    Moves g (.startAll now) { g with scheduler := g.scheduler.startAll now, mu := none }
  | roundDone (name : String) (round : Int) :
    Moves g (.roundDone name round) { g with calling := g.calling ++ [(name, round)] }
  | lockReport (k : Nat) (name : String) (round : Int) (hmu : g.mu = none) :
    Moves g (.lockReport k)
      { g with mu := some (.testing name round), calling := g.calling.eraseIdx k }
  | accept (name : String) (round : Int) (hmu : g.mu = some (.testing name round))
      (hflag : g.scheduler.roundDoneFlag name = some false)
      (hround : g.scheduler.round name = some round) :
    Moves g .test { g with scheduler := g.scheduler.setDone name, mu := some (.sending name) }
  | ignore (name : String) (round : Int) (hmu : g.mu = some (.testing name round))
      (hno : g.scheduler.accepts name round = false) : Moves g .test { g with mu := some .leaving }
  | handOver (name : String) (hmu : g.mu = some (.sending name)) (hloop : g.loop = .select) :
    Moves g .handOver { g with mu := some .leaving, loop := .received name }
  | unlock (hmu : g.mu = some .leaving) : Moves g .unlock { g with mu := none }
  | lockLoop (name : String) (hmu : g.mu = none) (hloop : g.loop = .received name) :
    Moves g .lockLoop { g with mu := some (.starting name), loop := .busy }
  | startNewRound (name : String) (now : Int) (hmu : g.mu = some (.starting name)) :
    Moves g (.startNewRound now)
      { g with scheduler := g.scheduler.startNewRound name now, mu := none, loop := .select }

theorem moves_of_step (hs : g.step e = some g') : Moves g e g' := by
  cases e with
  | register n =>
    simp only [step, Option.ite_none_right_eq_some, Option.some.injEq] at hs
    obtain ⟨hmu, rfl⟩ := hs
    exact .register n hmu
  | start =>
    simp only [step, Option.ite_none_right_eq_some, Option.some.injEq] at hs
    obtain ⟨⟨hmu, hloop⟩, rfl⟩ := hs
    exact .start hmu hloop
  | stop =>
    simp only [step, Option.ite_none_right_eq_some, Option.some.injEq] at hs
    obtain ⟨hloop, rfl⟩ := hs
    exact .stop hloop
  | lockFirst =>
    simp only [step, Option.ite_none_right_eq_some, Option.some.injEq] at hs
    obtain ⟨⟨hmu, -⟩, rfl⟩ := hs
    exact .lockFirst hmu
  | startAll now =>
    simp only [step, Option.ite_none_right_eq_some, Option.some.injEq] at hs
    obtain ⟨hmu, rfl⟩ := hs
    exact .startAll now hmu
  | roundDone n r =>
    obtain rfl := Option.some.inj hs
    exact .roundDone n r
  | lockReport k =>
    rw [step] at hs
    split at hs
    · next n r hmu hk =>
      obtain rfl := Option.some.inj hs
      exact .lockReport k n r hmu
    · exact absurd hs (by simp)
  | test =>
    rw [step] at hs
    split at hs
    · next n r hmu =>
      split at hs
      · next hyes =>
        obtain rfl := Option.some.inj hs
        obtain ⟨hflag, hround⟩ := accepts_iff.1 hyes
        exact .accept n r hmu hflag hround
      · next hno =>
        obtain rfl := Option.some.inj hs
        exact .ignore n r hmu (Bool.eq_false_iff.2 hno)
    · exact absurd hs (by simp)
  | handOver =>
    rw [step] at hs
    split at hs
    · next n hmu hloop =>
      obtain rfl := Option.some.inj hs
      exact .handOver n hmu hloop
    · exact absurd hs (by simp)
  | unlock =>
    simp only [step, Option.ite_none_right_eq_some, Option.some.injEq] at hs
    obtain ⟨hmu, rfl⟩ := hs
    exact .unlock hmu
  | lockLoop =>
    rw [step] at hs
    split at hs
    · next n hmu hloop =>
      obtain rfl := Option.some.inj hs
      exact .lockLoop n hmu hloop
    · exact absurd hs (by simp)
  | startNewRound now =>
    rw [step] at hs
    split at hs
    · next n hmu =>
      obtain rfl := Option.some.inj hs
      exact .startNewRound n now hmu
    · exact absurd hs (by simp)

/-! ## Names that are handed over -/

/-- A name that is handed over has its flag set, until `startNewRound` clears it. -/
structure Flagged (g : Goroutines) : Prop where
  sending : ∀ name, g.mu = some (.sending name) → g.scheduler.roundDoneFlag name = some true
  received : ∀ name, g.loop = .received name → g.scheduler.roundDoneFlag name = some true
  starting : ∀ name, g.mu = some (.starting name) →
    g.loop = .busy ∧ g.scheduler.roundDoneFlag name = some true

theorem Idle.flagged (h : g.Idle) : Flagged g := by
  obtain ⟨hmu, -, hloop⟩ := h
  refine ⟨by simp [hmu], fun name hname => ?_, by simp [hmu]⟩
  rcases hloop with hloop | hloop <;> exact absurd (hloop.symm.trans hname) (by simp)

theorem Flagged.step (h : Flagged g) (hs : g.step e = some g') : Flagged g' := by
  cases moves_of_step hs with
  | register n hmu =>
    exact ⟨by simpa using h.sending, by simpa using h.received, by simpa using h.starting⟩
  | start hmu hloop => exact ⟨h.sending, by simp, by simp [hmu]⟩
  | stop hloop =>
    refine ⟨h.sending, by simp, fun n hn => ?_⟩
    exact absurd (hloop.symm.trans (h.starting n hn).1) (by simp)
  | startAll now hmu => exact ⟨by simp, by simpa using h.received, by simp⟩
  | roundDone n r => exact ⟨h.sending, h.received, h.starting⟩
  | accept n r hmu hflag hround =>
    refine ⟨by simp, fun m hm => ?_, by simp⟩
    rw [roundDoneFlag_setDone, h.received m hm, ite_self]
  | handOver n hmu hloop =>
    refine ⟨by simp, fun m hm => ?_, by simp⟩
    obtain rfl := Loop.received.inj hm
    exact h.sending n hmu
  | lockLoop n hmu hloop =>
    refine ⟨by simp, by simp, fun m hm => ?_⟩
    obtain rfl : n = m := by simpa using hm
    exact ⟨rfl, h.received n hloop⟩
  | startNewRound n now hmu => exact ⟨by simp, by simp, by simp⟩
  | _ => exact ⟨by simp, h.received, by simp⟩

theorem flagged_reachable (h : goroutines.ReachableWhen ok g) : Flagged g :=
  h.invariant Flagged (fun _ hi => Idle.flagged hi) fun _ _ _ _ hinv _ hs => hinv.step hs

/-! ## Reports that are honoured -/

/-- While `mu` is free or with someone else, the name has been received. -/
theorem Bound.received (h : Bound name g) (hsend : g.mu ≠ some (.sending name))
    (hstart : g.mu ≠ some (.starting name)) : g.loop = .received name := by
  rcases h with ⟨hmu, -⟩ | hloop | hmu
  · exact absurd hmu hsend
  · exact hloop
  · exact absurd hmu hstart

/-- Nothing but the run of its callback takes a name away from the loop. -/
theorem Bound.step (h : Bound name g) (hb : Before g e) (hs : g.step e = some g') : Bound name g' := by
  cases moves_of_step hs with
  | register n hmu => exact h
  | start hmu hloop =>
    have hreceived := h.received (by simp [hmu]) (by simp [hmu])
    exact absurd (hloop.symm.trans hreceived) (by simp)
  | stop hloop => exact hb.elim
  | lockFirst hmu => exact Or.inr (Or.inl (h.received (by simp [hmu]) (by simp [hmu])))
  | startAll now hmu => exact Or.inr (Or.inl (h.received (by simp [hmu]) (by simp [hmu])))
  | roundDone n r => exact h
  | lockReport k n r hmu => exact Or.inr (Or.inl (h.received (by simp [hmu]) (by simp [hmu])))
  | accept n r hmu hflag hround => exact Or.inr (Or.inl (h.received (by simp [hmu]) (by simp [hmu])))
  | ignore n r hmu hno => exact Or.inr (Or.inl (h.received (by simp [hmu]) (by simp [hmu])))
  | handOver n hmu hloop =>
    have hn : n = name := by simpa [Bound, hmu, hloop] using h
    exact Or.inr (Or.inl (congrArg Loop.received hn))
  | unlock hmu => exact Or.inr (Or.inl (h.received (by simp [hmu]) (by simp [hmu])))
  | lockLoop n hmu hloop =>
    have hn : n = name := by simpa [Bound, hmu, hloop] using h
    exact Or.inr (Or.inr (congrArg (fun m => some (Section.starting m)) hn))
  | startNewRound n now hmu => exact hb.elim

/-- A name that is being sent while the loop is at its `select` is handed over. -/
theorem advances_of_sending (hmu : g.mu = some (.sending name)) (hloop : g.loop = .select)
    (hreg : name ∈ g.scheduler.roundCall) : Advances name g := by
  constructor
  · intro g' h
    refine h.invariant (Bound name) ?_ fun _ _ _ _ hinv hb hs => hinv.step hb hs
    rintro _ rfl
    exact Or.inl ⟨hmu, hloop⟩
  · intro now
    refine ⟨[.handOver, .unlock, .lockLoop, .startNewRound now],
      { g with scheduler := g.scheduler.startNewRound name now, mu := none, loop := .select }, ?_, ?_, ?_⟩
    · simp only [goroutines, Machine.run, step, hmu, hloop, Option.bind_some, if_true]
    · simp [hreg]
    · exact calls_startNewRound hreg now

/-- The runs of a new scheduler are among those from arbitrary maps. -/
theorem reachable_of_fresh (h : fresh.Reachable g) : goroutines.Reachable g := by
  refine Machine.ReachableWhen.project (M := fresh) (N := goroutines) id ?_ ?_ h
  · rintro _ rfl
    exact ⟨rfl, rfl, Or.inl rfl⟩
  · exact fun _ e _ hs => Or.inr ⟨e, hs⟩

/-- A call `RoundDone(name, r)` for the current round of a registered name, which has not been reported
before, gets the loop to start the next round exactly if the name has a flag, which only `startNewRound`
makes, and the loop is at its `select`. -/
theorem report_advances_iff (hg : goroutines.Reachable g) (hmu : g.mu = some (.testing name round))
    (hreg : name ∈ g.scheduler.roundCall) (hround : g.scheduler.round name = some round)
    (hnew : g.scheduler.roundDoneFlag name ≠ some true) :
    (∃ g', g.step .test = some g' ∧ Advances name g') ↔
      (g.scheduler.roundDoneFlag name).isSome ∧ g.loop = .select := by
  constructor
  · rintro ⟨g', hs, hadv⟩
    have hbound : Bound name g' := hadv.1 g' (.init rfl)
    have hnot : g.loop ≠ .received name := fun hloop =>
      hnew ((flagged_reachable hg).received name hloop)
    cases moves_of_step hs with
    | accept n r hmu' hflag hround' =>
      obtain ⟨rfl, rfl⟩ : name = n ∧ round = r := by simpa [hmu] using hmu'
      rw [hflag]
      rcases hbound with ⟨-, hloop⟩ | hloop | hmu'
      · exact ⟨rfl, hloop⟩
      · exact absurd hloop hnot
      · exact absurd hmu' (by simp)
    | ignore n r hmu' hno =>
      rcases hbound with ⟨hmu', -⟩ | hloop | hmu'
      · exact absurd hmu' (by simp)
      · exact absurd hloop hnot
      · exact absurd hmu' (by simp)
  · rintro ⟨hflag, hloop⟩
    have hfalse : g.scheduler.roundDoneFlag name = some false := by
      obtain ⟨flag, hflag⟩ := Option.isSome_iff_exists.1 hflag
      cases flag with
      | false => exact hflag
      | true => exact absurd hflag hnew
    have hyes : g.scheduler.accepts name round := accepts_iff.2 ⟨hfalse, hround⟩
    have hs : g.step .test =
        some { g with scheduler := g.scheduler.setDone name, mu := some (.sending name) } := by
      simp only [step, hmu, hyes, if_true]
    exact ⟨_, hs, advances_of_sending rfl hloop hreg⟩

/-- The first report to a new scheduler does not advance it. From maps in which `startNewRound` has left a
flag, the report does. -/
theorem report_advances_later :
    (∃ g, fresh.Reachable g ∧ g.mu = some (.testing "a" 100) ∧
      ¬ ∃ g', g.step .test = some g' ∧ Advances "a" g') ∧
    ∃ g, goroutines.Reachable g ∧ g.mu = some (.testing "a" 5) ∧
      ∃ g', g.step .test = some g' ∧ Advances "a" g' := by
  constructor
  · have hrun : fresh.run {} [.register "a", .start, .lockFirst, .startAll fun _ => 100,
        .roundDone "a" 100, .lockReport 0] = some
          { scheduler := ({ roundCall := ["a"] } : Scheduler).startAll fun _ => 100
            mu := some (.testing "a" 100), loop := .select } := rfl
    have hfresh := Machine.reachable_of_run (.init rfl) hrun
    have hreach := reachable_of_fresh hfresh
    refine ⟨_, hfresh, rfl, fun hadv => ?_⟩
    have hflag := ((report_advances_iff hreach rfl (by decide) rfl (by decide)).1 hadv).1
    exact absurd hflag (by decide)
  · obtain ⟨s, hround, hflag, hcall⟩ : ∃ s : Scheduler,
        s.round "a" = some 5 ∧ s.roundDoneFlag "a" = some false ∧ s.roundCall = ["a"] :=
      ⟨{ round := fun _ => some 5, roundDoneFlag := fun _ => some false, roundCall := ["a"] },
        rfl, rfl, rfl⟩
    have hinit : goroutines.init { scheduler := s, loop := .select } := ⟨rfl, rfl, Or.inr rfl⟩
    have hrun : goroutines.run { scheduler := s, loop := .select } [.roundDone "a" 5, .lockReport 0] =
        some { scheduler := s, mu := some (.testing "a" 5), loop := .select } := rfl
    have hreach := Machine.reachable_of_run (.init hinit) hrun
    refine ⟨_, hreach, rfl, (report_advances_iff hreach rfl ?_ hround ?_).2 ⟨?_, rfl⟩⟩
    · rw [hcall]
      exact List.mem_singleton.2 rfl
    · rw [hflag]
      simp
    · rw [hflag]
      rfl

/-- The first round, which `startAll` has started, is reported in vain. -/
theorem first_report_ignored :
    ∃ g, fresh.Reachable g ∧ g.mu = some (.testing "a" 100) ∧ g.scheduler.roundCall = ["a"] ∧
      g.scheduler.round "a" = some 100 ∧ g.scheduler.roundDoneFlag "a" = none ∧ g.loop = .select ∧
      ¬∃ g', g.step .test = some g' ∧ Advances "a" g' := by
  have hinit : fresh.init {} := rfl
  have hrun : fresh.run {} [.register "a", .start, .lockFirst, .startAll fun _ => 100,
      .roundDone "a" 100, .lockReport 0] = some
        { scheduler := ({ roundCall := ["a"] } : Scheduler).startAll fun _ => 100
          mu := some (.testing "a" 100), loop := .select } := rfl
  refine ⟨_, Machine.reachable_of_run (.init hinit) hrun, rfl, rfl, rfl, rfl, rfl, ?_⟩
  rintro ⟨g', hs, hadv⟩
  have hbound : Bound "a" g' := hadv.1 g' (.init rfl)
  obtain rfl := Option.some.inj hs
  simp [Bound] at hbound

/-! ### A new scheduler -/

/-- No name has a flag, and none is handed over. -/
structure Deaf (g : Goroutines) : Prop where
  flag : ∀ name, g.scheduler.roundDoneFlag name = none
  sending : ∀ name, g.mu ≠ some (.sending name)
  starting : ∀ name, g.mu ≠ some (.starting name)
  received : ∀ name, g.loop ≠ .received name

theorem Deaf.step (h : Deaf g) (hs : g.step e = some g') : Deaf g' := by
  cases moves_of_step hs with
  | register n hmu => exact ⟨by simpa using h.flag, h.sending, h.starting, h.received⟩
  | start hmu hloop => exact ⟨h.flag, h.sending, h.starting, by simp⟩
  | stop hloop => exact ⟨h.flag, h.sending, h.starting, by simp⟩
  | startAll now hmu => exact ⟨by simpa using h.flag, by simp, by simp, h.received⟩
  | roundDone n r => exact ⟨h.flag, h.sending, h.starting, h.received⟩
  | accept n r hmu hflag hround => exact absurd (hflag.symm.trans (h.flag n)) (by simp)
  | handOver n hmu hloop => exact absurd hmu (h.sending n)
  | lockLoop n hmu hloop => exact absurd hloop (h.received n)
  | startNewRound n now hmu => exact absurd hmu (h.starting n)
  | _ => exact ⟨h.flag, by simp, by simp, h.received⟩

/-- A new scheduler never honours a report: in none of its runs does a name get a flag, and the loop
never receives one. -/
theorem fresh_deaf (h : fresh.ReachableWhen ok g) : Deaf g := by
  refine h.invariant Deaf ?_ fun _ _ _ _ hinv _ hs => hinv.step hs
  rintro _ rfl
  exact ⟨fun _ => rfl, by simp, by simp, by simp⟩

/-! ## The deadlock -/

theorem loopWaits_iff : g.loopWaits ↔ ∃ name, g.loop = .received name := by
  unfold loopWaits
  cases g.loop <;> simp

theorem passes_of_testing (hmu : g.mu = some (.testing name round)) :
    g.passes = g.scheduler.accepts name round := by
  simp only [passes, hmu]

/-- A step leads into the deadlock only if it does not meet the condition. -/
theorem not_deadlocked_step (h : ¬g.Deadlocked) (hfree : g.LoopFree e) (hs : g.step e = some g') :
    ¬g'.Deadlocked := by
  rintro ⟨n, m, hmu', hloop'⟩
  cases moves_of_step hs with
  | register n' hmu => exact h ⟨n, m, hmu', hloop'⟩
  | roundDone n' r => exact h ⟨n, m, hmu', hloop'⟩
  | accept n' r hmu hflag hround =>
    refine hfree ⟨?_, loopWaits_iff.2 ⟨m, hloop'⟩⟩
    rw [passes_of_testing hmu]
    exact accepts_iff.2 ⟨hflag, hround⟩
  | start hmu hloop => exact absurd hloop' (by simp)
  | stop hloop => exact absurd hloop' (by simp)
  | _ => exact absurd hmu' (by simp)

/-- If a `RoundDone` passes its tests only while the loop is not waiting for `mu`, the two never wait for
each other. -/
theorem loop_not_deadlocked (h : running.ReachableWhen LoopFree g) : ¬g.Deadlocked := by
  refine h.invariant (fun g => ¬g.Deadlocked) ?_ fun _ _ _ _ hinv hfree hs =>
    not_deadlocked_step hinv hfree hs
  rintro g ⟨-, hmu, -⟩ ⟨n, m, hmu', -⟩
  exact absurd (hmu.symm.trans hmu') (by simp)

/-- A scheduler with two names in their rounds. -/
def twoNames : Goroutines where
  scheduler := { round := fun _ => some 1, roundDoneFlag := fun _ => some false, roundCall := ["a", "b"] }
  loop := .select

/-- The report of `b` passes its tests after the loop has started the next round of `a`. -/
theorem loop_not_deadlocked_two :
    ∃ g, running.ReachableWhen LoopFree g ∧ g.mu = some (.sending "b") ∧
      g.scheduler.calls = [("a", 2)] ∧ ¬g.Deadlocked := by
  have hinit : running.init twoNames := ⟨fun _ _ => ⟨rfl, rfl⟩, rfl, rfl, rfl, rfl⟩
  have hrun : ((running.restrict LoopFree).run twoNames
      [.roundDone "a" 1, .roundDone "b" 1, .lockReport 0, .test, .handOver, .unlock, .lockLoop,
       .startNewRound 2, .lockReport 0, .test]).map (fun g => (g.mu, g.scheduler.calls)) =
      some (some (.sending "b"), [("a", 2)]) := by
    decide
  obtain ⟨g, hg, hobs⟩ := Machine.observedWhen_of_run hrun hinit
  obtain ⟨hmu, hcalls⟩ := Prod.mk.inj hobs
  exact ⟨g, hg, hmu, hcalls, loop_not_deadlocked hg⟩

/-- The loop has received `a` and waits for `mu`, which the report of `b` has taken before: that report
waits for the loop to receive `b`. -/
theorem loop_deadlocked : ∃ g, running.Reachable g ∧ g.Deadlocked := by
  have hinit : running.init twoNames := ⟨fun _ _ => ⟨rfl, rfl⟩, rfl, rfl, rfl, rfl⟩
  have hrun : (running.run twoNames
      [.roundDone "a" 1, .roundDone "b" 1, .lockReport 0, .test, .handOver, .unlock, .lockReport 0,
       .test]).map (fun g => (g.mu, g.loop)) = some (some (.sending "b"), .received "a") := by
    decide
  obtain ⟨g, hg, hobs⟩ := Machine.observed_of_run hrun hinit
  obtain ⟨hmu, hloop⟩ := Prod.mk.inj hobs
  exact ⟨g, hg, "b", "a", hmu, hloop⟩

/-- Every step outside the condition is a deadlock. -/
theorem deadlocked_of_waiting (hfree : ¬g.LoopFree e) (hs : g.step e = some g') : g'.Deadlocked := by
  cases moves_of_step hs with
  | accept n r hmu hflag hround =>
    obtain ⟨-, hwaits⟩ := not_not.1 hfree
    obtain ⟨m, hm⟩ := loopWaits_iff.1 hwaits
    exact ⟨n, m, rfl, hm⟩
  | ignore n r hmu hno =>
    obtain ⟨hpasses, -⟩ := not_not.1 hfree
    rw [passes_of_testing hmu, hno] at hpasses
    exact Bool.noConfusion hpasses
  | _ => exact absurd trivial hfree

/-- Nothing ends it. -/
theorem deadlocked_forever (h : g.Deadlocked) (hs : g.step e = some g') : g'.Deadlocked := by
  obtain ⟨n, m, hmu, hloop⟩ := h
  cases moves_of_step hs with
  | register n' hmu' => exact ⟨n, m, hmu, hloop⟩
  | roundDone n' r => exact ⟨n, m, hmu, hloop⟩
  | start hmu' hloop' => exact absurd (hloop.symm.trans hloop') (by simp)
  | stop hloop' => exact absurd (hloop.symm.trans hloop') (by simp)
  | handOver n' hmu' hloop' => exact absurd (hloop.symm.trans hloop') (by simp)
  | _ => simp_all

/-! ### A single name -/

/-- Only `only` has a flag. -/
def OnlyName (only : String) (g : Goroutines) : Prop :=
  ∀ name, (g.scheduler.roundDoneFlag name).isSome → name = only

theorem OnlyName.step {only : String} (h : OnlyName only g) (hflagged : Flagged g)
    (hs : g.step e = some g') : OnlyName only g' := by
  intro m hm
  cases moves_of_step hs with
  | register n hmu => exact h m (by simpa using hm)
  | startAll now hmu => exact h m (by simpa using hm)
  | accept n r hmu hflag hround =>
    rw [roundDoneFlag_setDone] at hm
    split at hm
    · next hmn => exact hmn.trans (h n (by simp [hflag]))
    · exact h m hm
  | startNewRound n now hmu =>
    rw [roundDoneFlag_startNewRound] at hm
    split at hm
    · next hmn => exact hmn.1.trans (h n (by simp [(hflagged.starting n hmu).2]))
    · exact h m hm
  | _ => exact h m hm

/-- While the loop waits for `mu` with the only name, a report of that name is not honoured. -/
theorem OnlyName.loopFree {only : String} (h : OnlyName only g) (hflagged : Flagged g)
    (hs : g.step e = some g') : g.LoopFree e := by
  cases moves_of_step hs with
  | accept n r hmu hflag hround =>
    rintro ⟨-, hwaits⟩
    obtain ⟨m, hm⟩ := loopWaits_iff.1 hwaits
    have htrue := hflagged.received m hm
    rw [h m (by simp [htrue]), ← h n (by simp [hflag]), hflag] at htrue
    exact absurd htrue (by simp)
  | ignore n r hmu hno =>
    rintro ⟨hpasses, -⟩
    rw [passes_of_testing hmu, hno] at hpasses
    exact Bool.noConfusion hpasses
  | _ => trivial

/-- With a single name there is no deadlock. -/
theorem one_name_not_deadlocked {only : String} {g₀ : Goroutines} (h₀ : g₀.Running)
    (honly : OnlyName only g₀) (h : (running.startIn g₀).ReachableWhen ok g) : ¬g.Deadlocked := by
  obtain ⟨-, hmu, hcalling, hloop, -⟩ := h₀
  have hidle : g₀.Idle := ⟨hmu, hcalling, Or.inr hloop⟩
  have hinv : Flagged g ∧ OnlyName only g ∧ ¬g.Deadlocked := by
    refine h.invariant (fun g => Flagged g ∧ OnlyName only g ∧ ¬g.Deadlocked) ?_ ?_
    · rintro _ rfl
      refine ⟨hidle.flagged, honly, ?_⟩
      rintro ⟨n, m, hmu', -⟩
      exact absurd (hmu.symm.trans hmu') (by simp)
    · rintro g e g' - ⟨hflagged, hname, hnot⟩ - hs
      exact ⟨hflagged.step hs, hname.step hflagged hs,
        not_deadlocked_step hnot (hname.loopFree hflagged hs) hs⟩
  exact hinv.2.2

end Goroutines

/-! ## Which round a report ends -/

namespace Instances

open Scheduler

variable {s s' : Instances} {e : InstanceEvent} {ok : Instances → InstanceEvent → Prop}

/-- The steps, one by one. -/
inductive Moves (s : Instances) : InstanceEvent → Instances → Prop where
  | restart (name : String) (now : Int) (hreg : name ∈ s.scheduler.roundCall) :
    Moves s (.startNewRound name now) { s with
      scheduler := s.scheduler.startNewRound name now
      clock := now
      current := Function.update s.current name (s.current name + 1) }
  | unregistered (name : String) (now : Int) (hreg : name ∉ s.scheduler.roundCall) :
    Moves s (.startNewRound name now) { s with clock := now }
  | issue (name : String) (round : Int) (hround : s.scheduler.round name = some round) :
    Moves s (.issue name) { s with issued := s.issued ++ [⟨name, s.current name, round⟩] }
  | accept (k : Nat) (r : Issued) (hk : r ∈ s.issued)
      (hflag : s.scheduler.roundDoneFlag r.name = some false)
      (hround : s.scheduler.round r.name = some r.round) :
    Moves s (.roundDone k) { s with
      scheduler := s.scheduler.setDone r.name
      ended := s.ended ++ [⟨r.name, s.current r.name, r.number⟩] }
  | ignore (k : Nat) : Moves s (.roundDone k) s

theorem moves_of_step (hs : s.step e = some s') : Moves s e s' := by
  cases e with
  | startNewRound name now =>
    simp only [step, Option.ite_none_right_eq_some, Option.some.injEq] at hs
    obtain ⟨-, rfl⟩ := hs
    by_cases hreg : name ∈ s.scheduler.roundCall
    · rw [if_pos hreg]
      exact .restart name now hreg
    · rw [if_neg hreg, Scheduler.startNewRound, if_neg hreg]
      exact .unregistered name now hreg
  | issue name =>
    obtain ⟨round, hround, rfl⟩ := Option.map_eq_some_iff.1 hs
    exact .issue name round hround
  | roundDone k =>
    obtain ⟨r, hr, rfl⟩ := Option.map_eq_some_iff.1 hs
    split
    · next hyes =>
      obtain ⟨hflag, hround⟩ := accepts_iff.1 hyes
      exact .accept k r (List.mem_of_getElem? hr) hflag hround
    · exact .ignore k

/-- The instance that a name is in has ended only if its flag is set. -/
structure Once (s : Instances) : Prop where
  nodup : (s.ended.map fun e => (e.name, e.number)).Nodup
  le : ∀ e ∈ s.ended, e.number ≤ s.current e.name
  flag : ∀ e ∈ s.ended, e.number = s.current e.name → s.scheduler.roundDoneFlag e.name = some true

theorem Once.step (h : Once s) (hs : s.step e = some s') : Once s' := by
  cases moves_of_step hs with
  | restart name now hreg =>
    -- whatever has ended is an earlier instance now
    have hlt : ∀ e ∈ s.ended, e.name = name →
        e.number < Function.update s.current name (s.current name + 1) e.name := by
      intro e he hname
      rw [hname, Function.update_self, ← hname]
      exact Nat.lt_succ_of_le (h.le e he)
    refine ⟨h.nodup, fun e he => ?_, fun e he heq => ?_⟩
    · by_cases hname : e.name = name
      · exact Nat.le_of_lt (hlt e he hname)
      · dsimp only
        rw [Function.update_of_ne hname]
        exact h.le e he
    · by_cases hname : e.name = name
      · exact absurd heq (Nat.ne_of_lt (hlt e he hname))
      · dsimp only at heq ⊢
        rw [Function.update_of_ne hname] at heq
        rw [roundDoneFlag_startNewRound, if_neg fun hc => hname hc.1]
        exact h.flag e he heq
  | unregistered name now hreg => exact ⟨h.nodup, h.le, h.flag⟩
  | issue name round hround => exact ⟨h.nodup, h.le, h.flag⟩
  | accept k r hk hflag hround =>
    have hnew : (r.name, s.current r.name) ∉ s.ended.map fun e => (e.name, e.number) := by
      intro hmem
      obtain ⟨e, he, heq⟩ := List.mem_map.1 hmem
      obtain ⟨hname, hnumber⟩ := Prod.mk.inj heq
      have htrue := h.flag e he (by rw [hname, hnumber])
      rw [hname, hflag] at htrue
      exact absurd htrue (by simp)
    refine ⟨?_, fun e he => ?_, fun e he heq => ?_⟩
    · rw [List.map_append, List.map_singleton, ← List.concat_eq_append]
      exact h.nodup.concat hnew
    · rcases List.mem_append.1 he with he | he
      · exact h.le e he
      · obtain rfl := List.mem_singleton.1 he
        exact Nat.le_refl _
    · rw [roundDoneFlag_setDone]
      rcases List.mem_append.1 he with he | he
      · rw [h.flag e he heq, ite_self]
      · rw [List.mem_singleton.1 he, if_pos rfl]
  | ignore k => exact h

/-- Each instance of a round is ended at most once, whatever the clock does. -/
theorem once_reachable (h : instances.ReachableWhen ok s) : Once s := by
  refine h.invariant Once ?_ fun _ _ _ _ hinv _ hs => hinv.step hs
  rintro s ⟨-, -, hended⟩
  refine ⟨?_, ?_, ?_⟩ <;> simp [hended]

/-- A report for the current instance has its number; one for an earlier instance has a smaller one. -/
structure Dated (s : Instances) : Prop where
  current : ∀ r ∈ s.issued, r.number = s.current r.name → s.scheduler.round r.name = some r.round
  earlier : ∀ r ∈ s.issued, r.number ≠ s.current r.name →
    r.number < s.current r.name ∧ ∃ round, s.scheduler.round r.name = some round ∧ r.round < round
  own : ∀ e ∈ s.ended, e.issuedFor = e.number

/-- The round of the name of a report is not before that of the report. -/
theorem Dated.le_round (h : Dated s) {r : Issued} (hr : r ∈ s.issued) :
    r.number ≤ s.current r.name ∧ ∃ round, s.scheduler.round r.name = some round ∧ r.round ≤ round := by
  by_cases hcurrent : r.number = s.current r.name
  · exact ⟨Nat.le_of_eq hcurrent, r.round, h.current r hr hcurrent, Int.le_refl _⟩
  · obtain ⟨hlt, round, hround, hle⟩ := h.earlier r hr hcurrent
    exact ⟨Nat.le_of_lt hlt, round, hround, Int.le_of_lt hle⟩

theorem Dated.step (h : Dated s) (hlater : s.LaterSecond e) (hs : s.step e = some s') : Dated s' := by
  cases moves_of_step hs with
  | restart name now hreg =>
    refine ⟨fun r hr heq => ?_, fun r hr hne => ?_, h.own⟩
    · dsimp only at heq ⊢
      by_cases hname : r.name = name
      · obtain ⟨hle, -⟩ := h.le_round hr
        rw [hname, Function.update_self, ← hname] at heq
        omega
      · rw [Function.update_of_ne hname] at heq
        rw [round_startNewRound, if_neg fun hc => hname hc.1]
        exact h.current r hr heq
    · dsimp only at hne ⊢
      rw [round_startNewRound]
      by_cases hname : r.name = name
      · obtain ⟨hle, round, hround, hrle⟩ := h.le_round hr
        have hnow : round < now := hlater round (hname ▸ hround)
        rw [hname, Function.update_self, if_pos ⟨rfl, hreg⟩, ← hname]
        exact ⟨Nat.lt_succ_of_le hle, now, rfl, by omega⟩
      · rw [Function.update_of_ne hname] at hne ⊢
        rw [if_neg fun hc => hname hc.1]
        exact h.earlier r hr hne
  | unregistered name now hreg => exact ⟨h.current, h.earlier, h.own⟩
  | issue name round hround =>
    refine ⟨fun r hr heq => ?_, fun r hr hne => ?_, h.own⟩
    · rcases List.mem_append.1 hr with hr | hr
      · exact h.current r hr heq
      · rw [List.mem_singleton.1 hr]
        exact hround
    · rcases List.mem_append.1 hr with hr | hr
      · exact h.earlier r hr hne
      · rw [List.mem_singleton.1 hr] at hne
        exact absurd rfl hne
  | accept k r hk hflag hround =>
    refine ⟨h.current, h.earlier, fun e he => ?_⟩
    rcases List.mem_append.1 he with he | he
    · exact h.own e he
    · rw [List.mem_singleton.1 he]
      by_contra hne
      obtain ⟨-, round, hround', hlt⟩ := h.earlier r hk hne
      obtain rfl : r.round = round := Option.some.inj (hround.symm.trans hround')
      exact absurd hlt (Int.lt_irrefl _)
  | ignore k => exact h

/-- If the rounds of a name start in different seconds, each instance is ended at most once, and only by
a report that was issued for it. -/
theorem report_ends_own_round (h : instances.ReachableWhen LaterSecond s) :
    (s.ended.map fun e => (e.name, e.number)).Nodup ∧ ∀ e ∈ s.ended, e.issuedFor = e.number := by
  refine ⟨(once_reachable h).nodup, Dated.own ?_⟩
  refine h.invariant Dated ?_ fun _ _ _ _ hinv hlater hs => hinv.step hlater hs
  rintro s ⟨-, hissued, hended⟩
  refine ⟨?_, ?_, ?_⟩ <;> simp [hissued, hended]

/-- A name whose round started in the second 5. -/
def oneRound : Instances where
  scheduler := { round := fun _ => some 5, roundDoneFlag := fun _ => some false, roundCall := ["a"] }
  clock := 5

/-- The report of the first instance comes again after the second one has started in the next second, and
ends nothing. -/
theorem report_ends_own_round_late :
    ∃ s, instances.ReachableWhen LaterSecond s ∧ s.ended = [⟨"a", 0, 0⟩, ⟨"a", 1, 1⟩] ∧
      ∀ e ∈ s.ended, e.issuedFor = e.number := by
  have hinit : instances.init oneRound := ⟨fun _ _ => ⟨rfl, rfl⟩, rfl, rfl⟩
  have hrun : ((instances.restrict LaterSecond).run oneRound
      [.issue "a", .roundDone 0, .startNewRound "a" 6, .roundDone 0, .issue "a", .roundDone 1]).map
        Instances.ended = some [⟨"a", 0, 0⟩, ⟨"a", 1, 1⟩] := by
    decide
  obtain ⟨s, hs, hended⟩ := Machine.observedWhen_of_run hrun hinit
  exact ⟨s, hs, hended, (report_ends_own_round hs).2⟩

/-- The second instance starts in the same second, and the report of the first one ends it. -/
theorem report_ends_next_round :
    ∃ s, instances.Reachable s ∧ s.ended = [⟨"a", 0, 0⟩, ⟨"a", 1, 0⟩] := by
  have hinit : instances.init oneRound := ⟨fun _ _ => ⟨rfl, rfl⟩, rfl, rfl⟩
  have hrun : (instances.run oneRound
      [.issue "a", .roundDone 0, .startNewRound "a" 5, .roundDone 0]).map Instances.ended =
        some [⟨"a", 0, 0⟩, ⟨"a", 1, 0⟩] := by
    decide
  exact Machine.observed_of_run hrun hinit

end Instances

end OwnX.Task
