import OwnX.Task.Proofs.SchedulerProofs
import Mathlib.Data.List.Nodup

/-!
# The only round of a new scheduler

`startAll` makes no flags, and only `startNewRound` does, which runs for a name whose flag was there
before. So a new scheduler calls every callback in `startAll` and never again.
-/

namespace OwnX.Task

namespace Scheduler

variable {name : String}

/-! ## `startAll` -/

theorem calls_foldl_startFirst (names : List String) (now : String → Int) (s : Scheduler) :
    (names.foldl (fun s name => s.startFirst name (now name)) s).calls =
      s.calls ++ names.map fun name => (name, now name) := by
  induction names generalizing s with
  | nil => simp
  | cons n names ih =>
    rw [List.foldl_cons, ih, List.map_cons]
    simp [startFirst]

theorem round_foldl_startFirst {names : List String} (now : String → Int) (s : Scheduler) :
    (names.foldl (fun s name => s.startFirst name (now name)) s).round name =
      if name ∈ names then some (now name) else s.round name := by
  induction names generalizing s with
  | nil => rfl
  | cons n names ih =>
    rw [List.foldl_cons, ih]
    by_cases hn : name = n
    · subst hn
      simp [startFirst]
    · simp [startFirst, hn, Function.update_of_ne]

theorem roundCall_foldl_startFirst (names : List String) (now : String → Int) (s : Scheduler) :
    (names.foldl (fun s name => s.startFirst name (now name)) s).roundCall = s.roundCall := by
  induction names generalizing s with
  | nil => rfl
  | cons n names ih => exact ih (s.startFirst n (now n))

theorem roundCall_startAll (s : Scheduler) (now : String → Int) :
    (s.startAll now).roundCall = s.roundCall := roundCall_foldl_startFirst _ now s

theorem nodup_roundCallRegistry {s : Scheduler} (h : s.roundCall.Nodup) (name : String) :
    (s.roundCallRegistry name).roundCall.Nodup := by
  unfold roundCallRegistry
  split
  · exact h
  · next hnot => exact List.nodup_append.2 ⟨h, List.nodup_singleton _, by
      rintro a ha b hb rfl
      exact hnot (List.mem_singleton.1 hb ▸ ha)⟩

theorem roundCallRegistry_keeps (s : Scheduler) (name : String) :
    (s.roundCallRegistry name).calls = s.calls ∧ (s.roundCallRegistry name).round = s.round ∧
      s.roundCall ⊆ (s.roundCallRegistry name).roundCall := by
  unfold roundCallRegistry
  split
  · exact ⟨rfl, rfl, List.Subset.refl _⟩
  · exact ⟨rfl, rfl, List.subset_append_left _ _⟩

end Scheduler

namespace Goroutines

open Scheduler

variable {g g' : Goroutines} {e : SchedulerEvent}

/-- The callbacks that were called are called in their current round, each once; as long as `startAll`
has not run, none was called. -/
structure FirstRound (g : Goroutines) : Prop where
  deaf : Deaf g
  nodup : g.scheduler.roundCall.Nodup
  calls : (g.scheduler.calls.map Prod.fst).Nodup
  current : ∀ x ∈ g.scheduler.calls, x.1 ∈ g.scheduler.roundCall ∧ g.scheduler.round x.1 = some x.2
  waiting : g.first = true ∨ g.mu = some .first → g.scheduler.calls = []
  unstarted : g.loop = .unstarted → g.first = false ∧ g.mu ≠ some .first ∧ g.scheduler.calls = []
  /-- There is one `startAll`. -/
  single : g.first = true → g.mu ≠ some .first

theorem FirstRound.startAll (h : FirstRound g) (now : String → Int) (hmu : g.mu = some .first)
    (hdeaf : Deaf { g with scheduler := g.scheduler.startAll now, mu := none }) :
    FirstRound { g with scheduler := g.scheduler.startAll now, mu := none } := by
  have hcalls : (g.scheduler.startAll now).calls = g.scheduler.roundCall.map fun n => (n, now n) := by
    rw [Scheduler.startAll, calls_foldl_startFirst, h.waiting (.inr hmu), List.nil_append]
  have hfirst : g.first = false := by
    cases hf : g.first with
    | false => rfl
    | true => exact absurd hmu (h.single hf)
  constructor
  · exact hdeaf
  · rw [roundCall_startAll]
    exact h.nodup
  · rw [hcalls, List.map_map]
    simpa [Function.comp_def] using h.nodup
  · intro x hx
    rw [hcalls] at hx
    obtain ⟨n, hn, rfl⟩ := List.mem_map.1 hx
    refine ⟨by rwa [roundCall_startAll], ?_⟩
    rw [Scheduler.startAll, round_foldl_startFirst, if_pos hn]
  · rintro (hf | hmu')
    · rw [hfirst] at hf
      cases hf
    · cases hmu'
  · intro hloop
    exact absurd hmu (h.unstarted hloop).2.1
  · exact fun _ hmu' => nomatch hmu'

theorem FirstRound.step (h : FirstRound g) (hs : g.step e = some g') : FirstRound g' := by
  have hdeaf := h.deaf.step hs
  cases moves_of_step hs with
  | register n hmu =>
    obtain ⟨hcalls, hround, hsub⟩ := g.scheduler.roundCallRegistry_keeps n
    constructor
    · exact hdeaf
    · exact nodup_roundCallRegistry h.nodup n
    · rw [hcalls]
      exact h.calls
    · intro x hx
      rw [hcalls] at hx
      obtain ⟨hmem, hcurrent⟩ := h.current x hx
      exact ⟨hsub hmem, by rwa [hround]⟩
    · rw [hcalls]
      exact h.waiting
    · rw [hcalls]
      exact h.unstarted
    · exact h.single
  | start hmu hloop =>
    obtain ⟨-, -, hcalls⟩ := h.unstarted hloop
    exact ⟨hdeaf, h.nodup, h.calls, h.current, fun _ => hcalls, by simp, by simp [hmu]⟩
  | stop hloop => exact ⟨hdeaf, h.nodup, h.calls, h.current, h.waiting, by simp, h.single⟩
  | lockFirst hmu =>
    have hfirst : g.first = true := (Option.ite_none_right_eq_some.1 hs).1.2
    refine ⟨hdeaf, h.nodup, h.calls, h.current, fun _ => h.waiting (.inl hfirst), fun hloop => ?_, by simp⟩
    rw [(h.unstarted hloop).1] at hfirst
    cases hfirst
  | startAll now hmu => exact h.startAll now hmu hdeaf
  | roundDone n r => exact ⟨hdeaf, h.nodup, h.calls, h.current, h.waiting, h.unstarted, h.single⟩
  | accept n r hmu hflag hround => exact absurd (hflag.symm.trans (h.deaf.flag n)) (by simp)
  | handOver n hmu hloop => exact absurd hmu (h.deaf.sending n)
  | lockLoop n hmu hloop => exact absurd hloop (h.deaf.received n)
  | startNewRound n now hmu => exact absurd hmu (h.deaf.starting n)
  | lockReport _ _ _ _ | ignore _ _ _ _ | unlock _ =>
    refine ⟨hdeaf, h.nodup, h.calls, h.current, fun hw => h.waiting (.inl ?_), fun hloop => ?_, by simp⟩
    · rcases hw with hw | hw
      · exact hw
      · cases hw
    · obtain ⟨hfirst, -, hcalls⟩ := h.unstarted hloop
      exact ⟨hfirst, by simp, hcalls⟩

/-- A new scheduler calls the callback of each name at most once, whatever is reported to it and however
often: the round in which a name was called stays its round. -/
theorem rounds_start_once (h : fresh.Reachable g) :
    (g.scheduler.calls.map Prod.fst).Nodup ∧
      ∀ x ∈ g.scheduler.calls, x.1 ∈ g.scheduler.roundCall ∧ g.scheduler.round x.1 = some x.2 := by
  have hfirst : FirstRound g := by
    refine h.invariant FirstRound ?_ fun _ _ _ _ hinv _ hs => hinv.step hs
    rintro g₀ rfl
    have hinit : fresh.Reachable {} := .init rfl
    exact ⟨fresh_deaf hinit, List.nodup_nil, List.nodup_nil, by simp, fun _ => rfl, by simp, by simp⟩
  exact ⟨hfirst.calls, hfirst.current⟩

/-- Two names are in their round, and the report of one has been turned down. -/
theorem rounds_start_once_reported :
    ∃ g, fresh.Reachable g ∧ g.scheduler.calls = [("a", 100), ("b", 100)] ∧
      g.scheduler.round "a" = some 100 := by
  have hrun : (fresh.run {} [.register "a", .register "b", .start, .lockFirst, .startAll fun _ => 100,
      .roundDone "a" 100, .lockReport 0, .test, .unlock]).map (·.scheduler.calls) =
        some [("a", 100), ("b", 100)] := by decide
  obtain ⟨g, hg, hcalls⟩ := Machine.observed_of_run hrun rfl
  refine ⟨g, hg, hcalls, ((rounds_start_once hg).2 ("a", 100) ?_).2⟩
  rw [hcalls]
  exact List.mem_cons_self

end Goroutines

end OwnX.Task
