import OwnX.Concurrency.Proofs.SingleFlightProofs
import OwnX.Foundations.Proofs.TerminationProofs

/-!
# Proofs: nobody waits for ever

A call has two steps before it, the end of its function and its completion; a `Do` has one, and so has the
receive from a channel. A group in which every function returns comes to rest when no new `Do` and `DoChan`
are called, and then everybody has the result.
-/

namespace OwnX.Concurrency

variable {V E : Type}

/-! ## The steps that are left -/

def Call.stepsLeft (x : Call V E) : Nat :=
  (if x.fn.isNone then 1 else 0) + (if x.done then 0 else 1)

def Caller.stepsLeft (y : Caller V E) : Nat := if y.outcome.isNone then 1 else 0

def Channel.stepsLeft (y : Channel V E) : Nat := if y.received.isEmpty then 1 else 0

namespace GroupEvent

/-- The event goes on with a call, a `Do` or a channel. -/
def isWork : GroupEvent V E → Prop
  | .fnEnds _ _ | .complete _ | .doEnds _ | .receive _ => True
  | .callDo _ | .callDoChan _ | .forget _ => False

instance : DecidablePred (isWork (V := V) (E := E)) := fun e =>
  match e with
  | .fnEnds _ _ | .complete _ | .doEnds _ | .receive _ => isTrue trivial
  | .callDo _ | .callDoChan _ | .forget _ => isFalse not_false

/-- The event is no new `Do` or `DoChan`, and if a function ends, it returns plainly. -/
def noCall : GroupEvent V E → Prop
  | .callDo _ | .callDoChan _ => False
  | .fnEnds _ r => r.isPlain = true
  | .complete _ | .doEnds _ | .receive _ | .forget _ => True

end GroupEvent

namespace Group

variable {g g' : Group V E} {e : GroupEvent V E}

/-- The steps that are left in a group. -/
def stepsLeft (g : Group V E) : Nat :=
  (g.calls.map Call.stepsLeft).sum + (g.callers.map Caller.stepsLeft).sum +
    (g.channels.map Channel.stepsLeft).sum

/-- Everybody has the result of the call: every `Do` has returned it, and it was received from every channel,
once. No key has an entry. -/
structure Settled (g : Group V E) : Prop where
  callers : ∀ y ∈ g.callers, ∃ x val err, g.calls[y.call]? = some x ∧ x.fn = some (.returns val err) ∧
    y.outcome = some (.returned (g.resultOf y.call val err))
  channels : ∀ y ∈ g.channels, ∃ x val err, g.calls[y.call]? = some x ∧ x.fn = some (.returns val err) ∧
    y.buffer = none ∧ y.received = [g.resultOf y.call val err]
  m : ∀ key, g.m key = none

/-! ## Every step lowers them -/

theorem map_stepsLeft_sendAll {r : Result V E} {chans : List Nat} {channels channels' : List (Channel V E)}
    (h : ∀ i, channels'[i]? = channels[i]?.map fun y => if i ∈ chans then { y with buffer := some r } else y) :
    channels'.map Channel.stepsLeft = channels.map Channel.stepsLeft := by
  apply List.ext_getElem?
  intro i
  rw [List.getElem?_map, List.getElem?_map, h i, Option.map_map]
  congr 1
  funext y
  by_cases hi : i ∈ chans
  · simp only [Function.comp_apply, hi, if_true, Channel.stepsLeft]
  · simp only [Function.comp_apply, hi, if_false]

/-- What is in a channel was not received before. -/
theorem Delivered.received_nil (h : g.Delivered) {ch : Nat} {y : Channel V E} {r : Result V E}
    (hy : g.channels[ch]? = some y) (hr : y.buffer = some r) : y.received = [] := by
  obtain ⟨x, -, -, hsent⟩ := h.channels.sent ch y hy
  have hlen : y.sent.length ≤ 1 := by
    rw [hsent, Call.answers]
    split <;> simp
  rw [Channel.sent, hr, List.length_append] at hlen
  refine List.eq_nil_of_length_eq_zero ?_
  simp only [Option.toList_some, List.length_singleton] at hlen
  omega

theorem stepsLeft_work (h : g.Delivered) (hwork : e.isWork) (hs : g.step e = some g') :
    g'.stepsLeft < g.stepsLeft := by
  unfold stepsLeft
  cases moves_of_step hs with
  | joinDo | startDo | joinDoChan | startDoChan | forget => exact absurd hwork not_false
  | fnEnds c r x hx hfn =>
    have hsum := sum_map_modify Call.stepsLeft hx fun x => { x with fn := some r }
    simp only [Call.stepsLeft, hfn, Option.isNone_none, Option.isNone_some, if_true,
      Bool.false_eq_true, if_false] at hsum
    simp only
    omega
  | complete c x hx hfn hdone _ hg' =>
    obtain ⟨channels', heq, hchannels'⟩ := h.complete_eq hx hdone
    obtain rfl := Option.some.inj (heq.symm.trans hg')
    have hsum := sum_map_modify Call.stepsLeft hx fun x => { x with done := true }
    simp only [Call.stepsLeft, hdone, if_true, Bool.false_eq_true, if_false] at hsum
    simp only [wgDone, map_stepsLeft_sendAll hchannels']
    omega
  | doEnds i y x hy hout hx hdone =>
    have hsum := sum_map_modify Caller.stepsLeft hy fun z => { z with outcome := some (outcome x y.joined) }
    simp only [Caller.stepsLeft, hout, Option.isNone_none, Option.isNone_some, if_true,
      Bool.false_eq_true, if_false] at hsum
    simp only
    omega
  | receive ch y r hy hr =>
    have hnil := h.received_nil hy hr
    have hsum := sum_map_modify Channel.stepsLeft hy fun x =>
      { x with buffer := none, received := x.received ++ [r] }
    simp only [Channel.stepsLeft, hnil, List.isEmpty_nil, List.nil_append, List.isEmpty_cons, if_true,
      Bool.false_eq_true, if_false] at hsum
    simp only
    omega

theorem ranked : (flights V E).Ranked GroupEvent.noCall GroupEvent.isWork
    (fun g => (flights V E).ReachableWhen (Ends FnResult.isPlain) g) stepsLeft where
  keep := by
    intro g e g' hr hcall hs
    refine .step hr ?_ hs
    cases e with
    | fnEnds c r => exact hcall
    | _ => trivial
  stay := by
    intro g e g' hr hcall hs
    by_cases hwork : e.isWork
    · exact Nat.le_of_lt (stepsLeft_work (delivered_of_reachable hr) hwork hs)
    · cases moves_of_step hs with
      | forget key => exact Nat.le_refl _
      | joinDo | startDo | joinDoChan | startDoChan => exact absurd hcall not_false
      | fnEnds | complete | doEnds | receive => exact absurd trivial hwork
  lower := fun _ _ _ hr _ hwork hs => stepsLeft_work (delivered_of_reachable hr) hwork hs

/-! ## The group at rest -/

section Idle

variable (hidle : (flights V E).Idle GroupEvent.isWork g) (h : g.Delivered)

include hidle h

/-- Every call is completed. -/
theorem done_of_idle {c : Nat} {x : Call V E} (hx : g.calls[c]? = some x) : x.done = true := by
  have hfn : x.fn.isSome := by
    by_contra hnone
    obtain ⟨key, dups, chans, fn, done⟩ := x
    obtain rfl : fn = none := by simpa using hnone
    have hstep := hidle (.fnEnds c (.returns none none)) trivial
    simp [flights, step, h.alive, hx] at hstep
  by_contra hdone
  rw [Bool.not_eq_true] at hdone
  obtain ⟨channels', heq, -⟩ := h.complete_eq hx hdone
  have hstep := hidle (.complete c) trivial
  simp [flights, step, h.alive, hx, hfn, hdone, heq] at hstep

/-- Every `Do` has ended. -/
theorem outcome_of_idle {i : Nat} {y : Caller V E} (hy : g.callers[i]? = some y) :
    y.outcome.isSome := by
  by_contra hnone
  obtain ⟨x, hx, -⟩ := h.callers y (List.mem_of_getElem? hy)
  obtain ⟨call, joined, outcome⟩ := y
  obtain rfl : outcome = none := by simpa using hnone
  have hstep := hidle (.doEnds i) trivial
  simp only [flights, step, h.alive, hy] at hstep
  simp [hx, done_of_idle hidle h hx] at hstep

/-- Every channel is empty. -/
theorem buffer_of_idle {ch : Nat} {y : Channel V E} (hy : g.channels[ch]? = some y) : y.buffer = none := by
  by_contra hsome
  obtain ⟨call, buffer, received⟩ := y
  obtain ⟨r, rfl⟩ := Option.ne_none_iff_exists'.1 hsome
  have hstep := hidle (.receive ch) trivial
  simp [flights, step, h.alive, hy] at hstep

end Idle

theorem settled_of_idle (hr : (flights V E).ReachableWhen (Ends FnResult.isPlain) g)
    (hidle : (flights V E).Idle GroupEvent.isWork g) : g.Settled := by
  have h := delivered_of_reachable hr
  have hcounted : ∀ c, g.callersOf c = users g.calls c := counted_of_reachable hr
  refine ⟨?_, ?_, ?_⟩
  · intro y hy
    obtain ⟨i, hi⟩ := List.getElem?_of_mem hy
    obtain ⟨o, ho⟩ := Option.isSome_iff_exists.1 (outcome_of_idle hidle h hi)
    obtain ⟨x, hx, -, hout⟩ := h.callers y hy
    obtain ⟨hdone, rfl⟩ := hout o ho
    obtain ⟨val, err, hfn, hresult⟩ := h.result_eq hcounted hx hdone
    exact ⟨x, val, err, hx, hfn, by rw [ho, hresult]⟩
  · intro y hy
    obtain ⟨ch, hch⟩ := List.getElem?_of_mem hy
    obtain ⟨x, hx, -, hsent⟩ := h.channels.sent ch y hch
    have hdone := done_of_idle hidle h hx
    have hbuffer := buffer_of_idle hidle h hch
    obtain ⟨val, err, hfn, hresult⟩ := h.result_eq hcounted hx hdone
    refine ⟨x, val, err, hx, hfn, hbuffer, ?_⟩
    rw [Channel.sent, hbuffer, Option.toList_none, List.append_nil, Call.answers, if_pos hdone, hresult]
      at hsent
    exact hsent
  · intro key
    by_contra hne
    obtain ⟨c, hc⟩ := Option.ne_none_iff_exists'.1 hne
    obtain ⟨x, hx, hdone⟩ := entry_not_done (mapped_of_reachable hr) hc
    rw [done_of_idle hidle h hx] at hdone
    cases hdone

/-- From every reachable state of a group whose functions return plainly, when no new `Do` and `DoChan` are
called, at most `stepsLeft` steps are taken, in whatever order and with any `Forget` in between; and when
none is left to take, every `Do` has returned the result of its call, every channel of a `DoChan` has given
it out exactly once, and the map is empty. -/
theorem flights_settle (h : (flights V E).ReachableWhen (Ends FnResult.isPlain) g) :
    (flights V E).Finishes GroupEvent.noCall GroupEvent.isWork g g.stepsLeft Settled :=
  ranked.finishes (fun _ hr hidle => settled_of_idle hr hidle) h

theorem flights_settle_joined :
    ∃ g, (flights Nat Nat).ReachableWhen (Ends FnResult.isPlain) g ∧
      g.callers = [⟨0, false, none⟩, ⟨0, true, none⟩] ∧ g.channels = [⟨0, none, []⟩] ∧
      (flights Nat Nat).Finishes GroupEvent.noCall GroupEvent.isWork g g.stepsLeft Settled := by
  have hrun : (((flights Nat Nat).restrict (Ends FnResult.isPlain)).run {}
      [.callDo "k", .callDo "k", .callDoChan "k", .forget "k"]).map (fun g => (g.callers, g.channels)) =
      some ([⟨0, false, none⟩, ⟨0, true, none⟩], [⟨0, none, []⟩]) := by decide
  obtain ⟨g, hreach, hseen⟩ := Machine.observedWhen_of_run hrun rfl
  obtain ⟨hcallers, hchannels⟩ := Prod.mk.inj hseen
  exact ⟨g, hreach, hcallers, hchannels, flights_settle hreach⟩

end Group

end OwnX.Concurrency
