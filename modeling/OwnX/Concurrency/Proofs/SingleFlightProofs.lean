import OwnX.Concurrency.Proofs.GroupProofs
import Mathlib.Data.List.Nodup

/-!
# What the callers of a group get

A call that is done has no entry, hence nobody joins it any more, and what it gave to its first caller
it gives to all of them. Each of its channels is empty until then, so that no send blocks.

The error of a function that returns is looked at like the one of a function that panicked: a
`*panicError` that a function returns is raised again.
-/

namespace OwnX.Concurrency

namespace Call

variable {V E : Type}

/-- What the callers of the call get. -/
def result (x : Call V E) : Result V E := ⟨x.val, x.err, 0 < x.dups⟩

/-- What has been sent on each channel of the call. -/
def answers (x : Call V E) : List (Result V E) := if x.done then [x.result] else []

theorem answers_of_not_done {x : Call V E} (h : x.done = false) : x.answers = [] := by
  rw [answers, h]
  rfl

/-- The error of a call whose function returned plainly. -/
theorem err_of_plain {x : Call V E} (h : ∀ r, x.fn = some r → r.isPlain = true) :
    x.err = none ∨ ∃ e, x.err = some (.ordinary e) := by
  cases hfn : x.fn with
  | none =>
    left
    rw [err, hfn]
    rfl
  | some r =>
    have hplain := h r hfn
    rw [err, hfn]
    match r with
    | .returns _ none => exact .inl rfl
    | .returns _ (some (.ordinary e)) => exact .inr ⟨e, rfl⟩

/-- A call and the same call later: once it is done it does not change. -/
structure Later (x x' : Call V E) : Prop where
  dups : x.dups ≤ x'.dups
  done : x.done = true → x' = x

/-- Calls, and the same calls later. -/
def Grown (calls calls' : List (Call V E)) : Prop :=
  ∀ (i : Nat) x, calls[i]? = some x → ∃ x', calls'[i]? = some x' ∧ Later x x'

variable {calls calls' : List (Call V E)} {c : Nat} {x : Call V E} {f : Call V E → Call V E}

theorem grown_modify (hx : calls[c]? = some x) (hdone : x.done = false)
    (hf : ∀ y, y.dups ≤ (f y).dups) : Grown calls (calls.modify c f) := by
  intro i y hy
  refine ⟨if c = i then f y else y, getElem?_modify_eq_some.2 ⟨y, hy, rfl⟩, ?_⟩
  split
  · next heq =>
    subst heq
    obtain rfl : x = y := Option.some.inj (hx.symm.trans hy)
    refine ⟨hf x, fun hdone' => ?_⟩
    rw [hdone] at hdone'
    exact Bool.noConfusion hdone'
  · exact ⟨Nat.le_refl _, fun _ => rfl⟩

theorem grown_concat (calls : List (Call V E)) (a : Call V E) : Grown calls (calls ++ [a]) :=
  fun _ y hy => ⟨y, getElem?_concat_eq_some.2 (.inl hy), Nat.le_refl _, fun _ => rfl⟩

end Call

namespace Group

variable {V E : Type} {g g' : Group V E} {e : GroupEvent V E}

open Call

/-! ## What the callers of `Do` get -/

/-- A function that has ended returned plainly, and has ended if its call is done. -/
def Plain (calls : List (Call V E)) : Prop :=
  ∀ (c : Nat) x, calls[c]? = some x →
    (∀ r, x.fn = some r → r.isPlain = true) ∧ (x.done = true → x.fn.isSome)

/-- Nobody has returned but from a call that is done, and with its result. -/
def Answered (calls : List (Call V E)) (callers : List (Caller V E)) : Prop :=
  ∀ y ∈ callers, ∃ x, calls[y.call]? = some x ∧ (y.joined = true → 0 < x.dups) ∧
    ∀ o, y.outcome = some o → x.done = true ∧ o = .returned x.result

section Callers

variable {calls calls' : List (Call V E)} {callers : List (Caller V E)} {c : Nat} {x : Call V E}
  {f : Call V E → Call V E}

theorem Plain.modify (h : Plain calls)
    (hf : ∀ x, calls[c]? = some x →
      (∀ r, (f x).fn = some r → r.isPlain = true) ∧ ((f x).done = true → (f x).fn.isSome)) :
    Plain (calls.modify c f) := by
  intro i x' hx'
  obtain ⟨x, hx, rfl⟩ := getElem?_modify_eq_some.1 hx'
  split
  · next heq =>
    subst heq
    exact hf x hx
  · exact h i x hx

theorem Plain.concat (h : Plain calls) (hfn : x.fn = none) (hdone : x.done = false) :
    Plain (calls ++ [x]) := by
  intro i y hy
  rcases getElem?_concat_eq_some.1 hy with hy | ⟨-, rfl⟩
  · exact h i y hy
  · simp [hfn, hdone]

theorem Answered.grown (h : Answered calls callers) (hgrown : Grown calls calls') :
    Answered calls' callers := by
  intro y hy
  obtain ⟨x, hx, hjoined, hout⟩ := h y hy
  obtain ⟨x', hx', hlater⟩ := hgrown y.call x hx
  refine ⟨x', hx', fun hj => Nat.lt_of_lt_of_le (hjoined hj) hlater.dups, fun o ho => ?_⟩
  obtain ⟨hdone, rfl⟩ := hout o ho
  rw [hlater.done hdone]
  exact ⟨hdone, rfl⟩

theorem Answered.concat (h : Answered calls callers) {y : Caller V E} (hx : calls[y.call]? = some x)
    (hjoined : y.joined = true → 0 < x.dups) (hout : y.outcome = none) :
    Answered calls (callers ++ [y]) := by
  intro z hz
  rcases List.mem_append.1 hz with hz | hz
  · exact h z hz
  · obtain rfl := List.mem_singleton.1 hz
    refine ⟨x, hx, hjoined, fun o ho => ?_⟩
    rw [hout] at ho
    simp at ho

/-- A call whose function returned plainly gives its result to every caller. -/
theorem outcome_eq (hplain : ∀ r, x.fn = some r → r.isPlain = true) {joined : Bool}
    (hjoined : joined = true → 0 < x.dups) : outcome x joined = .returned x.result := by
  have hshared : (joined || decide (0 < x.dups)) = decide (0 < x.dups) := by
    cases joined with
    | false => rfl
    | true => simp [hjoined rfl]
  unfold outcome result
  rcases err_of_plain hplain with herr | ⟨err, herr⟩
  · simp only [herr, hshared]
  · simp only [herr, hshared]

theorem Answered.doEnds (h : Answered calls callers) (hplain : Plain calls) {i : Nat}
    {y : Caller V E} (hy : callers[i]? = some y) (hx : calls[y.call]? = some x)
    (hdone : x.done = true) :
    Answered calls (callers.modify i ({ · with outcome := some (outcome x y.joined) })) := by
  intro z hz
  obtain ⟨j, hz⟩ := List.getElem?_of_mem hz
  obtain ⟨w, hw, rfl⟩ := getElem?_modify_eq_some.1 hz
  split
  · next heq =>
    subst heq
    obtain rfl : y = w := Option.some.inj (hy.symm.trans hw)
    obtain ⟨x', hx', hjoined, -⟩ := h y (List.mem_of_getElem? hy)
    obtain rfl : x = x' := Option.some.inj (hx.symm.trans hx')
    refine ⟨x, hx, hjoined, fun o ho => ⟨hdone, ?_⟩⟩
    rw [← Option.some.inj ho]
    exact outcome_eq (hplain y.call x hx).1 hjoined
  · exact h w (List.mem_of_getElem? hw)

end Callers

/-! ## What the channels get -/

/-- The channels of the calls, and what was sent on each. -/
structure Attached (calls : List (Call V E)) (channels : List (Channel V E)) : Prop where
  sent : ∀ (ch : Nat) y, channels[ch]? = some y → ∃ x, calls[y.call]? = some x ∧ ch ∈ x.chans ∧
    y.sent = x.answers
  nodup : ∀ (c : Nat) x, calls[c]? = some x → x.chans.Nodup
  chans : ∀ (c : Nat) x, calls[c]? = some x → ∀ ch ∈ x.chans, ∃ y, channels[ch]? = some y ∧ y.call = c

namespace Attached

variable {calls : List (Call V E)} {channels : List (Channel V E)} {c : Nat} {x : Call V E}
  {f : Call V E → Call V E}

/-- A change of a call that its channels do not see. -/
theorem modify (h : Attached calls channels) (hx : calls[c]? = some x)
    (hchans : (f x).chans = x.chans) (hanswers : (f x).answers = x.answers) :
    Attached (calls.modify c f) channels := by
  have hback : ∀ (i : Nat) z', (calls.modify c f)[i]? = some z' →
      ∃ z, calls[i]? = some z ∧ z'.chans = z.chans := by
    intro i z' hz'
    obtain ⟨z, hz, rfl⟩ := getElem?_modify_eq_some.1 hz'
    refine ⟨z, hz, ?_⟩
    split
    · next heq =>
      subst heq
      obtain rfl : x = z := Option.some.inj (hx.symm.trans hz)
      exact hchans
    · rfl
  refine ⟨?_, ?_, ?_⟩
  · intro ch y hy
    obtain ⟨z, hz, hmem, hsent⟩ := h.sent ch y hy
    refine ⟨if c = y.call then f z else z, getElem?_modify_eq_some.2 ⟨z, hz, rfl⟩, ?_⟩
    split
    · next heq =>
      subst heq
      obtain rfl : x = z := Option.some.inj (hx.symm.trans hz)
      rw [hchans, hanswers]
      exact ⟨hmem, hsent⟩
    · exact ⟨hmem, hsent⟩
  · intro i z' hz'
    obtain ⟨z, hz, heq⟩ := hback i z' hz'
    rw [heq]
    exact h.nodup i z hz
  · intro i z' hz'
    obtain ⟨z, hz, heq⟩ := hback i z' hz'
    rw [heq]
    exact h.chans i z hz

/-- A call without channels. -/
theorem concat_call (h : Attached calls channels) (hx : x.chans = []) :
    Attached (calls ++ [x]) channels := by
  refine ⟨?_, ?_, ?_⟩
  · intro ch y hy
    obtain ⟨z, hz, hsent⟩ := h.sent ch y hy
    exact ⟨z, getElem?_concat_eq_some.2 (.inl hz), hsent⟩
  · intro i z hz
    rcases getElem?_concat_eq_some.1 hz with hz | ⟨-, rfl⟩
    · exact h.nodup i z hz
    · rw [hx]
      exact List.nodup_nil
  · intro i z hz ch hch
    rcases getElem?_concat_eq_some.1 hz with hz | ⟨-, rfl⟩
    · exact h.chans i z hz ch hch
    · rw [hx] at hch
      simp at hch

/-- A new channel for a call that is not done. -/
theorem attach (h : Attached calls channels) (hx : calls[c]? = some x) (hdone : x.done = false)
    (hchans : (f x).chans = x.chans ++ [channels.length]) (hdone' : (f x).done = false) :
    Attached (calls.modify c f) (channels ++ [{ call := c }]) := by
  have hself := getElem?_modify_self hx f
  have hother : ∀ {i : Nat}, c ≠ i → (calls.modify c f)[i]? = calls[i]? := by
    intro i hne
    rw [List.getElem?_modify]
    simp [hne]
  have hnew : ∀ (i : Nat) z, calls[i]? = some z → channels.length ∉ z.chans := by
    intro i z hz hmem
    obtain ⟨y, hy, -⟩ := h.chans i z hz _ hmem
    simp at hy
  refine ⟨?_, ?_, ?_⟩
  · intro ch y hy
    rcases getElem?_concat_eq_some.1 hy with hy | ⟨rfl, rfl⟩
    · obtain ⟨z, hz, hmem, hsent⟩ := h.sent ch y hy
      by_cases heq : c = y.call
      · rw [← heq] at hz ⊢
        obtain rfl : x = z := Option.some.inj (hx.symm.trans hz)
        refine ⟨f x, hself, ?_, ?_⟩
        · rw [hchans]
          exact List.mem_append_left _ hmem
        · rw [hsent, answers_of_not_done hdone, answers_of_not_done hdone']
      · exact ⟨z, (hother heq).trans hz, hmem, hsent⟩
    · refine ⟨f x, hself, ?_, ?_⟩
      · rw [hchans]
        simp
      · rw [answers_of_not_done hdone']
        rfl
  · intro i z hz
    by_cases heq : c = i
    · subst heq
      obtain rfl : f x = z := Option.some.inj (hself.symm.trans hz)
      have hconcat := List.Nodup.concat (hnew c x hx) (h.nodup c x hx)
      rwa [List.concat_eq_append, ← hchans] at hconcat
    · exact h.nodup i z ((hother heq).symm.trans hz)
  · intro i z hz ch hch
    by_cases heq : c = i
    · subst heq
      obtain rfl : f x = z := Option.some.inj (hself.symm.trans hz)
      rw [hchans] at hch
      rcases List.mem_append.1 hch with hch | hch
      · obtain ⟨y, hy, hcall⟩ := h.chans c x hx ch hch
        exact ⟨y, getElem?_concat_eq_some.2 (.inl hy), hcall⟩
      · obtain rfl := List.mem_singleton.1 hch
        exact ⟨_, getElem?_concat_eq_some.2 (.inr ⟨rfl, rfl⟩), rfl⟩
    · obtain ⟨y, hy, hcall⟩ := h.chans i z ((hother heq).symm.trans hz) ch hch
      exact ⟨y, getElem?_concat_eq_some.2 (.inl hy), hcall⟩

/-- A change of the channels that keeps their calls, if it sends on each what its call asks for. -/
theorem of_channels {calls' : List (Call V E)} {channels' : List (Channel V E)}
    {v : Nat → Channel V E → Channel V E} (h : Attached calls channels)
    (hchannels' : ∀ i, channels'[i]? = channels[i]?.map (v i)) (hv : ∀ i y, (v i y).call = y.call)
    (hcalls' : ∀ (i : Nat) x', calls'[i]? = some x' → ∃ x, calls[i]? = some x ∧ x'.chans = x.chans)
    (hsent : ∀ (i : Nat) y x, channels[i]? = some y → calls[y.call]? = some x → i ∈ x.chans →
      y.sent = x.answers →
        ∃ x', calls'[y.call]? = some x' ∧ x'.chans = x.chans ∧ (v i y).sent = x'.answers) :
    Attached calls' channels' := by
  refine ⟨?_, ?_, ?_⟩
  · intro ch y' hy'
    rw [hchannels'] at hy'
    obtain ⟨y, hy, rfl⟩ := Option.map_eq_some_iff.1 hy'
    obtain ⟨x, hx, hmem, hold⟩ := h.sent ch y hy
    obtain ⟨x', hx', hchans, hnew⟩ := hsent ch y x hy hx hmem hold
    rw [hv]
    exact ⟨x', hx', hchans ▸ hmem, hnew⟩
  · intro i x' hx'
    obtain ⟨x, hx, hchans⟩ := hcalls' i x' hx'
    rw [hchans]
    exact h.nodup i x hx
  · intro i x' hx' ch hch
    obtain ⟨x, hx, hchans⟩ := hcalls' i x' hx'
    rw [hchans] at hch
    obtain ⟨y, hy, hcall⟩ := h.chans i x hx ch hch
    exact ⟨v ch y, by rw [hchannels', hy]; rfl, by rw [hv, hcall]⟩

/-- A received result was sent. -/
theorem receive (h : Attached calls channels) {ch : Nat} {y : Channel V E} {r : Result V E}
    (hy : channels[ch]? = some y) (hr : y.buffer = some r) :
    Attached calls (channels.modify ch fun x =>
      { x with buffer := none, received := x.received ++ [r] }) := by
  refine h.of_channels (v := fun i z =>
      if ch = i then { z with buffer := none, received := z.received ++ [r] } else z) ?_ ?_ ?_ ?_
  · exact fun i => List.getElem?_modify ..
  · intro i z
    split <;> rfl
  · exact fun i x hx => ⟨x, hx, rfl⟩
  · intro i z x hz hx _ hsent
    refine ⟨x, hx, rfl, ?_⟩
    rw [← hsent]
    split
    · next heq =>
      subst heq
      obtain rfl : y = z := Option.some.inj (hy.symm.trans hz)
      simp [Channel.sent, hr]
    · rfl

/-- The channels of a call that is not done are empty. -/
theorem empty_of_not_done (h : Attached calls channels) (hx : calls[c]? = some x)
    (hdone : x.done = false) {ch : Nat} (hch : ch ∈ x.chans) :
    ∃ y, channels[ch]? = some y ∧ y.call = c ∧ y.buffer = none ∧ y.received = [] := by
  obtain ⟨y, hy, hcall⟩ := h.chans c x hx ch hch
  obtain ⟨z, hz, -, hsent⟩ := h.sent ch y hy
  rw [hcall] at hz
  obtain rfl : x = z := Option.some.inj (hx.symm.trans hz)
  rw [answers_of_not_done hdone, Channel.sent, List.append_eq_nil_iff] at hsent
  exact ⟨y, hy, hcall, Option.toList_eq_nil_iff.1 hsent.2, hsent.1⟩

/-- The call is completed and its result sent. -/
theorem complete (h : Attached calls channels) (hx : calls[c]? = some x) (hdone : x.done = false)
    {channels' : List (Channel V E)}
    (hchannels' : ∀ i, channels'[i]? = channels[i]?.map fun y =>
      if i ∈ x.chans then { y with buffer := some x.result } else y) :
    Attached (calls.modify c ({ · with done := true })) channels' := by
  refine h.of_channels (v := fun i y =>
    if i ∈ x.chans then { y with buffer := some x.result } else y) hchannels' ?_ ?_ ?_
  · intro i y
    split <;> rfl
  · intro i z' hz'
    obtain ⟨z, hz, rfl⟩ := getElem?_modify_eq_some.1 hz'
    exact ⟨z, hz, by split <;> rfl⟩
  · intro i y z hy hz hmem hsent
    refine ⟨_, getElem?_modify_eq_some.2 ⟨z, hz, rfl⟩, by split <;> rfl, ?_⟩
    by_cases heq : c = y.call
    · rw [← heq] at hz
      obtain rfl : x = z := Option.some.inj (hx.symm.trans hz)
      rw [answers_of_not_done hdone, Channel.sent, List.append_eq_nil_iff] at hsent
      rw [if_pos hmem, if_pos heq, Channel.sent, hsent.1]
      rfl
    · have hout : i ∉ x.chans := by
        intro hin
        obtain ⟨y', hy', hcall⟩ := h.chans c x hx i hin
        obtain rfl : y = y' := Option.some.inj (hy.symm.trans hy')
        exact heq hcall.symm
      rw [if_neg hout, if_neg heq, hsent]

end Attached

/-! ## Runs in which the functions return -/

/-- Everybody has what the calls gave. -/
structure Delivered (g : Group V E) : Prop where
  alive : g.crashed = false
  plain : Plain g.calls
  callers : Answered g.calls g.callers
  channels : Attached g.calls g.channels

/-- The section of `doCall` after a plain return: nothing blocks it. -/
theorem Delivered.complete_eq (h : g.Delivered) {c : Nat} {x : Call V E} (hx : g.calls[c]? = some x)
    (hdone : x.done = false) :
    ∃ channels', g.complete c x = some { g.wgDone c x.key with channels := channels' } ∧
      ∀ i, channels'[i]? = g.channels[i]?.map fun y =>
        if i ∈ x.chans then { y with buffer := some x.result } else y := by
  have hempty : ∀ ch ∈ x.chans, ∃ y, g.channels[ch]? = some y ∧ y.buffer = none := by
    intro ch hch
    obtain ⟨y, hy, -, hbuffer, -⟩ := h.channels.empty_of_not_done hx hdone hch
    exact ⟨y, hy, hbuffer⟩
  obtain ⟨channels', hsend, hchannels'⟩ := sendAll_eq_some (h.channels.nodup c x hx) hempty
  refine ⟨channels', ?_, hchannels'⟩
  unfold result at hsend
  unfold complete
  rcases err_of_plain (h.plain c x hx).1 with herr | ⟨err, herr⟩
  · rw [herr] at hsend ⊢
    exact congrArg (Option.map _) hsend
  · rw [herr] at hsend ⊢
    exact congrArg (Option.map _) hsend

theorem Delivered.step (hmapped : Mapped g.m (keys g.calls) g.log) (h : g.Delivered)
    (hends : Ends FnResult.isPlain g e) (hs : g.step e = some g') : g'.Delivered := by
  cases moves_of_step hs with
  | joinDo key c hm =>
    obtain ⟨x, hx, hdone⟩ := entry_not_done hmapped hm
    have hnot := answers_of_not_done hdone
    refine ⟨h.alive, h.plain.modify fun y hy => h.plain c y hy, ?_, ?_⟩
    · have hgrown := h.callers.grown (grown_modify (f := fun y => { y with dups := y.dups + 1 }) hx
        hdone fun y => Nat.le_succ y.dups)
      exact hgrown.concat (getElem?_modify_self hx _) (fun _ => Nat.succ_pos x.dups) rfl
    · refine h.channels.modify hx rfl ?_
      rw [hnot]
      exact answers_of_not_done hdone
  | startDo key hm =>
    refine ⟨h.alive, h.plain.concat rfl rfl, ?_, h.channels.concat_call rfl⟩
    refine (h.callers.grown (grown_concat g.calls { key })).concat (x := { key }) ?_ ?_ rfl
    · exact getElem?_concat_eq_some.2 (.inr ⟨rfl, rfl⟩)
    · exact fun hjoined => Bool.noConfusion hjoined
  | joinDoChan key c hm =>
    obtain ⟨x, hx, hdone⟩ := entry_not_done hmapped hm
    refine ⟨h.alive, ?_, ?_, ?_⟩
    · exact h.plain.modify fun y hy => h.plain c y hy
    · exact h.callers.grown (grown_modify hx hdone fun y => Nat.le_succ _)
    · exact h.channels.attach hx hdone rfl hdone
  | startDoChan key hm =>
    refine ⟨h.alive, h.plain.concat rfl rfl, h.callers.grown (grown_concat g.calls _), ?_⟩
    have hcall : (g.calls ++ [{ key := key }])[g.calls.length]? = some { key := key } :=
      getElem?_concat_eq_some.2 (.inr ⟨rfl, rfl⟩)
    have hattach := (h.channels.concat_call (x := { key := key }) rfl).attach
      (f := fun x => { x with chans := x.chans ++ [g.channels.length] }) hcall rfl rfl rfl
    rw [modify_concat_length] at hattach
    exact hattach
  | fnEnds c r x hx hfn =>
    have hdone : x.done = false := by
      by_contra hdone
      have hsome := (h.plain c x hx).2 (by simpa using hdone)
      rw [hfn] at hsome
      exact Bool.noConfusion hsome
    refine ⟨h.alive, ?_, ?_, ?_⟩
    · refine h.plain.modify fun y hy => ⟨?_, fun _ => rfl⟩
      intro r' hr'
      obtain rfl : r = r' := Option.some.inj hr'
      exact hends
    · exact h.callers.grown (grown_modify hx hdone fun y => Nat.le_refl _)
    · refine h.channels.modify hx rfl ?_
      rw [answers_of_not_done hdone]
      exact answers_of_not_done hdone
  | complete c x hx hfn hdone _ hg' =>
    obtain ⟨channels', heq, hchannels'⟩ := h.complete_eq hx hdone
    obtain rfl := Option.some.inj (heq.symm.trans hg')
    refine ⟨h.alive, ?_, ?_, ?_⟩
    · refine h.plain.modify fun y hy => ⟨(h.plain c y hy).1, fun _ => ?_⟩
      obtain rfl : x = y := Option.some.inj (hx.symm.trans hy)
      exact hfn
    · exact h.callers.grown (grown_modify hx hdone fun y => Nat.le_refl _)
    · exact h.channels.complete hx hdone hchannels'
  | doEnds i y x hy hout hx hdone =>
    exact ⟨h.alive, h.plain, h.callers.doEnds h.plain hy hx hdone, h.channels⟩
  | receive ch y r hy hr => exact ⟨h.alive, h.plain, h.callers, h.channels.receive hy hr⟩
  | forget key => exact ⟨h.alive, h.plain, h.callers, h.channels⟩

theorem delivered_of_reachable (h : (flights V E).ReachableWhen (Ends FnResult.isPlain) g) :
    g.Delivered := by
  refine h.invariant Delivered ?_ ?_
  · rintro _ rfl
    exact ⟨rfl, by simp [Plain], by simp [Answered], by simp, by simp, by simp⟩
  · intro g e g' hreach hdelivered hends hs
    exact hdelivered.step (mapped_of_reachable hreach) hends hs

/-- The result of a call is what its function returned, shared if it has more than one caller. -/
theorem Delivered.result_eq (h : g.Delivered) (hcounted : ∀ c, g.callersOf c = users g.calls c)
    {c : Nat} {x : Call V E} (hx : g.calls[c]? = some x) (hdone : x.done = true) :
    ∃ val err, x.fn = some (.returns val err) ∧ x.result = g.resultOf c val err := by
  obtain ⟨hplain, hended⟩ := h.plain c x hx
  obtain ⟨r, hr⟩ := Option.isSome_iff_exists.1 (hended hdone)
  have hr' := hplain r hr
  cases r with
  | returns val err =>
    refine ⟨val, err, hr, ?_⟩
    have hcount : g.callersOf c = x.dups + 1 := by
      rw [hcounted, users, hx]
      rfl
    simp [result, resultOf, hcount, Call.val, Call.err, hr, FnResult.val, FnResult.err]
  | panics _ | goexit => exact Bool.noConfusion hr'

/-- The completion of a call removes no other call, whatever its function did. -/
theorem m_of_complete {c : Nat} (hs : g.step (.complete c) = some g') {key : String} {c' : Nat}
    (hm : g.m key = some c') (hne : c' ≠ c) : g'.m key = some c' := by
  cases moves_of_step hs with
  | complete _ x hx hfn hdone _ hg' =>
    obtain ⟨channels, crashed, rfl, -⟩ := complete_eq_some hg'
    change (if g.m x.key = some c then Function.update g.m x.key none else g.m) key = some c'
    split
    · next hentry =>
      have hkey : key ≠ x.key := by
        rintro rfl
        rw [hm] at hentry
        exact hne (Option.some.inj hentry)
      rw [Function.update_of_ne hkey, hm]
    · exact hm

/-- A group does what it is for, if every function returns and with an error that is neither a
`*panicError` nor `errGoexit`. -/
theorem flights_single (h : (flights V E).ReachableWhen (Ends FnResult.isPlain) g) :
    g.SingleFlight := by
  have hmapped := mapped_of_reachable h
  have hcounted : ∀ c, g.callersOf c = users g.calls c := counted_of_reachable h
  have hdelivered := delivered_of_reachable h
  have hkeys : ∀ {c : Nat} {x : Call V E}, g.calls[c]? = some x →
      (keys g.calls)[c]? = some (x.key, x.done) := by
    intro c x hx
    rw [keys, List.getElem?_map, hx]
    rfl
  refine ⟨?_, ?_, ?_, ?_, ?_, ?_⟩
  · intro c₁ c₂ x₁ x₂ hlt hx₁ hx₂ hkey
    exact hmapped.apart c₁ c₂ _ _ hlt (hkeys hx₁) (hkeys hx₂) hkey
  · intro y hy o ho
    obtain ⟨x, hx, -, hout⟩ := hdelivered.callers y hy
    obtain ⟨hdone, rfl⟩ := hout o ho
    obtain ⟨val, err, hfn, hresult⟩ := hdelivered.result_eq hcounted hx hdone
    exact ⟨x, val, err, hx, hfn, by rw [hresult]⟩
  · intro y hy
    obtain ⟨ch, hy⟩ := List.getElem?_of_mem hy
    obtain ⟨x, hx, -, hsent⟩ := hdelivered.channels.sent ch y hy
    refine ⟨x, hx, fun hdone => ?_, fun hdone => ?_⟩
    · rw [hsent, answers_of_not_done hdone]
    · obtain ⟨val, err, hfn, hresult⟩ := hdelivered.result_eq hcounted hx hdone
      refine ⟨val, err, hfn, ?_⟩
      rw [hsent, answers, if_pos hdone, hresult]
  · intro c x hx hfn hdone
    obtain ⟨channels', hcomplete, -⟩ := hdelivered.complete_eq hx hdone
    simp only [step, hdelivered.alive, hx, hfn, hdone, and_self, if_true, hcomplete]
    rfl
  · intro i y x hy hout hx hdone
    obtain ⟨call, joined, _⟩ := y
    obtain rfl := hout
    simp only [step, hdelivered.alive, hy]
    rw [hx]
    simp [hdone]
  · intro c g' hs key c' hm hne
    exact m_of_complete hs hm hne

theorem flights_single_forgotten :
    ∃ g, (flights Nat Nat).ReachableWhen (Ends FnResult.isPlain) g ∧
      g.callers = [⟨0, false, some (.returned ⟨some 5, none, true⟩)⟩,
        ⟨1, false, some (.returned ⟨some 6, none, false⟩)⟩] ∧
      g.channels = [⟨0, none, [⟨some 5, none, true⟩]⟩] ∧ g.SingleFlight := by
  have hrun : (((flights Nat Nat).restrict (Ends FnResult.isPlain)).run {}
      [.callDo "k", .callDoChan "k", .forget "k", .callDo "k", .fnEnds 0 (.returns (some 5) none),
        .complete 0, .fnEnds 1 (.returns (some 6) none), .complete 1, .doEnds 0, .doEnds 1,
        .receive 0]).map (fun g => (g.callers, g.channels)) =
      some ([⟨0, false, some (.returned ⟨some 5, none, true⟩)⟩,
        ⟨1, false, some (.returned ⟨some 6, none, false⟩)⟩],
        [⟨0, none, [⟨some 5, none, true⟩]⟩]) := by decide
  obtain ⟨g, hreach, hseen⟩ := Machine.observedWhen_of_run hrun rfl
  obtain ⟨hcallers, hchannels⟩ := Prod.mk.inj hseen
  exact ⟨g, hreach, hcallers, hchannels, flights_single hreach⟩

/-- A function returns a `*panicError`, which it may have recovered from another `Do`. The `Do` that
runs it panics. -/
theorem flights_panic_on_return :
    ∃ g, (flights Nat Nat).ReachableWhen (Ends FnResult.isReturn) g ∧
      g.calls.map Call.fn = [some (.returns none (some (.panicError 0)))] ∧
      g.callers = [⟨0, false, some (.panicked 0)⟩] ∧ ¬ g.SingleFlight := by
  have hrun : (((flights Nat Nat).restrict (Ends FnResult.isReturn)).run {}
      [.callDo "k", .fnEnds 0 (.returns none (some (.panicError 0))), .complete 0, .doEnds 0]).map
        (fun g => (g.calls.map Call.fn, g.callers)) =
      some ([some (.returns none (some (.panicError 0)))],
        [⟨0, false, some (.panicked 0)⟩]) := by decide
  obtain ⟨g, hreach, hseen⟩ := Machine.observedWhen_of_run hrun rfl
  obtain ⟨hcalls, hcallers⟩ := Prod.mk.inj hseen
  refine ⟨g, hreach, hcalls, hcallers, fun hsingle => ?_⟩
  have hmem : ⟨0, false, some (.panicked 0)⟩ ∈ g.callers := by
    rw [hcallers]
    exact List.mem_singleton_self _
  obtain ⟨x, val, err, -, -, hout⟩ := hsingle.callers _ hmem _ rfl
  cases hout

end Group

end OwnX.Concurrency
