import OwnX.Concurrency.SingleFlight
import OwnX.Foundations.Proofs.MachineProofs

/-!
# Entries and callers of a group

The entry of a key is a call that is not done, and a call without an entry was completed or forgotten.
So the calls for a key can overlap only around a `Forget`. `dups` counts those who have joined a call.
Both hold whatever the functions do.
-/

namespace OwnX.Concurrency

theorem getElem?_modify_eq_some {α : Type} {l : List α} {c i : Nat} {f : α → α} {x' : α} :
    (l.modify c f)[i]? = some x' ↔ ∃ x, l[i]? = some x ∧ (if c = i then f x else x) = x' := by
  rw [List.getElem?_modify]
  exact Option.map_eq_some_iff

theorem getElem?_modify_self {α : Type} {l : List α} {c : Nat} {x : α} (h : l[c]? = some x)
    (f : α → α) : (l.modify c f)[c]? = some (f x) :=
  getElem?_modify_eq_some.2 ⟨x, h, if_pos rfl⟩

theorem modify_concat_length {α : Type} (l : List α) (a : α) (f : α → α) :
    (l ++ [a]).modify l.length f = l ++ [f a] := by
  induction l with
  | nil => rfl
  | cons b l ih => exact congrArg (b :: ·) ih

/-- A map that does not see a change of an element. -/
theorem map_modify_of_eq {α β : Type} (v : α → β) {f : α → α} (hf : ∀ x, v (f x) = v x) (l : List α)
    (c : Nat) : (l.modify c f).map v = l.map v := by
  apply List.ext_getElem?
  intro i
  rw [List.getElem?_map, List.getElem?_map, List.getElem?_modify]
  cases l[i]? with
  | none => rfl
  | some x =>
    by_cases hc : c = i
    · simp [hc, hf]
    · simp [hc]

/-- The place of an element in a list that has one more. -/
theorem getElem?_concat_eq_some {α : Type} {l : List α} {a x : α} {i : Nat} :
    (l ++ [a])[i]? = some x ↔ l[i]? = some x ∨ i = l.length ∧ a = x := by
  rcases Nat.lt_trichotomy i l.length with hlt | rfl | hgt
  · rw [List.getElem?_append_left hlt]
    constructor
    · exact Or.inl
    · rintro (h | ⟨h, -⟩)
      · exact h
      · omega
  · simp
  · have hnone : l[i]? = none := List.getElem?_eq_none (Nat.le_of_lt hgt)
    have hnone' : (l ++ [a])[i]? = none := List.getElem?_eq_none (by simp; omega)
    simp only [hnone, hnone', reduceCtorEq, false_or, false_iff]
    rintro ⟨h, -⟩
    omega

/-! ## Sending a result -/

section Send

variable {V E : Type} {r : Result V E}

theorem map_call_sendAll {chans : List Nat} {channels channels' : List (Channel V E)}
    (h : sendAll r chans channels = some channels') :
    channels'.map Channel.call = channels.map Channel.call := by
  induction chans generalizing channels with
  | nil =>
    obtain rfl := Option.some.inj h
    rfl
  | cons ch chans ih =>
    rw [sendAll] at h
    split at h
    · rw [ih h]
      refine map_modify_of_eq Channel.call ?_ channels ch
      exact fun _ => rfl
    · simp at h

/-- Results are sent on channels that are empty. -/
theorem sendAll_eq_some {chans : List Nat} {channels : List (Channel V E)} (hnodup : chans.Nodup)
    (hempty : ∀ ch ∈ chans, ∃ y, channels[ch]? = some y ∧ y.buffer = none) :
    ∃ channels', sendAll r chans channels = some channels' ∧
      ∀ i, channels'[i]? = channels[i]?.map fun y =>
        if i ∈ chans then { y with buffer := some r } else y := by
  induction chans generalizing channels with
  | nil => exact ⟨channels, rfl, by simp⟩
  | cons ch chans ih =>
    obtain ⟨hch, hnodup⟩ := List.nodup_cons.1 hnodup
    obtain ⟨⟨call, buffer, received⟩, hy, rfl⟩ := hempty ch List.mem_cons_self
    -- The other channels are as they were, since each channel is there once.
    have hrest : ∀ i ∈ chans, ∃ y,
        (channels.modify ch ({ · with buffer := some r }))[i]? = some y ∧ y.buffer = none := by
      intro i hi
      obtain ⟨y, hy, hbuffer⟩ := hempty i (List.mem_cons_of_mem ch hi)
      have hne : ch ≠ i := fun heq => hch (heq ▸ hi)
      exact ⟨y, getElem?_modify_eq_some.2 ⟨y, hy, if_neg hne⟩, hbuffer⟩
    obtain ⟨channels', hsend, hchannels'⟩ := ih hnodup hrest
    refine ⟨channels', ?_, ?_⟩
    · rw [sendAll, hy]
      exact hsend
    · intro i
      rw [hchannels' i, List.getElem?_modify]
      cases hi : channels[i]? with
      | none => rfl
      | some y =>
        by_cases heq : ch = i
        · subst heq
          simp [hch]
        · simp [heq, Ne.symm heq]

end Send

/-! ## The steps -/

namespace Group

variable {V E : Type} {g g' : Group V E} {e : GroupEvent V E}

/-- The steps, one by one. -/
inductive Moves (g : Group V E) : GroupEvent V E → Group V E → Prop where
  | joinDo (key : String) (c : Nat) (hm : g.m key = some c) :
    Moves g (.callDo key)
      { g with
        calls := g.calls.modify c fun x => { x with dups := x.dups + 1 }
        callers := g.callers ++ [{ call := c, joined := true }] }
  | startDo (key : String) (hm : g.m key = none) :
    Moves g (.callDo key)
      { g.register { key } with
        callers := g.callers ++ [{ call := g.calls.length, joined := false }] }
  | joinDoChan (key : String) (c : Nat) (hm : g.m key = some c) :
    Moves g (.callDoChan key)
      { g with
        calls := g.calls.modify c fun x =>
          { x with dups := x.dups + 1, chans := x.chans ++ [g.channels.length] }
        channels := g.channels ++ [{ call := c }] }
  | startDoChan (key : String) (hm : g.m key = none) :
    Moves g (.callDoChan key)
      { g.register { key, chans := [g.channels.length] } with
        channels := g.channels ++ [{ call := g.calls.length }] }
  | fnEnds (c : Nat) (r : FnResult V E) (x : Call V E) (hx : g.calls[c]? = some x)
      (hfn : x.fn = none) :
    Moves g (.fnEnds c r) { g with calls := g.calls.modify c ({ · with fn := some r }) }
  | complete (c : Nat) (x : Call V E) (hx : g.calls[c]? = some x) (hfn : x.fn.isSome)
      (hdone : x.done = false) (g' : Group V E) (hg' : g.complete c x = some g') :
    Moves g (.complete c) g'
  | doEnds (i : Nat) (y : Caller V E) (x : Call V E) (hy : g.callers[i]? = some y)
      (hout : y.outcome = none) (hx : g.calls[y.call]? = some x) (hdone : x.done = true) :
    Moves g (.doEnds i)
      { g with callers := g.callers.modify i ({ · with outcome := some (outcome x y.joined) }) }
  | receive (ch : Nat) (y : Channel V E) (r : Result V E) (hy : g.channels[ch]? = some y)
      (hr : y.buffer = some r) :
    Moves g (.receive ch)
      { g with
        channels := g.channels.modify ch fun x =>
          { x with buffer := none, received := x.received ++ [r] } }
  | forget (key : String) : Moves g (.forget key) (g.forget key)

theorem moves_of_step (hs : g.step e = some g') : g.Moves e g' := by
  unfold step at hs
  split at hs
  · simp at hs
  cases e with
  | callDo key =>
    obtain rfl := Option.some.inj hs
    unfold callDo
    split
    · next c hm => exact .joinDo key c hm
    · next hm => exact .startDo key hm
  | callDoChan key =>
    obtain rfl := Option.some.inj hs
    unfold callDoChan
    split
    · next c hm => exact .joinDoChan key c hm
    · next hm => exact .startDoChan key hm
  | fnEnds c r =>
    dsimp only at hs
    split at hs
    · next hx =>
      obtain rfl := Option.some.inj hs
      exact .fnEnds c r _ hx rfl
    · simp at hs
  | complete c =>
    dsimp only at hs
    split at hs
    · next x hx =>
      obtain ⟨⟨hfn, hdone⟩, hg'⟩ := Option.ite_none_right_eq_some.1 hs
      exact .complete c x hx hfn hdone g' hg'
    · simp at hs
  | doEnds i =>
    dsimp only at hs
    split at hs
    · next hy =>
      split at hs
      · next x hx =>
        obtain ⟨hdone, hg'⟩ := Option.ite_none_right_eq_some.1 hs
        obtain rfl := Option.some.inj hg'
        exact .doEnds i _ x hy rfl hx hdone
      · simp at hs
    · simp at hs
  | receive ch =>
    dsimp only at hs
    split at hs
    · next hy =>
      obtain rfl := Option.some.inj hs
      exact .receive ch _ _ hy rfl
    · simp at hs
  | forget key =>
    obtain rfl := Option.some.inj hs
    exact .forget key

/-- The section of `doCall` changes the map, the calls and the log in one way, whatever the error; the
channels are changed only by sending. -/
theorem complete_eq_some {c : Nat} {x : Call V E} (h : g.complete c x = some g') :
    ∃ channels crashed, g' = { g.wgDone c x.key with channels, crashed } ∧
      channels.map Channel.call = g.channels.map Channel.call := by
  unfold complete at h
  dsimp only at h
  split at h
  · exact ⟨_, _, (Option.some.inj h).symm, rfl⟩
  · exact ⟨_, _, (Option.some.inj h).symm, rfl⟩
  · obtain ⟨channels, hsend, rfl⟩ := Option.map_eq_some_iff.1 h
    exact ⟨channels, g.crashed, rfl, map_call_sendAll hsend⟩
  · obtain ⟨channels, hsend, rfl⟩ := Option.map_eq_some_iff.1 h
    exact ⟨channels, g.crashed, rfl, map_call_sendAll hsend⟩

/-! ## Entries of the map -/

/-- What the map looks at in the calls: their keys, and which are done. -/
def keys (calls : List (Call V E)) : List (String × Bool) := calls.map fun x => (x.key, x.done)

theorem keys_modify {f : Call V E → Call V E} (hf : ∀ x, ((f x).key, (f x).done) = (x.key, x.done))
    {calls : List (Call V E)} (c : Nat) : keys (calls.modify c f) = keys calls := by
  unfold keys
  exact map_modify_of_eq _ hf calls c

/-- The entries of the map, the calls, and what the log says of them. -/
structure Mapped (m : String → Option Nat) (keys : List (String × Bool)) (log : List Logged) :
    Prop where
  /-- An entry is a call for the key that is not done. -/
  entry : ∀ key c, m key = some c → keys[c]? = some (key, false)
  registered : ∀ (c : Nat) x, keys[c]? = some x → .registered c ∈ log
  /-- A call without an entry was completed or forgotten. -/
  gone : ∀ (c : Nat) x, keys[c]? = some x → m x.1 = some c ∨
    List.Sublist [.registered c, .completed c] log ∨ List.Sublist [.registered c, .forgot x.1] log
  apart : ∀ (c₁ c₂ : Nat) x₁ x₂, c₁ < c₂ → keys[c₁]? = some x₁ → keys[c₂]? = some x₂ → x₁.1 = x₂.1 →
    List.Sublist [.registered c₁, .completed c₁, .registered c₂] log ∨
    List.Sublist [.registered c₁, .forgot x₁.1, .registered c₂] log

namespace Mapped

variable {m : String → Option Nat} {keys : List (String × Bool)} {log : List Logged}

theorem empty : Mapped (fun _ => none) [] [] :=
  ⟨by simp, by simp, by simp, by simp⟩

theorem of_keys (h : Mapped m keys log) {keys' : List (String × Bool)} (heq : keys' = keys) :
    Mapped m keys' log := heq ▸ h

/-- What is logged stays so. -/
theorem apart_concat (h : Mapped m keys log) {c₁ c₂ : Nat} {x₁ x₂ : String × Bool} (hlt : c₁ < c₂)
    (hx₁ : keys[c₁]? = some x₁) (hx₂ : keys[c₂]? = some x₂) (hkey : x₁.1 = x₂.1) (a : Logged) :
    List.Sublist [.registered c₁, .completed c₁, .registered c₂] (log ++ [a]) ∨
      List.Sublist [.registered c₁, .forgot x₁.1, .registered c₂] (log ++ [a]) := by
  refine (h.apart c₁ c₂ x₁ x₂ hlt hx₁ hx₂ hkey).imp ?_ ?_
  · exact fun hsub => hsub.trans (List.sublist_append_left _ _)
  · exact fun hsub => hsub.trans (List.sublist_append_left _ _)

/-- A call without an entry, and what is logged next. -/
theorem gone_concat (h : Mapped m keys log) {c : Nat} {x : String × Bool} (hx : keys[c]? = some x)
    (hm : m x.1 ≠ some c) (a : Logged) :
    List.Sublist [.registered c, .completed c, a] (log ++ [a]) ∨
      List.Sublist [.registered c, .forgot x.1, a] (log ++ [a]) := by
  rcases h.gone c x hx with hentry | hcompleted | hforgot
  · exact absurd hentry hm
  · exact .inl (hcompleted.append (List.Sublist.refl [a]))
  · exact .inr (hforgot.append (List.Sublist.refl [a]))

/-- The last thing that happened to a call. -/
theorem registered_concat (h : Mapped m keys log) {c : Nat} {x : String × Bool}
    (hx : keys[c]? = some x) (a : Logged) : List.Sublist [.registered c, a] (log ++ [a]) :=
  (List.singleton_sublist.2 (h.registered c x hx)).append (List.Sublist.refl [a])

theorem register (h : Mapped m keys log) {key : String} (hm : m key = none) :
    Mapped (Function.update m key (some keys.length)) (keys ++ [(key, false)])
      (log ++ [.registered keys.length]) := by
  have hold : ∀ c x, keys[c]? = some x → m x.1 = some c → x.1 ≠ key := by
    intro c x _ hentry heq
    rw [heq, hm] at hentry
    simp at hentry
  refine ⟨?_, ?_, ?_, ?_⟩
  · intro k c hc
    by_cases hk : k = key
    · subst hk
      rw [Function.update_self] at hc
      obtain rfl := Option.some.inj hc
      exact getElem?_concat_eq_some.2 (.inr ⟨rfl, rfl⟩)
    · rw [Function.update_of_ne hk] at hc
      exact getElem?_concat_eq_some.2 (.inl (h.entry k c hc))
  · intro c x hx
    rcases getElem?_concat_eq_some.1 hx with hx | ⟨rfl, -⟩
    · exact List.mem_append_left _ (h.registered c x hx)
    · simp
  · intro c x hx
    rcases getElem?_concat_eq_some.1 hx with hx | ⟨rfl, rfl⟩
    · rcases h.gone c x hx with hentry | hcompleted | hforgot
      · left
        rw [Function.update_of_ne (hold c x hx hentry), hentry]
      · exact .inr (.inl (hcompleted.trans (List.sublist_append_left _ _)))
      · exact .inr (.inr (hforgot.trans (List.sublist_append_left _ _)))
    · left
      exact Function.update_self ..
  · intro c₁ c₂ x₁ x₂ hlt hx₁ hx₂ hkey
    rcases getElem?_concat_eq_some.1 hx₁ with hx₁ | ⟨rfl, -⟩
    · rcases getElem?_concat_eq_some.1 hx₂ with hx₂ | ⟨rfl, rfl⟩
      · exact h.apart_concat hlt hx₁ hx₂ hkey _
      · -- The key had no entry, so the earlier call was completed or forgotten.
        exact h.gone_concat hx₁ (fun hentry => hold c₁ x₁ hx₁ hentry hkey) _
    · have hlt₂ : c₂ < (keys ++ [(key, false)]).length := (List.getElem?_eq_some_iff.1 hx₂).1
      simp at hlt₂
      omega

theorem forget (h : Mapped m keys log) (key : String) :
    Mapped (Function.update m key none) keys (log ++ [.forgot key]) := by
  refine ⟨?_, ?_, ?_, ?_⟩
  · intro k c hc
    by_cases hk : k = key
    · subst hk
      rw [Function.update_self] at hc
      simp at hc
    · rw [Function.update_of_ne hk] at hc
      exact h.entry k c hc
  · exact fun c x hx => List.mem_append_left _ (h.registered c x hx)
  · intro c x hx
    rcases h.gone c x hx with hentry | hcompleted | hforgot
    · by_cases hk : x.1 = key
      · right
        right
        rw [hk]
        exact h.registered_concat hx _
      · left
        rw [Function.update_of_ne hk, hentry]
    · exact .inr (.inl (hcompleted.trans (List.sublist_append_left _ _)))
    · exact .inr (.inr (hforgot.trans (List.sublist_append_left _ _)))
  · intro c₁ c₂ x₁ x₂ hlt hx₁ hx₂ hkey
    exact h.apart_concat hlt hx₁ hx₂ hkey _

/-- The keys of the calls do not change. -/
theorem fst_of_modify {c i : Nat} {x' : String × Bool}
    (hx' : (keys.modify c fun x => (x.1, true))[i]? = some x') :
    ∃ x, keys[i]? = some x ∧ x'.1 = x.1 := by
  obtain ⟨x, hx, rfl⟩ := getElem?_modify_eq_some.1 hx'
  refine ⟨x, hx, ?_⟩
  split <;> rfl

theorem complete (h : Mapped m keys log) {c : Nat} {key : String} {done : Bool}
    (hc : keys[c]? = some (key, done)) :
    Mapped (if m key = some c then Function.update m key none else m)
      (keys.modify c fun x => (x.1, true)) (log ++ [.completed c]) := by
  have hm : ∀ k c', (if m key = some c then Function.update m key none else m) k = some c' ↔
      m k = some c' ∧ c' ≠ c := by
    intro k c'
    have hkey : m k = some c → k = key := by
      intro hk
      have hentry := h.entry k c hk
      rw [hc] at hentry
      exact (Prod.mk.inj (Option.some.inj hentry)).1.symm
    split
    · next hentry =>
      by_cases hk : k = key
      · subst hk
        rw [Function.update_self, hentry]
        simp [eq_comm]
      · rw [Function.update_of_ne hk]
        refine ⟨fun hc' => ⟨hc', ?_⟩, And.left⟩
        rintro rfl
        exact hk (hkey hc')
    · next hentry =>
      refine ⟨fun hc' => ⟨hc', ?_⟩, And.left⟩
      rintro rfl
      exact hentry (hkey hc' ▸ hc')
  refine ⟨?_, ?_, ?_, ?_⟩
  · intro k c' hc'
    obtain ⟨hentry, hne⟩ := (hm k c').1 hc'
    exact getElem?_modify_eq_some.2 ⟨_, h.entry k c' hentry, if_neg (Ne.symm hne)⟩
  · intro i x' hx'
    obtain ⟨x, hx, -⟩ := fst_of_modify hx'
    exact List.mem_append_left _ (h.registered i x hx)
  · intro i x' hx'
    obtain ⟨x, hx, hkey⟩ := fst_of_modify hx'
    rw [hkey, hm]
    rcases h.gone i x hx with hentry | hcompleted | hforgot
    · by_cases hi : i = c
      · subst hi
        exact .inr (.inl (h.registered_concat hx _))
      · exact .inl ⟨hentry, hi⟩
    · exact .inr (.inl (hcompleted.trans (List.sublist_append_left _ _)))
    · exact .inr (.inr (hforgot.trans (List.sublist_append_left _ _)))
  · intro c₁ c₂ x₁' x₂' hlt hx₁' hx₂' hkey
    obtain ⟨x₁, hx₁, hkey₁⟩ := fst_of_modify hx₁'
    obtain ⟨x₂, hx₂, hkey₂⟩ := fst_of_modify hx₂'
    rw [hkey₁, hkey₂] at hkey
    rw [hkey₁]
    exact h.apart_concat hlt hx₁ hx₂ hkey _

end Mapped

theorem mapped_of_step (h : Mapped g.m (keys g.calls) g.log) (hs : g.step e = some g') :
    Mapped g'.m (keys g'.calls) g'.log := by
  cases moves_of_step hs with
  | joinDo key c hm =>
    refine h.of_keys (keys_modify ?_ c)
    exact fun _ => rfl
  | joinDoChan key c hm =>
    refine h.of_keys (keys_modify ?_ c)
    exact fun _ => rfl
  | startDo key hm =>
    have hreg := h.register hm
    rw [keys, List.length_map] at hreg
    simpa only [register, keys, List.map_append, List.map_cons, List.map_nil] using hreg
  | startDoChan key hm =>
    have hreg := h.register hm
    rw [keys, List.length_map] at hreg
    simpa only [register, keys, List.map_append, List.map_cons, List.map_nil] using hreg
  | fnEnds c r x hx hfn =>
    refine h.of_keys (keys_modify ?_ c)
    exact fun _ => rfl
  | complete c x hx hfn hdone _ hg' =>
    obtain ⟨channels, crashed, rfl, -⟩ := complete_eq_some hg'
    have hkey : (keys g.calls)[c]? = some (x.key, x.done) := by
      rw [keys, List.getElem?_map, hx]
      rfl
    have hkeys : keys (g.wgDone c x.key).calls = (keys g.calls).modify c fun x => (x.1, true) := by
      apply List.ext_getElem?
      intro i
      simp only [keys, wgDone, List.getElem?_map, List.getElem?_modify]
      cases g.calls[i]? with
      | none => rfl
      | some y =>
        by_cases hc : c = i
        · simp [hc]
        · simp [hc]
    exact (h.complete hkey).of_keys hkeys
  | doEnds i y x hy hout hx hdone => exact h
  | receive ch y r hy hr => exact h
  | forget key => exact h.forget key

theorem mapped_of_reachable {ok : Group V E → GroupEvent V E → Prop}
    (h : (flights V E).ReachableWhen ok g) : Mapped g.m (keys g.calls) g.log := by
  refine h.invariant (fun g => Mapped g.m (keys g.calls) g.log) ?_ ?_
  · rintro _ rfl
    exact Mapped.empty
  · intro g e g' _ hmapped _ hs
    exact mapped_of_step hmapped hs

/-- The call that is joined is not done. -/
theorem entry_not_done (h : Mapped g.m (keys g.calls) g.log) {key : String} {c : Nat}
    (hm : g.m key = some c) : ∃ x, g.calls[c]? = some x ∧ x.done = false := by
  have hentry := h.entry key c hm
  rw [keys, List.getElem?_map] at hentry
  obtain ⟨x, hx, hkey⟩ := Option.map_eq_some_iff.1 hentry
  exact ⟨x, hx, (Prod.mk.inj hkey).2⟩

end Group

/-! ## How many share a call -/

section Users

variable {V E : Type} {calls : List (Call V E)} {c : Nat} {f : Call V E → Call V E} {x : Call V E}

/-- The callers of a call by its `dups`. -/
def users (calls : List (Call V E)) (c : Nat) : Nat := calls[c]?.elim 0 (·.dups + 1)

theorem users_modify_of_join (hf : ∀ x, (f x).dups = x.dups + 1) (hx : calls[c]? = some x) (i : Nat) :
    users (calls.modify c f) i = users calls i + if c = i then 1 else 0 := by
  unfold users
  rw [List.getElem?_modify]
  by_cases hc : c = i
  · subst hc
    simp [hx, hf]
  · simp [hc]

theorem users_modify_of_eq (hf : ∀ x, (f x).dups = x.dups) (i : Nat) :
    users (calls.modify c f) i = users calls i := by
  unfold users
  rw [List.getElem?_modify]
  cases calls[i]? with
  | none => rfl
  | some y =>
    by_cases hc : c = i
    · simp [hc, hf]
    · simp [hc]

theorem users_concat (hx : x.dups = 0) (i : Nat) :
    users (calls ++ [x]) i = users calls i + if calls.length = i then 1 else 0 := by
  unfold users
  rcases Nat.lt_trichotomy i calls.length with hlt | rfl | hgt
  · rw [List.getElem?_append_left hlt, if_neg (by omega), Nat.add_zero]
  · simp [hx]
  · have hnone : calls[i]? = none := List.getElem?_eq_none (Nat.le_of_lt hgt)
    have hnone' : (calls ++ [x])[i]? = none := List.getElem?_eq_none (by simp; omega)
    rw [hnone, hnone', if_neg (by omega)]
    rfl

/-- The callers of a call, on both kinds of lists. -/
def shares (callers : List (Caller V E)) (channels : List (Channel V E)) (c : Nat) : Nat :=
  (callers.map Caller.call).count c + (channels.map Channel.call).count c

theorem count_map_concat {α : Type} (v : α → Nat) (l : List α) (a : α) (i : Nat) :
    ((l ++ [a]).map v).count i = (l.map v).count i + if v a = i then 1 else 0 := by
  rw [List.map_append, List.count_append, List.map_singleton, List.count_singleton]
  simp only [beq_iff_eq]

theorem shares_concat_caller (callers : List (Caller V E)) (channels : List (Channel V E))
    (y : Caller V E) (i : Nat) :
    shares (callers ++ [y]) channels i = shares callers channels i + if y.call = i then 1 else 0 := by
  unfold shares
  rw [count_map_concat]
  omega

theorem shares_concat_channel (callers : List (Caller V E)) (channels : List (Channel V E))
    (y : Channel V E) (i : Nat) :
    shares callers (channels ++ [y]) i = shares callers channels i + if y.call = i then 1 else 0 := by
  unfold shares
  rw [count_map_concat, Nat.add_assoc]

theorem shares_congr {callers callers' : List (Caller V E)} {channels channels' : List (Channel V E)}
    (hcallers : callers'.map Caller.call = callers.map Caller.call)
    (hchannels : channels'.map Channel.call = channels.map Channel.call) (i : Nat) :
    shares callers' channels' i = shares callers channels i := by
  unfold shares
  rw [hcallers, hchannels]

end Users

namespace Group

variable {V E : Type} {g g' : Group V E} {e : GroupEvent V E}

/-- `dups` counts those who have joined, and one more has registered the call. -/
theorem counted_of_step (hmapped : Mapped g.m (keys g.calls) g.log)
    (h : ∀ c, shares g.callers g.channels c = users g.calls c) (hs : g.step e = some g') (i : Nat) :
    shares g'.callers g'.channels i = users g'.calls i := by
  cases moves_of_step hs with
  | joinDo key c hm =>
    obtain ⟨x, hx, -⟩ := entry_not_done hmapped hm
    change shares (g.callers ++ [_]) g.channels i = users (g.calls.modify c _) i
    rw [shares_concat_caller, users_modify_of_join (fun _ => rfl) hx, h]
  | startDo key hm =>
    change shares (g.callers ++ [_]) g.channels i = users (g.calls ++ [_]) i
    rw [shares_concat_caller, users_concat rfl, h]
  | joinDoChan key c hm =>
    obtain ⟨x, hx, -⟩ := entry_not_done hmapped hm
    change shares g.callers (g.channels ++ [_]) i = users (g.calls.modify c _) i
    rw [shares_concat_channel, users_modify_of_join (fun _ => rfl) hx, h]
  | startDoChan key hm =>
    change shares g.callers (g.channels ++ [_]) i = users (g.calls ++ [_]) i
    rw [shares_concat_channel, users_concat rfl, h]
  | fnEnds c r x hx hfn =>
    refine (h i).trans (Eq.symm (users_modify_of_eq ?_ i))
    exact fun _ => rfl
  | complete c x hx hfn hdone _ hg' =>
    obtain ⟨channels, crashed, rfl, hchannels⟩ := complete_eq_some hg'
    refine (shares_congr rfl hchannels i).trans ((h i).trans ?_)
    refine Eq.symm (users_modify_of_eq ?_ i)
    exact fun _ => rfl
  | doEnds j y x hy hout hx hdone =>
    rw [← h]
    refine shares_congr (map_modify_of_eq Caller.call ?_ g.callers j) rfl i
    exact fun _ => rfl
  | receive ch y r hy hr =>
    rw [← h]
    refine shares_congr rfl (map_modify_of_eq Channel.call ?_ g.channels ch) i
    exact fun _ => rfl
  | forget key => exact h i

theorem counted_of_reachable {ok : Group V E → GroupEvent V E → Prop}
    (h : (flights V E).ReachableWhen ok g) (c : Nat) :
    shares g.callers g.channels c = users g.calls c := by
  refine h.invariant (fun g => ∀ c, shares g.callers g.channels c = users g.calls c) ?_ ?_ c
  · rintro _ rfl c
    rfl
  · intro g e g' hreach hcounted _ hs
    exact counted_of_step (mapped_of_reachable hreach) hcounted hs

end Group

end OwnX.Concurrency
