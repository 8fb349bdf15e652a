import OwnX.TimingWheel.Proofs.WheelProofs
import OwnX.Foundations.Proofs.MachineProofs
import Mathlib.Data.List.Nodup

/-!
# Proofs: when the wheel runs its tasks

A task filed in one of the buckets `0` to `30` is run once, at its tick. In bucket `31` the loop of
`Init` compares the head with the tier of the *next* revolution, because `Incr` has already wrapped
the index: a task there is run a whole revolution early, or never.
-/

namespace OwnX.TimingWheel

variable {α : Type}

/-! ## The clock -/

/-- The clock of a wheel started at `now`. -/
structure Current.Clock (now : Int) (c : Current) : Prop where
  /-- The index counts up from the first bucket. -/
  index_nonneg : 0 ≤ c.index
  /-- After the last bucket it goes back. -/
  index_lt : c.index < 32
  /-- The tier counts the revolutions, and the index the ticks of the current one. -/
  time : c.timestamp = now + 32 * c.tier + c.index

theorem Current.Clock.incr {now : Int} {c : Current} (h : c.Clock now) : c.incr.Clock now := by
  obtain ⟨h0, h1, h2⟩ := h
  unfold Current.incr Current.tierIncr defaultBucketLength
  simp only
  split_ifs with hw
  · exact ⟨by simp, by simp, by simp only; omega⟩
  · exact ⟨by simp only; omega, by simp only; omega, by simp only; omega⟩

theorem incr_eq (c : Current) :
    c.incr = if c.index = 31 then ⟨c.timestamp + 1, c.tier + 1, 0⟩
      else ⟨c.timestamp + 1, c.tier, c.index + 1⟩ := by
  unfold Current.incr Current.tierIncr defaultBucketLength
  by_cases h : c.index = 31
  · have hlast : c.index + 1 = 32 := by omega
    rw [if_pos h]
    exact if_pos hlast
  · have hlast : ¬c.index + 1 = 32 := by omega
    rw [if_neg h]
    exact if_neg hlast

theorem incr_timestamp (c : Current) : c.incr.timestamp = c.timestamp + 1 := by
  rw [incr_eq]
  split_ifs <;> rfl

/-- The tier the tick loop compares with: that of the clock after `Incr`. -/
theorem incr_tier (c : Current) : c.incr.tier = if c.index = 31 then c.tier + 1 else c.tier := by
  rw [incr_eq]
  split_ifs <;> rfl

theorem incr_index (c : Current) : c.incr.index = if c.index = 31 then 0 else c.index + 1 := by
  rw [incr_eq]
  split_ifs <;> rfl

theorem le_effective (c : Current) (timestamp : Int) : c.timestamp ≤ c.effective timestamp := by
  unfold Current.effective
  split_ifs <;> omega

/-- The slot of a timestamp is the bucket and the revolution in which the clock shows it. -/
theorem slot_time {now : Int} {c : Current} (h : c.Clock now) (timestamp : Int) :
    0 ≤ (c.slot timestamp).2 ∧ (c.slot timestamp).2 < 32 ∧
      now + 32 * (c.slot timestamp).1 + (c.slot timestamp).2 = c.effective timestamp := by
  obtain ⟨h0, h1, h2⟩ := h
  have hr := le_effective c timestamp
  unfold Current.slot defaultBucketLength
  simp only
  rw [Int.tdiv_eq_ediv_of_nonneg (by omega), Int.tmod_eq_emod_of_nonneg (by omega)]
  split_ifs with hw
  · rw [Int.tmod_eq_emod_of_nonneg (by omega)]
    simp only
    omega
  · simp only
    omega

/-! ## The log -/

/-- The calls filed under a timestamp, in their order. -/
def Log.dueAt (log : Log α) (m : Int) : List (α × Nat) :=
  (log.added.zipIdx.filter fun x => decide (x.1.2 = m)).map fun x => (x.1.1, x.2)

/-- The calls whose tasks were run in the tick that starts at a timestamp, in their order. -/
def Log.firedAt (log : Log α) (m : Int) : List (α × Nat) :=
  (log.fired.filter fun x => decide (x.2 = m)).map Prod.fst

theorem dueAt_add (log : Log α) (task : α) (due m : Int) :
    ({ log with added := log.added ++ [(task, due)] } : Log α).dueAt m =
      log.dueAt m ++ if due = m then [(task, log.added.length)] else [] := by
  unfold Log.dueAt
  simp only [List.zipIdx_append, List.filter_append, List.map_append]
  by_cases h : due = m <;> simp [h]

theorem firedAt_fire (log : Log α) (out : List (α × Nat)) (t m : Int) :
    ({ log with fired := log.fired ++ out.map fun x => (x, t) } : Log α).firedAt m =
      log.firedAt m ++ if t = m then out else [] := by
  unfold Log.firedAt
  simp only [List.filter_append, List.map_append]
  by_cases h : t = m
  · have hall : (out.map fun x => (x, t)).filter (fun x => decide (x.2 = m)) =
        out.map fun x => (x, t) := by
      refine List.filter_eq_self.mpr fun x hx => ?_
      obtain ⟨y, -, rfl⟩ := List.mem_map.mp hx
      simp [h]
    rw [if_pos h, hall, List.map_map]
    simp [Function.comp_def]
  · have hnone : (out.map fun x => (x, t)).filter (fun x => decide (x.2 = m)) = [] := by
      refine List.filter_eq_nil_iff.mpr fun x hx => ?_
      obtain ⟨y, -, rfl⟩ := List.mem_map.mp hx
      simp [h]
    rw [if_neg h, hnone]
    rfl

theorem added_append {log : Log α} {x : α × Int} {n : Nat} {y : α × Int}
    (h : log.added[n]? = some y) : (log.added ++ [x])[n]? = some y := by
  rw [List.getElem?_append_left (List.getElem?_eq_some_iff.mp h).1, h]

/-! ## The schedule -/

/-- What the buckets and the log of a wheel started at `now` have to do with each other. The slot of
tier `k` in bucket `b` is due at `now + 32 * k + b`. -/
structure Schedule (now time : Int) (log : Log α) (A : Nat → List (Int × List (α × Nat))) :
    Prop where
  /-- A slot that is not over holds the calls due there. -/
  filed : ∀ (b : Nat) (k : Int), b < 31 → time ≤ now + 32 * k + b →
    filed k (A b) = log.dueAt (now + 32 * k + b)
  /-- No slot is over. -/
  future : ∀ (b : Nat), b < 31 → ∀ x ∈ A b, time ≤ now + 32 * x.1 + b
  /-- The calls of a slot that is over have been run at its tick, and no others. -/
  fired : ∀ (b : Nat) (k : Int), b < 31 → log.firedAt (now + 32 * k + b) =
    if now + 32 * k + b < time then log.dueAt (now + 32 * k + b) else []
  /-- The tasks in a slot are due there, also in bucket `31`. -/
  calls : ∀ (b : Nat), ∀ x ∈ A b, ∀ t ∈ x.2, log.added[t.2]? = some (t.1, now + 32 * x.1 + b)
  /-- What is run at a tick of bucket `31` was due one revolution later. -/
  early : ∀ (k : Int), ∀ t ∈ log.firedAt (now + 32 * k + 31),
    log.added[t.2]? = some (t.1, now + 32 * (k + 1) + 31)

theorem Schedule.add {now time : Int} {log : Log α} {A A' : Nat → List (Int × List (α × Nat))}
    (h : Schedule now time log A) (hsorted : ∀ b, Sorted (A b)) (task : α) {due k : Int} {b : Nat}
    (hb : b < 32) (hdue : now + 32 * k + b = due) (htime : time ≤ due)
    (hA : ∀ b', A' b' = if b' = b then insertTier k (task, log.added.length) (A b') else A b') :
    Schedule now time { log with added := log.added ++ [(task, due)] } A' where
  filed := by
    intro b' k' hb' hk'
    rw [dueAt_add, hA]
    by_cases hbb : b' = b
    · rw [if_pos hbb]
      by_cases hkk : k' = k
      · rw [hkk, filed_insertTier_self (hsorted b'), if_pos (by rw [hbb, hdue]),
          h.filed b' k hb' (hkk ▸ hk')]
      · rw [filed_insertTier_of_ne hkk, if_neg (by omega), List.append_nil, h.filed b' k' hb' hk']
    · rw [if_neg hbb, if_neg (by omega), List.append_nil, h.filed b' k' hb' hk']
  future := by
    intro b' hb' x hx
    rw [hA] at hx
    split_ifs at hx with hbb
    · rcases mem_insertTier hx with hx | ⟨hx, -⟩
      · exact h.future b' hb' x hx
      · rw [hx, hbb]
        omega
    · exact h.future b' hb' x hx
  fired := by
    intro b' k' hb'
    rw [dueAt_add]
    have := h.fired b' k' hb'
    split_ifs at this ⊢ with h1 h2
    · omega
    · rw [List.append_nil]
      exact this
    · exact this
  calls := by
    intro b' x hx t ht
    rw [hA] at hx
    split_ifs at hx with hbb
    · rcases mem_insertTier hx with hx | ⟨hx, hts⟩
      · exact added_append (h.calls b' x hx t ht)
      · rcases hts t ht with rfl | ⟨y, hy, hyk, hty⟩
        · rw [hx, hbb, hdue]
          exact List.getElem?_concat_length
        · rw [hx, ← hyk]
          exact added_append (h.calls b' y hy t hty)
    · exact added_append (h.calls b' x hx t ht)
  early := by
    intro k' t ht
    exact added_append (h.early k' t ht)

/-- If the head of a bucket is not due, nothing in the bucket is: its tiers increase, and none of
them is over. -/
theorem Schedule.tier_ne {now time tier : Int} {log : Log α}
    {A : Nat → List (Int × List (α × Nat))} (h : Schedule now time log A) {i : Nat}
    (hsorted : Sorted (A i)) (hi : i < 31) (htime : time = now + 32 * tier + i)
    (hne : ∀ x ∈ (A i).head?, x.1 ≠ tier) : ∀ x ∈ A i, x.1 ≠ tier := by
  intro x hx
  have hfut := h.future i hi
  cases hL : A i with
  | nil => rw [hL] at hx; simp at hx
  | cons y l =>
    rw [hL] at hx hsorted hne hfut
    have hy := hne y rfl
    have hyfut := hfut y List.mem_cons_self
    rcases List.mem_cons.mp hx with rfl | hx
    · exact hy
    · have := (List.pairwise_cons.mp hsorted).1 x hx
      omega

/-- The tick of bucket `i` at the time `time`, when it is one of the buckets `0` to `30`. -/
theorem Schedule.tick {now time tier : Int} {log : Log α}
    {A A' : Nat → List (Int × List (α × Nat))} (h : Schedule now time log A)
    (hsorted : ∀ b, Sorted (A b)) {i : Nat} (hi : i < 31) (htime : time = now + 32 * tier + i)
    {out : List (α × Nat)}
    (hcase : (∃ rest, A i = (tier, out) :: rest ∧ ∀ b, A' b = if b = i then rest else A b) ∨
      (out = [] ∧ (∀ x ∈ (A i).head?, x.1 ≠ tier) ∧ ∀ b, A' b = A b)) :
    Schedule now (time + 1) { log with fired := log.fired ++ out.map fun x => (x, time) } A' := by
  -- what is run is what is due
  have hout : out = log.dueAt time := by
    rw [htime, ← h.filed i tier hi (by omega)]
    rcases hcase with ⟨rest, hAi, -⟩ | ⟨hnil, hne, -⟩
    · rw [hAi, TimingWheel.filed, if_pos rfl]
    · rw [hnil, filed_eq_nil (h.tier_ne (hsorted i) hi htime hne)]
  -- a bucket loses at most the slot that is over
  have hsub : ∀ b x, x ∈ A' b → x ∈ A b := by
    intro b x hx
    rcases hcase with ⟨rest, hAi, hA'⟩ | ⟨-, -, hA'⟩
    · rw [hA'] at hx
      split_ifs at hx with hb
      · rw [hb, hAi]
        exact List.mem_cons_of_mem _ hx
      · exact hx
    · rwa [hA'] at hx
  have hfiled : ∀ (b : Nat) (k : Int), (b = i → k ≠ tier) → TimingWheel.filed k (A' b) =
      TimingWheel.filed k (A b) := by
    intro b k hne
    rcases hcase with ⟨rest, hAi, hA'⟩ | ⟨-, -, hA'⟩
    · rw [hA']
      split_ifs with hb
      · rw [hb, hAi, TimingWheel.filed, if_neg (Ne.symm (hne hb))]
      · rfl
    · rw [hA']
  have hgone : ∀ x ∈ A' i, x.1 ≠ tier := by
    intro x hx
    rcases hcase with ⟨rest, hAi, hA'⟩ | ⟨-, hne, hA'⟩
    · rw [hA', if_pos rfl] at hx
      have hs := hsorted i
      rw [hAi] at hs
      have := (List.pairwise_cons.mp hs).1 x hx
      exact ne_of_gt this
    · rw [hA'] at hx
      exact h.tier_ne (hsorted i) hi htime hne x hx
  refine ⟨fun b k hb hk => ?_, fun b hb x hx => ?_, fun b k hb => ?_, fun b x hx t ht => ?_,
    fun k t ht => ?_⟩
  · rw [hfiled b k (by rintro rfl; omega)]
    exact h.filed b k hb (by omega)
  · have hfut := h.future b hb x (hsub b x hx)
    by_cases hbi : b = i
    · subst hbi
      have := hgone x hx
      omega
    · omega
  · rw [firedAt_fire]
    by_cases hm : time = now + 32 * k + b
    · have hnone := h.fired b k hb
      rw [if_neg (by omega)] at hnone
      rw [hnone, if_pos hm, if_pos (by omega), List.nil_append, hout, hm]
      rfl
    · rw [if_neg hm, List.append_nil, h.fired b k hb]
      by_cases hlt : now + 32 * k + b < time
      · rw [if_pos hlt, if_pos (by omega)]
        rfl
      · rw [if_neg hlt, if_neg (by omega)]
  · exact h.calls b x (hsub b x hx) t ht
  · rw [firedAt_fire, if_neg (by omega), List.append_nil] at ht
    exact h.early k t ht

/-- The tick of bucket `31`: it looks for the next tier. -/
theorem Schedule.tick_last {now time tier : Int} {log : Log α}
    {A A' : Nat → List (Int × List (α × Nat))} (h : Schedule now time log A)
    (htime : time = now + 32 * tier + 31) {out : List (α × Nat)}
    (hcase : (∃ rest, A 31 = (tier + 1, out) :: rest ∧ ∀ b, A' b = if b = 31 then rest else A b) ∨
      (out = [] ∧ ∀ b, A' b = A b)) :
    Schedule now (time + 1) { log with fired := log.fired ++ out.map fun x => (x, time) } A' := by
  have hsame : ∀ b, b < 31 → A' b = A b := by
    intro b hb
    rcases hcase with ⟨rest, -, hA'⟩ | ⟨-, hA'⟩
    · rw [hA', if_neg (by omega)]
    · exact hA' b
  have hsub : ∀ b x, x ∈ A' b → x ∈ A b := by
    intro b x hx
    rcases hcase with ⟨rest, hA, hA'⟩ | ⟨-, hA'⟩
    · rw [hA'] at hx
      split_ifs at hx with hb
      · rw [hb, hA]
        exact List.mem_cons_of_mem _ hx
      · exact hx
    · rwa [hA'] at hx
  refine ⟨fun b k hb hk => ?_, fun b hb x hx => ?_, fun b k hb => ?_, fun b x hx t ht => ?_,
    fun k t ht => ?_⟩
  · rw [hsame b hb]
    exact h.filed b k hb (by omega)
  · have hfut := h.future b hb x (hsub b x hx)
    omega
  · rw [firedAt_fire, if_neg (by omega), List.append_nil, h.fired b k hb]
    by_cases hlt : now + 32 * k + b < time
    · rw [if_pos hlt, if_pos (by omega)]
      rfl
    · rw [if_neg hlt, if_neg (by omega)]
  · exact h.calls b x (hsub b x hx) t ht
  · rw [firedAt_fire, List.mem_append] at ht
    rcases ht with ht | ht
    · exact h.early k t ht
    · split_ifs at ht with hk
      · obtain rfl : k = tier := by omega
        rcases hcase with ⟨rest, hA, -⟩ | ⟨hnil, -⟩
        · exact h.calls 31 (k + 1, out) (by rw [hA]; exact List.mem_cons_self) t ht
        · rw [hnil] at ht
          simp at ht
      · simp at ht

/-! ## Runs -/

/-- What holds of every state of a wheel started at `now`. -/
def Inv (now : Int) (s : Wheel (α × Nat) × Log α) : Prop :=
  ∃ L, BucketLists s.1 L ∧ s.1.current.Clock now ∧ s.1.current.index = s.1.i ∧
    Schedule now s.1.current.timestamp s.2 fun b => tiers (L b)

theorem inv_init (now : Int) : Inv now ((init now, {}) : Wheel (α × Nat) × Log α) := by
  refine ⟨fun _ => [], init_lists now, ⟨le_refl _, (by decide : (0 : Int) < 32), by simp [init]⟩, rfl, ?_⟩
  refine ⟨fun b k _ _ => rfl, fun b _ x hx => absurd hx (by simp [tiers]), fun b k _ => ?_,
    fun b x hx => absurd hx (by simp [tiers]), fun k t ht => absurd ht (by simp [Log.firedAt])⟩
  split_ifs <;> rfl

theorem inv_step {now : Int} {s s' : Wheel (α × Nat) × Log α} {op : Op α} (h : Inv now s)
    (hs : step s op = some s') : Inv now s' := by
  obtain ⟨L, hL, hclock, hi, hsch⟩ := h
  obtain ⟨w, log⟩ := s
  simp only at hL hclock hi hsch
  cases op with
  | addOnce task timestamp =>
    obtain ⟨w', hadd, rfl⟩ := Option.map_eq_some_iff.mp hs
    obtain ⟨h0, h1, htime⟩ := slot_time hclock timestamp
    set slot := w.current.slot timestamp with hslot
    obtain ⟨k, hk⟩ : ∃ k : Nat, slot.2 = k := ⟨slot.2.toNat, by omega⟩
    rw [hk] at h1 htime
    have hcases := addOnce_cases hL (task, log.added.length)
      (show w.current.slot timestamp = (slot.1, (k : Int)) by rw [← hk]) (by omega)
    rcases hcases with ⟨-, hnone⟩ | ⟨-, w₁, l, hsome, hadds⟩
    · cases hnone.symm.trans hadd
    · obtain rfl : w' = w₁ := Option.some.inj (hadd.symm.trans hsome)
      obtain ⟨hL', htiers, hcur, hi'⟩ := hadds.lists hL
      refine ⟨_, hL', by rw [hcur]; exact hclock, by rw [hcur, hi']; exact hi, ?_⟩
      rw [hcur]
      refine hsch.add hL.sorted task (b := k) (by omega) htime
        (le_effective w.current timestamp) fun b => ?_
      rw [tiers_update, htiers]
      split_ifs with hb
      · rw [hb]
      · rfl
  | tick =>
    obtain ⟨⟨w', out⟩, htick, rfl⟩ := Option.map_eq_some_iff.mp hs
    have hilt : w.i < 32 := by
      have := hclock.index_lt
      omega
    obtain ⟨w₁, out₁, L', htick', hticks⟩ := tick_cases hL hilt
    obtain ⟨hL', hcur, hi', hcase⟩ := hticks.lists hL hilt
    rw [htick', Option.some.injEq, Prod.mk.injEq] at htick
    obtain ⟨rfl, rfl⟩ := htick
    have htime := hclock.time
    refine ⟨L', hL', by rw [hcur]; exact hclock.incr, ?_, ?_⟩
    · rw [hcur, hi', incr_index, hi]
      split_ifs with h1 h2 <;> omega
    · rw [hcur, incr_timestamp]
      rw [incr_tier] at hcase
      by_cases hlast : w.current.index = 31
      · -- `Incr` has wrapped: the loop looks for the next tier
        rw [if_pos hlast] at hcase
        have h31 : w.i = 31 := by omega
        rw [h31] at hcase
        exact hsch.tick_last (by omega) (hcase.imp_right fun hc => ⟨hc.1, hc.2.2⟩)
      · rw [if_neg hlast] at hcase
        exact hsch.tick hL.sorted (by omega) (by omega) hcase

theorem inv_reachable {now : Int} {s : Wheel (α × Nat) × Log α} (h : (machine now).Reachable s) :
    Inv now s :=
  h.invariant (Inv now) (fun s hs => by rw [show s = (init now, {}) from hs]; exact inv_init now)
    fun _ _ _ _ ih _ hs => inv_step ih hs

/-! ## The runs of one call -/

variable [DecidableEq α]

/-- How often the task of call `n` was run in the tick that starts at `m`. -/
def Log.runs (log : Log α) (task : α) (n : Nat) (m : Int) : Nat :=
  log.fired.count ((task, n), m)

theorem runs_eq (log : Log α) (task : α) (n : Nat) (m : Int) :
    log.runs task n m = (log.firedAt m).count (task, n) := by
  unfold Log.runs Log.firedAt
  induction log.fired with
  | nil => rfl
  | cons x l ih =>
    obtain ⟨y, m'⟩ := x
    rw [List.count_cons, ih]
    by_cases h : m' = m
    · simp [h, List.count_cons]
    · simp [h]

/-- A call is due at one timestamp, and counts once there. -/
theorem dueAt_count {log : Log α} {task : α} {n : Nat} {due : Int}
    (hcall : log.added[n]? = some (task, due)) (m : Int) :
    (log.dueAt m).count (task, n) = if m = due then 1 else 0 := by
  have hnd : (log.dueAt m).Nodup := by
    unfold Log.dueAt
    refine List.Nodup.of_map Prod.snd ?_
    rw [List.map_map]
    have hidx : (log.added.zipIdx.map Prod.snd).Nodup := by
      rw [List.zipIdx_map_snd]
      exact List.nodup_range'
    exact (List.filter_sublist.map _).nodup hidx
  have hmem : (task, n) ∈ log.dueAt m ↔ m = due := by
    unfold Log.dueAt
    simp only [List.mem_map, List.mem_filter, Prod.mk.injEq, decide_eq_true_eq, Prod.exists]
    constructor
    · rintro ⟨t, d, n', ⟨hz, hd⟩, rfl, rfl⟩
      rw [List.mem_zipIdx_iff_getElem?, hcall] at hz
      simp only [Option.some.injEq, Prod.mk.injEq] at hz
      omega
    · rintro rfl
      exact ⟨task, m, n, ⟨by rw [List.mem_zipIdx_iff_getElem?, hcall], rfl⟩, rfl, rfl⟩
  split_ifs with h
  · exact List.count_eq_one_of_mem hnd (hmem.mpr h)
  · exact List.count_eq_zero_of_not_mem fun hc => h (hmem.mp hc)

/-- A call that is due in bucket `31` is not run at its tick: what is run there was due one
revolution later. -/
theorem runs_last {now time : Int} {log : Log α} {A : Nat → List (Int × List (α × Nat))}
    (h : Schedule now time log A) {task : α} {n : Nat} {due : Int}
    (hcall : log.added[n]? = some (task, due)) {m : Int} (hm : (m - now) % 32 = 31)
    (hdue : due ≠ m + 32) : log.runs task n m = 0 := by
  rw [runs_eq]
  refine List.count_eq_zero_of_not_mem fun hmem => hdue ?_
  have hslot : now + 32 * ((m - now) / 32) + 31 = m := by omega
  rw [← hslot] at hmem
  have hlate := h.early _ _ hmem
  rw [show (task, n).2 = n from rfl, hcall] at hlate
  simp only [Option.some.injEq, Prod.mk.injEq] at hlate
  omega

/-- A call that is due in another bucket is run exactly once, at its tick. -/
theorem runs_on_time {now time : Int} {log : Log α} {A : Nat → List (Int × List (α × Nat))}
    (h : Schedule now time log A) {task : α} {n : Nat} {due : Int}
    (hcall : log.added[n]? = some (task, due)) (hdue : (due - now) % 32 ≠ 31) (m : Int) :
    log.runs task n m = if m = due ∧ due < time then 1 else 0 := by
  by_cases hm : (m - now) % 32 = 31
  · rw [runs_last h hcall hm (by omega), if_neg (by rintro ⟨rfl, -⟩; exact hdue hm)]
  · have hslot : now + 32 * ((m - now) / 32) + (((m - now) % 32).toNat : Int) = m := by omega
    have hfired := h.fired ((m - now) % 32).toNat ((m - now) / 32) (by omega)
    rw [hslot] at hfired
    rw [runs_eq, hfired]
    by_cases hlt : m < time
    · rw [if_pos hlt, dueAt_count hcall]
      by_cases hmd : m = due
      · rw [if_pos hmd, if_pos ⟨hmd, hmd ▸ hlt⟩]
      · rw [if_neg hmd, if_neg fun hc => hmd hc.1]
    · rw [if_neg hlt, if_neg (by rintro ⟨rfl, hlt'⟩; exact hlt hlt')]
      rfl

/-- In every run, a call whose tick is over has run its task exactly once, at that tick, if and only
if it was not filed in bucket `31`; a call outside bucket `31` whose tick is still to come has not
run its task. -/
theorem fires_on_time_iff {now : Int} {w : Wheel (α × Nat)} {log : Log α}
    (hrun : (machine now).Reachable (w, log)) {task : α} {n : Nat} {due : Int}
    (hcall : log.added[n]? = some (task, due)) :
    (due < w.current.timestamp →
      ((∀ m, log.runs task n m = if m = due then 1 else 0) ↔ (due - now) % 32 ≠ 31)) ∧
    (w.current.timestamp ≤ due → (due - now) % 32 ≠ 31 → ∀ m, log.runs task n m = 0) := by
  obtain ⟨L, -, -, -, hsch⟩ := inv_reachable hrun
  refine ⟨fun hover => ⟨fun hexact hlast => ?_, fun hdue m => ?_⟩, fun hpending hdue m => ?_⟩
  · have hone := hexact due
    rw [if_pos rfl, runs_last hsch hcall hlast (by omega)] at hone
    omega
  · rw [runs_on_time hsch hcall hdue m]
    by_cases hm : m = due
    · rw [if_pos ⟨hm, hover⟩, if_pos hm]
    · rw [if_neg fun hc => hm hc.1, if_neg hm]
  · rw [runs_on_time hsch hcall hdue m, if_neg]
    rintro ⟨-, hlt⟩
    simp only at hlt
    omega

/-- A task for second `131` of a wheel started at second `100`: the clock has passed `131` and the
task has not been run at all. -/
theorem bucket_31_lost :
    ∃ w log, (machine 100).Reachable (w, log) ∧ log.added[0]? = some ("backup", 131) ∧
      131 < w.current.timestamp ∧ ∀ m, log.runs "backup" 0 m = 0 := by
  have hrun : ((machine 100).run ((init 100, {}) : Wheel (String × Nat) × Log String)
      (.addOnce "backup" 131 :: List.replicate 32 .tick)).map
        (fun s => (s.2, s.1.current.timestamp)) = some ({ added := [("backup", 131)] }, 132) := by
    decide +kernel
  obtain ⟨⟨w, log⟩, hreach, hobs⟩ := Machine.observed_of_run hrun rfl
  obtain ⟨rfl, htime⟩ := Prod.mk.inj hobs
  simp only at htime
  exact ⟨w, _, hreach, rfl, by omega, fun _ => rfl⟩

/-- A task for second `105` of a wheel started at second `100`, after six ticks. -/
theorem fires_on_time_105 :
    ∃ w log, (machine 100).Reachable (w, log) ∧ log.added[0]? = some ("backup", 105) ∧
      ∀ m, log.runs "backup" 0 m = if m = 105 then 1 else 0 := by
  have hrun : ((machine 100).run ((init 100, {}) : Wheel (String × Nat) × Log String)
      (.addOnce "backup" 105 :: List.replicate 6 .tick)).map
        (fun s => (s.2.added, s.1.current.timestamp)) = some ([("backup", 105)], 106) := by
    decide
  obtain ⟨⟨w, log⟩, hreach, hobs⟩ := Machine.observed_of_run hrun rfl
  obtain ⟨hadded, htime⟩ := Prod.mk.inj hobs
  simp only at hadded htime
  have hcall : log.added[0]? = some ("backup", 105) := by
    rw [hadded]
    rfl
  exact ⟨w, log, hreach, hcall,
    ((fires_on_time_iff hreach hcall).1 (by omega)).mpr (by decide)⟩

end OwnX.TimingWheel
