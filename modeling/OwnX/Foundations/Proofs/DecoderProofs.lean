import OwnX.Foundations.Decoder

/-!
# Proofs: draining an incremental decoder

Draining stops, does not depend on the fuel, and may be cut anywhere.
-/

namespace OwnX.Decoder

variable {σ β : Type} {D : Decoder σ β} {P : σ → Prop}

/-- Draining stops within as many calls as the buffer has symbols, plus one, and what it leaves is
a half-read item. -/
theorem drain_total (hD : D.Incremental P) :
    ∀ (fuel : Nat) (m : σ) (buf : List β), P m → buf.length < fuel →
      ∃ out m' rest, D.drain fuel m buf = some (out, m', rest) ∧ P m' := by
  intro fuel
  induction fuel with
  | zero => intro m buf _ hlen; omega
  | succ fuel ih =>
    intro m buf hm hlen
    rcases hd : D.decode m buf with ⟨_ | _, m', rest⟩
    · exact ⟨[], m', rest, by simp [drain, hd], hD.pending hm hd⟩
    · have hlt := hD.progress hm hd
      obtain ⟨out, m₂, rest₂, h, hp⟩ := ih D.fresh rest hD.fresh (by omega)
      exact ⟨m' :: out, m₂, rest₂, by simp [drain, hd, h], hp⟩

/-- Draining adds nothing to the buffer. -/
theorem drain_length_le (hD : D.Incremental P) {fuel : Nat} :
    ∀ {m : σ} {buf : List β} {out : List σ} {m' : σ} {rest : List β}, P m →
      D.drain fuel m buf = some (out, m', rest) → rest.length ≤ buf.length := by
  induction fuel with
  | zero => intro m buf out m' rest _ h; simp [drain] at h
  | succ fuel ih =>
    intro m buf out m' rest hm h
    rcases hd : D.decode m buf with ⟨_ | _, m₁, rest₁⟩
    · simp only [drain, hd, Option.some.injEq, Prod.mk.injEq] at h
      obtain ⟨-, -, rfl⟩ := h
      exact hD.keep hm hd
    · simp only [drain, hd, Option.map_eq_some_iff] at h
      obtain ⟨⟨out₂, m₂, rest₂⟩, h₂, heq⟩ := h
      simp only [Prod.mk.injEq] at heq
      obtain ⟨-, -, rfl⟩ := heq
      have h₁ := hD.progress hm hd
      have h₃ := ih hD.fresh h₂
      omega

/-- More fuel than needed changes nothing. -/
theorem drain_mono {fuel fuel' : Nat} (hle : fuel ≤ fuel') {m : σ} {buf : List β}
    {r : List σ × σ × List β} (h : D.drain fuel m buf = some r) : D.drain fuel' m buf = some r := by
  induction fuel generalizing fuel' m buf r with
  | zero => simp [drain] at h
  | succ fuel ih =>
    obtain ⟨k, rfl⟩ : ∃ k, fuel' = k + 1 := ⟨fuel' - 1, by omega⟩
    rcases hd : D.decode m buf with ⟨_ | _, m', rest⟩
    · simpa [drain, hd] using h
    · simp only [drain, hd, Option.map_eq_some_iff] at h ⊢
      obtain ⟨r', hr', rfl⟩ := h
      exact ⟨r', ih (by omega) hr', rfl⟩

/-- Draining a buffer, then appending input and draining again, is draining the whole at once. -/
theorem drain_append (hD : D.Incremental P) {fuel : Nat} :
    ∀ {m : σ} {buf : List β} {out : List σ} {m' : σ} {rest : List β}, P m →
      D.drain fuel m buf = some (out, m', rest) → ∀ (more : List β) {fuel' : Nat}
        {out' : List σ} {r : σ × List β}, D.drain fuel' m' (rest ++ more) = some (out', r) →
      D.drain (fuel + fuel') m (buf ++ more) = some (out ++ out', r) := by
  induction fuel with
  | zero => intro m buf out m' rest _ h; simp [drain] at h
  | succ fuel ih =>
    intro m buf out m' rest hm h more fuel' out' r h'
    rcases hd : D.decode m buf with ⟨_ | _, m₁, rest₁⟩
    · -- the first call already asks for more input: both runs make the same next call
      simp only [drain, hd, Option.some.injEq, Prod.mk.injEq] at h
      obtain ⟨rfl, rfl, rfl⟩ := h
      obtain ⟨k, rfl⟩ : ∃ k, fuel' = k + 1 := by
        cases fuel' with
        | zero => simp [drain] at h'
        | succ k => exact ⟨k, rfl⟩
      have hstep : D.drain (k + 1) m (buf ++ more) = some (out', r) := by
        rw [← h']
        simp only [drain, hD.resume hm hd more]
      simpa using drain_mono (by omega) hstep
    · -- an item is completed: the same item is completed in the longer buffer
      simp only [drain, hd, Option.map_eq_some_iff] at h
      obtain ⟨⟨out₂, m₂, rest₂⟩, h₂, heq⟩ := h
      simp only [Prod.mk.injEq] at heq
      obtain ⟨rfl, rfl, rfl⟩ := heq
      have htail := ih hD.fresh h₂ more h'
      rw [show fuel + 1 + fuel' = (fuel + fuel') + 1 by omega]
      simp [drain, hD.extend hm hd more, htail]

/-- After draining, another call has nothing to do. -/
theorem drain_idle (hD : D.Incremental P) {fuel : Nat} :
    ∀ {m : σ} {buf : List β} {out : List σ} {m' : σ} {rest : List β}, P m →
      D.drain fuel m buf = some (out, m', rest) → D.decode m' rest = (false, m', rest) := by
  induction fuel with
  | zero => intro m buf out m' rest _ h; simp [drain] at h
  | succ fuel ih =>
    intro m buf out m' rest hm h
    rcases hd : D.decode m buf with ⟨_ | _, m₁, rest₁⟩
    · simp only [drain, hd, Option.some.injEq, Prod.mk.injEq] at h
      obtain ⟨-, rfl, rfl⟩ := h
      have := hD.resume hm hd []
      rw [List.append_nil, List.append_nil, hd] at this
      exact this.symm
    · simp only [drain, hd, Option.map_eq_some_iff] at h
      obtain ⟨⟨out₂, m₂, rest₂⟩, h₂, heq⟩ := h
      simp only [Prod.mk.injEq] at heq
      obtain ⟨-, rfl, rfl⟩ := heq
      exact ih hD.fresh h₂

/-- Draining a buffer that holds whole items gives these items: it is enough that one call reads
one item off the front. -/
theorem drain_items {α : Type} (hD : D.Incremental P) (enc : α → List β) (item : α → σ)
    (xs : List α) (hone : ∀ x ∈ xs, ∀ more, D.decode D.fresh (enc x ++ more) = (true, item x, more)) :
    D.drain (xs.length + 1) D.fresh (xs.flatMap enc) = some (xs.map item, D.fresh, []) := by
  induction xs with
  | nil => simp [drain, hD.nil]
  | cons x xs ih =>
    have htail := ih fun y hy => hone y (List.mem_cons_of_mem _ hy)
    rw [List.flatMap_cons, List.length_cons, drain, hone x List.mem_cons_self]
    simp [htail]

/-! ## A buffer that is written and read in turn -/

/-- Draining gives the same whatever the fuel, if it is enough. -/
theorem drain_unique {fuel fuel' : Nat} {m : σ} {buf : List β} {r r' : List σ × σ × List β}
    (h : D.drain fuel m buf = some r) (h' : D.drain fuel' m buf = some r') : r = r' :=
  Option.some.inj
    ((drain_mono (Nat.le_max_left fuel fuel') h).symm.trans (drain_mono (Nat.le_max_right fuel fuel') h'))

/-- One item is in the buffer, and nothing else. -/
theorem yields_item (hD : D.Incremental P) {e : List β} {x : σ}
    (hone : ∀ more, D.decode D.fresh (e ++ more) = (true, x, more)) : D.Yields D.fresh e [x] true := by
  have h := hone []
  rw [List.append_nil] at h
  exact ⟨2, (D.fresh, []), by simp [drain, h, hD.nil], fun _ => rfl⟩

/-- A part of an item is in the buffer: no item is completed. -/
theorem yields_part (hD : D.Incremental P) {e : List β} {x : σ} {n : Nat}
    (hone : ∀ more, D.decode D.fresh (e ++ more) = (true, x, more)) (hn : n < e.length) :
    D.Yields D.fresh (e.take n) [] false := by
  rcases hd : D.decode D.fresh (e.take n) with ⟨_ | _, m', rest⟩
  · exact ⟨1, (m', rest), by simp [drain, hd], fun h => nomatch h⟩
  · -- an item completed here would be completed before the end of `e`
    have hext := hD.extend hD.fresh hd (e.drop n)
    have hall := hone []
    rw [List.append_nil] at hall
    rw [List.take_append_drop, hall, Prod.mk.injEq, Prod.mk.injEq] at hext
    have hlen := congrArg List.length hext.2.2
    rw [List.length_append, List.length_drop, List.length_nil] at hlen
    omega

/-- What is appended to a buffer of whole items is read after them. -/
theorem Yields.append (hD : D.Incremental P) {m : σ} {buf more : List β} {xs ys : List σ} {whole : Bool}
    (hm : P m) (h : D.Yields m buf xs true) (h' : D.Yields D.fresh more ys whole) :
    D.Yields m (buf ++ more) (xs ++ ys) whole := by
  obtain ⟨fuel, r, hd, hr⟩ := h
  obtain rfl := hr rfl
  obtain ⟨fuel', r', hd', hr'⟩ := h'
  exact ⟨fuel + fuel', r', drain_append hD hm hd more (by simpa using hd'), hr'⟩

/-- The front of a buffer is drained: what is left gives the other items. -/
theorem Yields.drain (hD : D.Incremental P) {m m' : σ} {buf more rest : List β} {xs out : List σ}
    {whole : Bool} {fuel : Nat} (hm : P m) (h : D.Yields m (buf ++ more) xs whole)
    (hd : D.drain fuel m buf = some (out, m', rest)) (hm' : P m') :
    ∃ ys, xs = out ++ ys ∧ D.Yields m' (rest ++ more) ys whole := by
  obtain ⟨fuel', r, hall, hr⟩ := h
  obtain ⟨ys, m₂, rest₂, hd₂, -⟩ :=
    drain_total hD ((rest ++ more).length + 1) m' (rest ++ more) hm' (Nat.lt_succ_self _)
  have heq := drain_unique hall (drain_append hD hm hd more hd₂)
  rw [Prod.mk.injEq] at heq
  exact ⟨ys, heq.1, _, _, hd₂, fun hw => heq.2 ▸ hr hw⟩

/-- A drained buffer gives no item. -/
theorem Yields.of_idle {m : σ} {buf : List β} {xs : List σ} {whole : Bool} (h : D.Yields m buf xs whole)
    (hidle : D.decode m buf = (false, m, buf)) : xs = [] ∧ (whole = true → m = D.fresh ∧ buf = []) := by
  obtain ⟨fuel, r, hd, hr⟩ := h
  have hone : D.drain 1 m buf = some ([], m, buf) := by simp [Decoder.drain, hidle]
  have heq := drain_unique hd hone
  rw [Prod.mk.injEq] at heq
  refine ⟨heq.1, fun hw => ?_⟩
  have hfresh := heq.2.symm.trans (hr hw)
  rw [Prod.mk.injEq] at hfresh
  exact hfresh

end OwnX.Decoder
