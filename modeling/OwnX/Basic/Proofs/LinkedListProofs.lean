import OwnX.Basic.LinkedList
import OwnX.Foundations.Proofs.DoublyLinkedProofs
import OwnX.Foundations.Proofs.RefinementProofs
import Mathlib.Data.List.Nodup
import Mathlib.Data.List.Perm.Subperm

/-!
# The linked list refines a sequence

An operation cuts the list in two halves, changes the links at the cut, and joins the halves again,
with a node more or less between them. `setNext` changes the link of the left half, `setPrev` that of
the right half; each of the two halves is kept by what happens at the other.
-/

namespace OwnX.Basic.LinkedList

variable {V : Type} {this this' : LinkedList V} {l l₁ l₂ : List (Nat × Option V)} {p q : Option Nat}

/-- The nodes of `l`, linked in both directions between `p` and `q`. -/
abbrev Part (this : LinkedList V) (p : Option Nat) (l : List (Nat × Option V)) (q : Option Nat) : Prop :=
  Seg Node.prev Node.next Node.data this.heap p l q

/-- The list consists of the nodes of `l`. -/
structure Shape (this : LinkedList V) (l : List (Nat × Option V)) : Prop where
  part : this.Part none l none
  first : this.first = headAddr l none
  last : this.last = lastAddr none l
  nodup : (addrs l).Nodup
  bound : ∀ a ∈ addrs l, a < this.fresh
  size : this.size = l.length

/-- The list is cut: `l₁` starts at `first` and links on to `q`, `l₂` links back to `p` and ends at
`last`. -/
structure Halves (this : LinkedList V) (l₁ : List (Nat × Option V)) (q p : Option Nat)
    (l₂ : List (Nat × Option V)) : Prop where
  left : this.Part none l₁ q
  right : this.Part p l₂ none
  first : this.first = headAddr l₁ q
  last : this.last = lastAddr p l₂
  nodup : (addrs (l₁ ++ l₂)).Nodup
  bound : ∀ a ∈ addrs (l₁ ++ l₂), a < this.fresh

/-- Only nodes of `as` are written. -/
structure Writes (as : List Nat) (this this' : LinkedList V) : Prop where
  heap : ∀ a ∉ as, this'.heap a = this.heap a
  size : this'.size = this.size
  fresh : this'.fresh = this.fresh

/-! ## Cutting and joining -/

theorem Shape.halves (h : this.Shape (l₁ ++ l₂)) :
    this.Halves l₁ (headAddr l₂ none) (lastAddr none l₁) l₂ := by
  obtain ⟨hleft, hright⟩ := seg_append.1 h.part
  exact ⟨hleft, hright, h.first.trans (headAddr_append _ _ _), h.last.trans (lastAddr_append _ _ _),
    h.nodup, h.bound⟩

theorem Halves.shape (h : this.Halves l₁ (headAddr l₂ none) (lastAddr none l₁) l₂)
    (hsize : this.size = (l₁ ++ l₂).length) : this.Shape (l₁ ++ l₂) :=
  ⟨seg_append.2 ⟨h.left, h.right⟩, h.first.trans (headAddr_append _ _ _).symm,
    h.last.trans (lastAddr_append _ _ _).symm, h.nodup, h.bound, hsize⟩

/-- Without the node `x` the halves on its two sides are left, with links to it. -/
theorem Shape.cut {x : Nat × Option V} (h : this.Shape (l₁ ++ x :: l₂)) :
    this.Halves l₁ (some x.1) (some x.1) l₂ ∧
      this.heap x.1 = some ⟨x.2, lastAddr none l₁, headAddr l₂ none⟩ ∧ x.1 ∉ addrs (l₁ ++ l₂) := by
  obtain ⟨hleft, -, hright⟩ := seg_append.1 h.part
  obtain ⟨⟨d, p, n⟩, hc, hd, hp, hn⟩ := h.part.cell
  obtain ⟨hx, hnodup⟩ : x.1 ∉ addrs (l₁ ++ l₂) ∧ (addrs (l₁ ++ l₂)).Nodup := by
    have hnodup := h.nodup
    rw [addrs_append, addrs_cons, List.nodup_middle, List.nodup_cons, ← addrs_append] at hnodup
    exact hnodup
  refine ⟨⟨hleft, hright, h.first.trans (headAddr_append _ _ _),
    h.last.trans (lastAddr_append _ _ _), hnodup, fun a ha => h.bound a ?_⟩, ?_, hx⟩
  · simp only [addrs_append, addrs_cons, List.mem_append, List.mem_cons] at ha ⊢
    tauto
  · rw [hc, ← hd, ← hp, ← hn]

/-- A node whose links fit joins two halves that link to it. -/
theorem Halves.join {a : Nat} {v : Option V} (h : this.Halves l₁ (some a) (some a) l₂)
    (hcell : this.heap a = some ⟨v, lastAddr none l₁, headAddr l₂ none⟩)
    (ha : a ∉ addrs (l₁ ++ l₂)) (hlt : a < this.fresh)
    (hsize : this.size = (l₁ ++ (a, v) :: l₂).length) : this.Shape (l₁ ++ (a, v) :: l₂) := by
  refine ⟨seg_append.2 ⟨h.left, ⟨_, hcell, rfl, rfl, rfl⟩, h.right⟩, ?_, ?_, ?_, fun b hb => ?_,
    hsize⟩
  · rw [headAddr_append]
    exact h.first
  · rw [lastAddr_append]
    exact h.last
  · rw [addrs_append, addrs_cons, List.nodup_middle, List.nodup_cons, ← addrs_append]
    exact ⟨ha, h.nodup⟩
  · simp only [addrs_append, addrs_cons, List.mem_append, List.mem_cons] at hb
    rcases hb with hb | rfl | hb
    · exact h.bound b (by simp [hb])
    · exact hlt
    · exact h.bound b (by simp [hb])

/-! ## Writing nodes -/

theorem update_eq {a : Nat} {c : Node V} (hc : this.heap a = some c) (f : Node V → Node V) :
    this.update a f =
      some { this with heap := Function.update this.heap a (some (f c)) } := by
  simp [update, hc]

theorem Writes.of_update (this : LinkedList V) {a : Nat} {c : Node V} {as : List Nat} (ha : a ∈ as) :
    Writes as this { this with heap := Function.update this.heap a (some c) } := by
  refine ⟨fun b hb => Function.update_of_ne ?_ _ _, rfl, rfl⟩
  rintro rfl
  exact hb ha

/-- The left half after a change of what it links on to. -/
theorem Halves.setNext (h : this.Halves l₁ q p l₂) (q' : Option Nat) :
    ∃ this', this.setNext (lastAddr none l₁) q' = some this' ∧ this'.Halves l₁ q' p l₂ ∧
      Writes (addrs l₁) this this' := by
  rcases List.eq_nil_or_concat' l₁ with rfl | ⟨l, x, rfl⟩
  · exact ⟨_, rfl, ⟨trivial, h.right, rfl, h.last, h.nodup, h.bound⟩, ⟨fun _ _ => rfl, rfl, rfl⟩⟩
  · obtain ⟨c, hc, -, -, -⟩ := h.left.cell
    have hwrites : Writes (addrs (l ++ [x])) this
        { this with heap := Function.update this.heap x.1 (some { c with next := q' }) } :=
      .of_update this (by simp)
    have hdisj := List.nodup_append.1 (addrs_append (l ++ [x]) l₂ ▸ h.nodup)
    have heq := update_eq hc fun n => { n with next := q' }
    rw [lastAddr_concat]
    refine ⟨_, heq, ⟨?_, ?_, ?_, h.last, h.nodup, h.bound⟩, hwrites⟩
    · refine h.left.relink_next hdisj.1 hc (Function.update_self _ _ _) rfl rfl rfl fun a _ hne => ?_
      exact Function.update_of_ne hne _ _
    · refine h.right.frame fun a ha => hwrites.heap a fun hmem => ?_
      exact hdisj.2.2 a hmem a ha rfl
    · refine h.first.trans ?_
      cases l <;> rfl

/-- The right half after a change of what it links back to. -/
theorem Halves.setPrev (h : this.Halves l₁ q p l₂) (p' : Option Nat) :
    ∃ this', this.setPrev (headAddr l₂ none) p' = some this' ∧ this'.Halves l₁ q p' l₂ ∧
      Writes (addrs l₂) this this' := by
  cases l₂ with
  | nil =>
    exact ⟨_, rfl, ⟨h.left, trivial, h.first, rfl, h.nodup, h.bound⟩, ⟨fun _ _ => rfl, rfl, rfl⟩⟩
  | cons x l =>
    obtain ⟨⟨c, hc, -⟩, -⟩ := h.right
    have hwrites : Writes (addrs (x :: l)) this
        { this with heap := Function.update this.heap x.1 (some { c with prev := p' }) } :=
      .of_update this (by simp)
    have hdisj := List.nodup_append.1 (addrs_append l₁ (x :: l) ▸ h.nodup)
    refine ⟨_, update_eq hc _, ⟨?_, ?_, h.first, h.last, h.nodup, h.bound⟩, hwrites⟩
    · refine h.left.frame fun a ha => hwrites.heap a fun hmem => ?_
      exact hdisj.2.2 a ha a hmem rfl
    · refine h.right.relink_prev hdisj.2.1 hc (Function.update_self _ _ _) rfl rfl rfl fun a _ hne => ?_
      exact Function.update_of_ne hne _ _

/-- A node outside the halves may be written. -/
theorem Halves.update {a : Nat} {c : Node V} (h : this.Halves l₁ q p l₂) (ha : a ∉ addrs (l₁ ++ l₂))
    (hc : this.heap a = some c) (f : Node V → Node V) :
    ∃ this', this.update a f = some this' ∧ this'.Halves l₁ q p l₂ ∧ Writes [a] this this' := by
  have hwrites : Writes [a] this { this with heap := Function.update this.heap a (some (f c)) } :=
    .of_update this (by simp)
  have hne : ∀ b ∈ addrs (l₁ ++ l₂), b ∉ [a] := by
    rintro b hb hmem
    rw [List.mem_singleton] at hmem
    exact ha (hmem ▸ hb)
  refine ⟨_, update_eq hc f, ⟨?_, ?_, h.first, h.last, h.nodup, h.bound⟩, hwrites⟩
  · exact h.left.frame fun b hb => hwrites.heap b (hne b (by simp [hb]))
  · exact h.right.frame fun b hb => hwrites.heap b (hne b (by simp [hb]))

theorem size_alloc (this : LinkedList V) (n : Node V) : (this.alloc n).size = this.size := rfl

/-- A new node is outside the halves. -/
theorem Halves.alloc (h : this.Halves l₁ q p l₂) (n : Node V) :
    (this.alloc n).Halves l₁ q p l₂ ∧ this.fresh ∉ addrs (l₁ ++ l₂) := by
  have hsame : ∀ a ∈ addrs (l₁ ++ l₂), (this.alloc n).heap a = this.heap a := fun a ha =>
    Function.update_of_ne (Nat.ne_of_lt (h.bound a ha)) _ _
  refine ⟨⟨h.left.frame fun a ha => hsame a (by simp [ha]), h.right.frame fun a ha => hsame a (by simp [ha]),
    h.first, h.last, h.nodup, fun a ha => Nat.lt_succ_of_lt (h.bound a ha)⟩, fun hmem => ?_⟩
  exact Nat.lt_irrefl _ (h.bound _ hmem)

theorem Halves.withSize (h : this.Halves l₁ q p l₂) (n : Int) :
    { this with size := n }.Halves l₁ q p l₂ :=
  ⟨h.left, h.right, h.first, h.last, h.nodup, h.bound⟩

/-! ## Adding -/

/-- A new node with fitting links, once both halves link to it, is part of the list. -/
theorem Shape.insert (h : this.Shape (l₁ ++ l₂)) (v : Option V) :
    ∃ this₁ this₂,
      (this.alloc ⟨v, lastAddr none l₁, headAddr l₂ none⟩).setPrev (headAddr l₂ none)
        (some this.fresh) = some this₁ ∧
      this₁.setNext (lastAddr none l₁) (some this.fresh) = some this₂ ∧
      { this₂ with size := this₂.size + 1 }.Shape (l₁ ++ (this.fresh, v) :: l₂) := by
  obtain ⟨halloc, hnew⟩ := h.halves.alloc ⟨v, lastAddr none l₁, headAddr l₂ none⟩
  obtain ⟨this₁, heq₁, h₁, hw₁⟩ := halloc.setPrev (some this.fresh)
  obtain ⟨this₂, heq₂, h₂, hw₂⟩ := h₁.setNext (some this.fresh)
  refine ⟨this₁, this₂, heq₁, heq₂, (h₂.withSize _).join ?_ hnew ?_ ?_⟩
  · rw [addrs_append, List.mem_append, not_or] at hnew
    change this₂.heap this.fresh = _
    rw [hw₂.heap _ hnew.1, hw₁.heap _ hnew.2]
    exact Function.update_self _ _ _
  · change this.fresh < this₂.fresh
    rw [hw₂.fresh, hw₁.fresh]
    exact Nat.lt_succ_self _
  · change this₂.size + 1 = _
    rw [hw₂.size, hw₁.size, size_alloc, h.size]
    simp only [List.length_append, List.length_cons]
    omega

theorem Shape.addLast (h : this.Shape l) (v : Option V) :
    ∃ this', this.addLast v = some this' ∧ this'.Shape (l ++ [(this.fresh, v)]) := by
  have hend : this.Shape (l ++ []) := by simpa using h
  obtain ⟨this₁, this₂, heq₁, heq₂, hshape⟩ := hend.insert v
  obtain rfl := Option.some.inj heq₁
  refine ⟨_, ?_, hshape⟩
  simp only [headAddr_nil] at heq₂
  simp only [LinkedList.addLast, h.last, heq₂, Option.bind_eq_bind, Option.bind_some, Option.pure_def]

/-- `AddFirst` changes `first` before it changes the other half. -/
theorem setPrev_withFirst (this : LinkedList V) (q p x : Option Nat) :
    { this with first := x }.setPrev q p = (this.setPrev q p).map fun t => { t with first := x } := by
  cases q with
  | none => rfl
  | some a =>
    simp only [LinkedList.setPrev, LinkedList.update, Option.map_map]
    rfl

theorem Shape.addFirst (h : this.Shape l) (v : Option V) :
    ∃ this', this.addFirst v = some this' ∧ this'.Shape ((this.fresh, v) :: l) := by
  have hstart : this.Shape ([] ++ l) := h
  obtain ⟨this₁, this₂, heq₁, heq₂, hshape⟩ := hstart.insert v
  obtain rfl := Option.some.inj heq₂
  refine ⟨_, ?_, hshape⟩
  simp only [lastAddr_nil] at heq₁
  simp only [LinkedList.addFirst, h.first, setPrev_withFirst, heq₁, Option.bind_eq_bind,
    Option.map_some, Option.bind_some, Option.pure_def]

/-! ## Finding a node -/

/-- From the start of a segment, `next` leads past as many nodes as it is followed. -/
theorem follow_next (h : this.Part p (l₁ ++ l₂) q) :
    this.follow Node.next l₁.length (headAddr (l₁ ++ l₂) q) = some (headAddr l₂ q) := by
  induction l₁ generalizing p with
  | nil => rfl
  | cons x l₁ ih =>
    obtain ⟨⟨c, hc, -, -, hnext⟩, hl⟩ := h
    have hderef : this.deref (some x.1) = some c := hc
    rw [List.cons_append, List.length_cons, follow, headAddr_cons, hderef, Option.bind_some, hnext]
    exact ih hl

/-- From the end of a segment, `prev` leads back past as many nodes as it is followed. -/
theorem follow_prev (h : this.Part p (l₁ ++ l₂) q) :
    this.follow Node.prev l₂.length (lastAddr p (l₁ ++ l₂)) = some (lastAddr p l₁) := by
  induction l₂ using List.reverseRecOn generalizing q with
  | nil => simp [follow]
  | append_singleton l₂ x ih =>
    rw [← List.append_assoc] at h ⊢
    obtain ⟨c, hc, -, hprev, -⟩ := h.cell
    have hderef : this.deref (some x.1) = some c := hc
    rw [List.length_append, List.length_singleton, lastAddr_concat, follow, hderef, Option.bind_some,
      hprev]
    exact ih (seg_append.1 h).1

/-- `getNode` finds the node at an index, whichever end it starts from. -/
theorem Shape.getNode {x : Nat × Option V} (h : this.Shape (l₁ ++ x :: l₂)) :
    this.getNode l₁.length = some (some x.1) := by
  rw [LinkedList.getNode]
  split
  · rw [Int.toNat_natCast, h.first, follow_next h.part]
    rfl
  · have hpart : this.Part none ((l₁ ++ [x]) ++ l₂) none := by simpa using h.part
    have hsteps : (this.size - 1 - l₁.length).toNat = l₂.length := by
      rw [h.size, List.length_append, List.length_cons]
      omega
    have hlast : this.last = lastAddr none ((l₁ ++ [x]) ++ l₂) := by simpa using h.last
    rw [hsteps, hlast, follow_prev hpart, lastAddr_concat]

/-- An index in range cuts the list. -/
theorem exists_cut {index : Int} (h0 : 0 ≤ index) (hlt : index < l.length) :
    ∃ l₁ x l₂, l = l₁ ++ x :: l₂ ∧ index = l₁.length := by
  have hlt' : index.toNat < l.length := by omega
  refine ⟨l.take index.toNat, l[index.toNat], l.drop (index.toNat + 1), ?_, ?_⟩
  · rw [← List.drop_eq_getElem_cons hlt', List.take_append_drop]
  · rw [List.length_take]
    omega

theorem Shape.addBeforeLocked {x : Nat × Option V} (h : this.Shape (l₁ ++ x :: l₂)) (v : Option V) :
    ∃ this', this.addBeforeLocked l₁.length v = some (this', none) ∧
      this'.Shape (l₁ ++ (this.fresh, v) :: x :: l₂) := by
  obtain ⟨this₁, this₂, heq₁, heq₂, hshape⟩ := h.insert v
  obtain ⟨-, hcell, -⟩ := h.cut
  refine ⟨_, ?_, hshape⟩
  simp only [headAddr_cons] at heq₁
  have hupdate : (this.alloc ⟨v, lastAddr none l₁, some x.1⟩).update x.1
      (fun n => { n with prev := some this.fresh }) = some this₁ := heq₁
  simp only [LinkedList.addBeforeLocked, h.getNode, hcell, hupdate, heq₂, Option.bind_eq_bind,
    Option.bind_some, Option.pure_def]

/-! ## Removing -/

/-- Taking a node out joins the halves on its two sides. -/
theorem Shape.deleteNode {x : Nat × Option V} (h : this.Shape (l₁ ++ x :: l₂)) :
    ∃ this', this.deleteNode (some x.1) = some (this', x.2) ∧ this'.Shape (l₁ ++ l₂) := by
  obtain ⟨hhalves, hcell, hx⟩ := h.cut
  obtain ⟨hx₁, hx₂⟩ : x.1 ∉ addrs l₁ ∧ x.1 ∉ addrs l₂ := by simpa using hx
  obtain ⟨this₁, heq₁, h₁, hw₁⟩ := hhalves.setNext (headAddr l₂ none)
  obtain ⟨this₂, heq₂, h₂, hw₂⟩ := h₁.setPrev (lastAddr none l₁)
  have hcell₂ : this₂.heap x.1 = this.heap x.1 := by rw [hw₂.heap _ hx₂, hw₁.heap _ hx₁]
  obtain ⟨this₃, heq₃, h₃, hw₃⟩ := h₂.update hx (hcell₂.trans hcell) fun _ => {}
  have hclear : this₂.clearNode x.1 = some this₃ := heq₃
  refine ⟨{ this₃ with size := this₃.size - 1 }, ?_, (h₃.withSize _).shape ?_⟩
  · simp only [LinkedList.deleteNode, hcell, heq₁, heq₂, hclear, Option.bind_eq_bind, Option.bind_some,
      Option.pure_def]
  · change this₃.size - 1 = _
    rw [hw₃.size, hw₂.size, hw₁.size, h.size]
    simp only [List.length_append, List.length_cons]
    omega

/-- `RemoveFirst` takes the first node out. -/
theorem Shape.removeFirst {x : Nat × Option V} (h : this.Shape (x :: l)) :
    ∃ this', this.removeFirst = some (this', x.2) ∧ this'.Shape l := by
  have hstart : this.Shape ([] ++ x :: l) := h
  obtain ⟨this', heq, hshape⟩ := hstart.deleteNode
  obtain ⟨-, hcell, -⟩ := hstart.cut
  have hfirst : this.first = some x.1 := h.first
  refine ⟨this', ?_, hshape⟩
  rw [← heq, LinkedList.removeFirst, LinkedList.deleteNode]
  simp only [hfirst, hcell, lastAddr_nil, LinkedList.setNext, Option.bind_eq_bind, Option.bind_some]

/-- `RemoveLast` changes `last` before it changes the other half. -/
theorem setNext_withLast (this : LinkedList V) (p q x : Option Nat) :
    { this with last := x }.setNext p q = (this.setNext p q).map fun t => { t with last := x } := by
  cases p with
  | none => rfl
  | some a =>
    simp only [LinkedList.setNext, LinkedList.update, Option.map_map]
    rfl

theorem Shape.removeLast {x : Nat × Option V} (h : this.Shape (l ++ [x])) :
    ∃ this', this.removeLast = some (this', x.2) ∧ this'.Shape l := by
  obtain ⟨this', heq, hshape⟩ := h.deleteNode
  obtain ⟨-, hcell, -⟩ := h.cut
  have hlast : this.last = some x.1 := h.last.trans (lastAddr_concat _ _ _)
  refine ⟨this', ?_, by simpa using hshape⟩
  rw [← heq, LinkedList.removeLast, LinkedList.deleteNode]
  simp only [hlast, hcell, headAddr_nil, setNext_withLast, LinkedList.setPrev, Option.bind_eq_bind,
    Option.bind_some, Option.bind_map, Function.comp_def]

/-- One turn of the loop of `RemoveUntil` takes the first node out. -/
theorem Shape.removeUntilTurn {x : Nat × Option V} (h : this.Shape (x :: l)) :
    ∃ c this₁ this₂, this.heap x.1 = some c ∧ c.next = headAddr l none ∧
      this.clearNode x.1 = some this₁ ∧
      { this₁ with first := c.next, size := this₁.size - 1 }.setPrev c.next none = some this₂ ∧
      this₂.Shape l := by
  have hstart : this.Shape ([] ++ x :: l) := h
  obtain ⟨hhalves, hcell, hx⟩ := hstart.cut
  obtain ⟨this₁, heq₁, h₁, hw₁⟩ := hhalves.update hx hcell fun _ => {}
  have hfirst : { this₁ with first := headAddr l none, size := this₁.size - 1 }.Halves [] (headAddr l none)
      (some x.1) l := ⟨trivial, h₁.right, rfl, h₁.last, h₁.nodup, h₁.bound⟩
  obtain ⟨this₂, heq₂, h₂, hw₂⟩ := hfirst.setPrev none
  have hsize : this₂.size = (([] : List (Nat × Option V)) ++ l).length := by
    rw [hw₂.size]
    change this₁.size - 1 = _
    rw [hw₁.size, h.size]
    simp
  exact ⟨_, this₁, this₂, hcell, rfl, heq₁, heq₂, h₂.shape hsize⟩

theorem Shape.removeUntilFrom {x : Nat × Option V} {index : Int} (h : this.Shape (l₁ ++ x :: l₂))
    {fuel : Nat} (hfuel : l₁.length < fuel) {currentIndex : Int}
    (hindex : index = currentIndex + l₁.length) :
    ∃ this', LinkedList.removeUntilFrom index fuel this currentIndex this.first = some this' ∧
      this'.Shape l₂ := by
  obtain ⟨fuel, rfl⟩ : ∃ k, fuel = k + 1 := ⟨fuel - 1, by omega⟩
  induction l₁ generalizing this fuel currentIndex with
  | nil =>
    obtain ⟨c, this₁, this₂, hc, -, heq₁, heq₂, hshape⟩ := Shape.removeUntilTurn h
    have hfirst : this.first = some x.1 := h.first
    have hlast : currentIndex = index := by simpa using hindex.symm
    refine ⟨this₂, ?_, hshape⟩
    simp only [hfirst, LinkedList.removeUntilFrom, hc, heq₁, heq₂, hlast, if_true, Option.bind_eq_bind,
      Option.bind_some, Option.pure_def]
  | cons y l₁ ih =>
    obtain ⟨c, this₁, this₂, hc, hnext, heq₁, heq₂, hshape⟩ := Shape.removeUntilTurn h
    rw [List.length_cons] at hfuel hindex
    obtain ⟨fuel, rfl⟩ : ∃ k, fuel = k + 1 := ⟨fuel - 1, by omega⟩
    have hindex' : index = currentIndex + 1 + l₁.length := by omega
    obtain ⟨this', hrest, hshape'⟩ := ih hshape hindex' fuel (by omega)
    have hfirst : this.first = some y.1 := h.first
    have hmore : ¬currentIndex = index := by omega
    refine ⟨this', ?_, hshape'⟩
    rw [← hrest, hshape.first, ← hnext]
    simp only [hfirst, LinkedList.removeUntilFrom, hc, heq₁, heq₂, hmore, if_false,
      Option.bind_eq_bind, Option.bind_some]

/-- The loop of `Clear` ends, whatever it leaves behind. -/
theorem clearFrom_eq (h : this.Part p l none) (hnd : (addrs l).Nodup) {fuel : Nat}
    (hfuel : l.length ≤ fuel) : ∃ this', clearFrom fuel this (headAddr l none) = some this' := by
  induction l generalizing this p fuel with
  | nil => cases fuel <;> exact ⟨this, rfl⟩
  | cons x l ih =>
    obtain ⟨fuel, rfl⟩ : ∃ k, fuel = k + 1 := ⟨fuel - 1, by rw [List.length_cons] at hfuel; omega⟩
    obtain ⟨⟨c, hc, -, -, hnext⟩, hl⟩ := h
    obtain ⟨hx, hnd⟩ := List.nodup_cons.1 hnd
    have hclear := update_eq hc fun _ => {}
    have hframe : ({ this with heap := Function.update this.heap x.1 (some {}) } : LinkedList V).Part
        (some x.1) l none := by
      refine hl.frame fun a ha => Function.update_of_ne ?_ _ _
      rintro rfl
      exact hx ha
    obtain ⟨this', hrest⟩ := ih hframe hnd (Nat.le_of_succ_le_succ hfuel)
    refine ⟨this', ?_⟩
    rw [← hnext] at hrest
    simp only [headAddr_cons, clearFrom, hc, clearNode, hclear, hrest, Option.bind_eq_bind,
      Option.bind_some]

theorem Shape.clear (h : this.Shape l) (hfuel : l.length ≤ this.fresh) :
    ∃ this', this.clear = some this' ∧ this'.Shape [] := by
  obtain ⟨this', heq⟩ := clearFrom_eq h.part h.nodup hfuel
  refine ⟨{ this' with first := none, last := none, size := 0 }, ?_, ?_⟩
  · simp only [LinkedList.clear, h.first, heq, Option.map_some]
  · exact ⟨trivial, rfl, rfl, List.nodup_nil, by simp, rfl⟩

/-! ## Searching and visiting -/

/-- As many addresses as the list has nodes are in use. -/
theorem Shape.length_le (h : this.Shape l) : l.length ≤ this.fresh := by
  have hsub : addrs l ⊆ List.range this.fresh := fun a ha => List.mem_range.2 (h.bound a ha)
  have hlen := (List.subperm_of_subset h.nodup hsub).length_le
  simpa [addrs] using hlen

/-- The search passes the nodes that fail the test. -/
theorem search_append {test : Option V → Bool} (hno : ∀ y ∈ l₁, test y.2 = false)
    (h : this.Part p (l₁ ++ l₂) q) (fuel : Nat) :
    this.search test (l₁.length + fuel) (headAddr (l₁ ++ l₂) q) =
      this.search test fuel (headAddr l₂ q) := by
  induction l₁ generalizing p with
  | nil => simp
  | cons y l₁ ih =>
    obtain ⟨⟨c, hc, hdata, -, hnext⟩, hl⟩ := h
    have hnext : c.next = headAddr (l₁ ++ l₂) q := hnext
    have hy : test c.data = false := hdata ▸ hno y List.mem_cons_self
    rw [← ih (fun z hz => hno z (List.mem_cons_of_mem y hz)) hl, ← hnext, List.cons_append,
      headAddr_cons, List.length_cons, Nat.add_right_comm, search, hc, Option.bind_some, hy]
    rfl

/-- The first node whose data passes the test is found. -/
theorem Shape.search {x : Nat × Option V} {test : Option V → Bool} (h : this.Shape (l₁ ++ x :: l₂))
    (hno : ∀ y ∈ l₁, test y.2 = false) (hx : test x.2 = true) :
    this.search test this.fresh this.first = some (some x.1) := by
  obtain ⟨-, hcell, -⟩ := h.cut
  obtain ⟨fuel, hfuel⟩ : ∃ k, this.fresh = l₁.length + (k + 1) := by
    have hlen := h.length_le
    rw [List.length_append, List.length_cons] at hlen
    exact ⟨this.fresh - l₁.length - 1, by omega⟩
  rw [hfuel, h.first, search_append hno h.part _, headAddr_cons, LinkedList.search, hcell]
  simp [hx]

theorem Shape.search_none {test : Option V → Bool} (h : this.Shape l)
    (hno : ∀ y ∈ l, test y.2 = false) : this.search test this.fresh this.first = some none := by
  obtain ⟨fuel, hfuel⟩ : ∃ k, this.fresh = l.length + k :=
    ⟨this.fresh - l.length, by have hlen := h.length_le; omega⟩
  have hpart : this.Part none (l ++ []) none := by simpa using h.part
  have hfound : this.search test (l.length + fuel) (headAddr (l ++ []) none) = _ :=
    search_append hno hpart fuel
  rw [List.append_nil] at hfound
  rw [hfuel, h.first, hfound]
  cases fuel <;> rfl

/-- The loops of `Loop` and `ReverseLoop` show the callback what their link spells. -/
theorem visit_spells {link : Node V → Option Nat} (step : Int) (callback : Callback V)
    {n : Option Nat} (h : Spells link Node.data this.heap n l) {fuel : Nat} (hfuel : l.length ≤ fuel)
    (index : Int) (calls : List (Int × Option V)) :
    this.visit link step callback fuel index calls n =
      some (visitList step callback index calls (l.map Prod.snd)) := by
  induction l generalizing n fuel index calls with
  | nil =>
    obtain rfl : n = none := h
    cases fuel <;> rfl
  | cons x l ih =>
    obtain ⟨fuel, rfl⟩ : ∃ k, fuel = k + 1 := ⟨fuel - 1, by rw [List.length_cons] at hfuel; omega⟩
    obtain ⟨rfl, c, hc, hdata, hl⟩ := h
    simp only [visit, hc, hdata, List.map_cons, visitList, Option.bind_eq_bind, Option.bind_some,
      Option.pure_def]
    split
    · exact ih hl (Nat.le_of_succ_le_succ hfuel) _ _
    · rfl

/-! ## The refinement -/

/-- The range test of the source is that of the sequence. -/
theorem Shape.inRange_iff (h : this.Shape l) (index : Int) :
    InRange (l.map Prod.snd) index ↔ ¬(index < 0 ∨ index ≥ this.size) := by
  rw [InRange, h.size, List.length_map]
  omega

theorem Shape.out_of_range (h : this.Shape l) {index : Int} (hout : ¬InRange (l.map Prod.snd) index) :
    index < 0 ∨ index ≥ this.size := by
  rwa [h.inRange_iff, not_not] at hout

theorem InRange.cut {index : Int} (hin : InRange (l.map Prod.snd) index) :
    ∃ l₁ x l₂, l = l₁ ++ x :: l₂ ∧ index = l₁.length := by
  rw [InRange, List.length_map] at hin
  exact exists_cut hin.1 hin.2

section Refinement

variable [BEq V]

/-- The operation does on the list what it does on the sequence, and returns the same. -/
def Agrees (this : LinkedList V) (l : List (Nat × Option V)) (op : Op V) : Prop :=
  ∃ this' l', this.exec op = some (this', (execList (l.map Prod.snd) op).2) ∧ this'.Shape l' ∧
    l'.map Prod.snd = (execList (l.map Prod.snd) op).1

theorem agrees_addLast (h : this.Shape l) (v : Option V) : this.Agrees l (.addLast v) := by
  obtain ⟨this', heq, hshape⟩ := h.addLast v
  exact ⟨this', _, by simp [exec, execList, heq], hshape, by simp [execList]⟩

theorem agrees_addFirst (h : this.Shape l) (v : Option V) : this.Agrees l (.addFirst v) := by
  obtain ⟨this', heq, hshape⟩ := h.addFirst v
  exact ⟨this', _, by simp [exec, execList, heq], hshape, by simp [execList]⟩

theorem agrees_addBefore (h : this.Shape l) (index : Int) (v : Option V) :
    this.Agrees l (.addBefore index v) := by
  rw [Agrees, exec, addBefore, execList, h.size, List.length_map]
  by_cases hin : 0 ≤ index ∧ index ≤ l.length
  · rw [if_neg (by omega : ¬(index < 0 ∨ index > (l.length : Int))), if_pos hin]
    by_cases hend : index = l.length
    · obtain ⟨this', heq, hshape⟩ := h.addLast v
      refine ⟨this', _, by simp [hend, heq], hshape, ?_⟩
      simp [hend, List.take_of_length_le, List.drop_eq_nil_of_le]
    · have hlt : index < l.length := by omega
      obtain ⟨l₁, x, l₂, rfl, rfl⟩ := exists_cut hin.1 hlt
      obtain ⟨this', heq, hshape⟩ := h.addBeforeLocked v
      refine ⟨this', _, ?_, hshape, by simp⟩
      rw [if_neg hend, heq]
      rfl
  · rw [if_pos (by omega : index < 0 ∨ index > (l.length : Int)), if_neg hin]
    exact ⟨this, l, rfl, h, rfl⟩

theorem agrees_remove (h : this.Shape l) (index : Int) : this.Agrees l (.remove index) := by
  rw [Agrees, exec, remove, execList]
  by_cases hin : InRange (l.map Prod.snd) index
  · rw [if_neg ((h.inRange_iff index).1 hin), if_pos hin]
    obtain ⟨l₁, x, l₂, rfl, rfl⟩ := hin.cut
    obtain ⟨this', heq, hshape⟩ := h.deleteNode
    refine ⟨this', _, ?_, hshape, by simp [List.eraseIdx_append_of_length_le]⟩
    simp [h.getNode, heq]
  · rw [if_pos (h.out_of_range hin), if_neg hin]
    exact ⟨this, l, rfl, h, rfl⟩

theorem agrees_removeUntil (h : this.Shape l) (index : Int) : this.Agrees l (.removeUntil index) := by
  rw [Agrees, exec, removeUntil, execList]
  by_cases hin : InRange (l.map Prod.snd) index
  · rw [if_neg ((h.inRange_iff index).1 hin), if_pos hin]
    obtain ⟨l₁, x, l₂, rfl, rfl⟩ := hin.cut
    have hfuel : l₁.length < this.fresh := by
      have hlen := h.length_le
      rw [List.length_append, List.length_cons] at hlen
      omega
    obtain ⟨this', heq, hshape⟩ := h.removeUntilFrom hfuel (Int.zero_add _).symm
    refine ⟨this', _, by simp [heq], hshape, ?_⟩
    simp [List.drop_append]
  · rw [if_pos (h.out_of_range hin), if_neg hin]
    exact ⟨this, l, rfl, h, rfl⟩

theorem agrees_get (h : this.Shape l) (index : Int) : this.Agrees l (.get index) := by
  rw [Agrees, exec, get, execList]
  by_cases hin : InRange (l.map Prod.snd) index
  · rw [if_neg ((h.inRange_iff index).1 hin), if_pos hin]
    obtain ⟨l₁, x, l₂, rfl, rfl⟩ := hin.cut
    obtain ⟨-, hcell, -⟩ := h.cut
    refine ⟨this, _, ?_, h, rfl⟩
    simp [h.getNode, deref, hcell]
  · rw [if_pos (h.out_of_range hin), if_neg hin]
    exact ⟨this, l, rfl, h, rfl⟩

theorem agrees_removeFirst (h : this.Shape l) : this.Agrees l .removeFirst := by
  cases l with
  | nil =>
    have hfirst : this.first = none := h.first
    exact ⟨this, [], by simp [exec, execList, removeFirst, hfirst], h, rfl⟩
  | cons x l =>
    obtain ⟨this', heq, hshape⟩ := h.removeFirst
    exact ⟨this', l, by simp [exec, execList, heq], hshape, rfl⟩

theorem agrees_removeLast (h : this.Shape l) : this.Agrees l .removeLast := by
  rcases List.eq_nil_or_concat' l with rfl | ⟨l, x, rfl⟩
  · have hlast : this.last = none := h.last
    exact ⟨this, [], by simp [exec, execList, removeLast, hlast], h, rfl⟩
  · obtain ⟨this', heq, hshape⟩ := h.removeLast
    exact ⟨this', l, by simp [exec, execList, heq], hshape, by simp [execList]⟩

theorem agrees_getFirst (h : this.Shape l) : this.Agrees l .getFirst := by
  refine ⟨this, l, ?_, h, rfl⟩
  cases l with
  | nil => simp [exec, execList, getFirst, dataOf, h.first]
  | cons x l =>
    have hstart : this.Shape ([] ++ x :: l) := h
    obtain ⟨-, hcell, -⟩ := hstart.cut
    simp [exec, execList, getFirst, dataOf, h.first, hcell]

theorem agrees_getLast (h : this.Shape l) : this.Agrees l .getLast := by
  refine ⟨this, l, ?_, h, rfl⟩
  rcases List.eq_nil_or_concat' l with rfl | ⟨l, x, rfl⟩
  · simp [exec, execList, getLast, dataOf, h.last]
  · obtain ⟨-, hcell, -⟩ := h.cut
    simp [exec, execList, getLast, dataOf, h.last, hcell]

theorem agrees_clear (h : this.Shape l) : this.Agrees l .clear := by
  obtain ⟨this', heq, hshape⟩ := h.clear h.length_le
  exact ⟨this', [], by simp [exec, execList, heq], hshape, rfl⟩

theorem agrees_loop (h : this.Shape l) (callback : Callback V) : this.Agrees l (.loop callback) := by
  refine ⟨this, l, ?_, h, rfl⟩
  have hvisit := visit_spells 1 callback h.part.spells h.length_le 0 []
  rw [← h.first] at hvisit
  simp [exec, execList, loop, hvisit]

theorem agrees_reverseLoop (h : this.Shape l) (callback : Callback V) :
    this.Agrees l (.reverseLoop callback) := by
  refine ⟨this, l, ?_, h, rfl⟩
  have hfuel : l.reverse.length ≤ this.fresh := by
    rw [List.length_reverse]
    exact h.length_le
  have hvisit := visit_spells (-1) callback h.part.spells_reverse hfuel (this.size - 1) []
  rw [← h.last, List.map_reverse] at hvisit
  rw [exec, execList, reverseLoop, hvisit, h.size, List.length_map]
  rfl

/-- Both loops of `RemoveData` compare with the value. -/
theorem findData_eq (this : LinkedList V) (v : Option V) :
    this.findData v = this.search (· == v) this.fresh this.first := by
  cases v with
  | none =>
    have htest : (fun d : Option V => d == none) = Option.isNone := by
      funext d
      cases d <;> rfl
    rw [htest]
    rfl
  | some v => rfl

theorem agrees_removeData (h : this.Shape l) (v : Option V) : this.Agrees l (.removeData v) := by
  rw [Agrees, exec, removeData, execList, findData_eq]
  have hmap : ∀ {l' : List (Nat × Option V)}, (∀ y ∈ l', (y.2 == v) = false) →
      ∀ d ∈ l'.map Prod.snd, ¬(d == v) = true := by
    intro l' hl' d hd
    obtain ⟨y, hy, rfl⟩ := List.mem_map.1 hd
    simp [hl' y hy]
  by_cases hmem : ∃ y ∈ l, (y.2 == v) = true
  · -- the nodes in front of the first match are passed
    obtain ⟨y, hy, hmatch⟩ := hmem
    obtain ⟨x, l₁, l₂, hno, hx, rfl, -⟩ :=
      List.exists_of_eraseP (p := fun x : Nat × Option V => x.2 == v) hy hmatch
    have hno' : ∀ y ∈ l₁, (y.2 == v) = false := fun y hy => by simpa using hno y hy
    have hfound : this.search (· == v) this.fresh this.first = some (some x.1) := h.search hno' hx
    obtain ⟨this', heq, hshape⟩ := h.deleteNode
    refine ⟨this', _, ?_, hshape, ?_⟩
    · simp [hfound, heq, hx]
    · have htail : (x.2 :: l₂.map Prod.snd).eraseP (· == v) = l₂.map Prod.snd :=
        List.eraseP_cons_of_pos (p := (· == v)) hx
      rw [List.map_append, List.map_append, List.map_cons, List.eraseP_append_right _ (hmap hno'),
        htail]
  · have hno : ∀ y ∈ l, (y.2 == v) = false := by simpa using hmem
    refine ⟨this, l, ?_, h, ?_⟩
    · rw [h.search_none hno]
      simpa using hno
    · rw [List.eraseP_of_forall_not (hmap hno)]

/-- Every operation does on the list what it does on the sequence. -/
theorem agrees (h : this.Shape l) (op : Op V) : this.Agrees l op := by
  cases op with
  | add v => exact agrees_addLast h v
  | addLast v => exact agrees_addLast h v
  | addFirst v => exact agrees_addFirst h v
  | addBefore index v => exact agrees_addBefore h index v
  | remove index => exact agrees_remove h index
  | removeData v => exact agrees_removeData h v
  | removeUntil index => exact agrees_removeUntil h index
  | removeFirst => exact agrees_removeFirst h
  | removeLast => exact agrees_removeLast h
  | clear => exact agrees_clear h
  | get index => exact agrees_get h index
  | getFirst => exact agrees_getFirst h
  | getLast => exact agrees_getLast h
  | size => exact ⟨this, l, by simp [exec, execList, h.size], h, rfl⟩
  | loop callback => exact agrees_loop h callback
  | reverseLoop callback => exact agrees_reverseLoop h callback

/-- The list stands for the sequence of the data of its nodes. -/
def Represents (this : LinkedList V) (vs : List (Option V)) : Prop :=
  ∃ l, this.Shape l ∧ l.map Prod.snd = vs

theorem simulates : (dataType V).Simulates (listType V) Represents where
  init := ⟨[], ⟨trivial, rfl, rfl, List.nodup_nil, by simp, rfl⟩, rfl⟩
  exec := by
    rintro this vs op vs' r ⟨l, hshape, rfl⟩ hexec
    obtain ⟨this', l', heq, hshape', hl'⟩ := agrees hshape op
    have hresult : execList (l.map Prod.snd) op = (vs', r) := Option.some.inj hexec
    rw [hresult] at heq hl'
    exact ⟨this', heq, l', hshape', hl'⟩

/-- Every sequence of operations on a new list succeeds and returns what it returns on a sequence. At
its end `next` from `first` and `prev` from `last` spell that sequence in opposite orders, and `size`
is its length. -/
theorem linkedList_refines_sequence (ops : List (Op V)) :
    ∃ (this : LinkedList V) (vs : List (Option V)) (rs : List (Ret V)) (l : List (Nat × Option V)),
      (listType V).run [] ops = some (vs, rs) ∧ (dataType V).run {} ops = some (this, rs) ∧
      Spells Node.next Node.data this.heap this.first l ∧
      Spells Node.prev Node.data this.heap this.last l.reverse ∧
      l.map Prod.snd = vs ∧ this.size = vs.length := by
  have htotal := (listType V).run_isSome (fun _ _ => rfl) [] ops
  obtain ⟨⟨vs, rs⟩, hrun⟩ := Option.isSome_iff_exists.1 htotal
  obtain ⟨this, hrun', l, hshape, hl⟩ := simulates.run hrun
  refine ⟨this, vs, rs, l, hrun, hrun', ?_, ?_, hl, ?_⟩
  · rw [hshape.first]
    exact hshape.part.spells
  · rw [hshape.last]
    exact hshape.part.spells_reverse
  · rw [hshape.size, ← hl, List.length_map]

end Refinement

end OwnX.Basic.LinkedList
