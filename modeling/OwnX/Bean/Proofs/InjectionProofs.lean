import OwnX.Bean.Bean
import OwnX.Foundations.Proofs.GoMapProofs

/-!
# Proofs: the injection of the dependencies

Every call of `findAndSet` on a bean of the context ends: it recurses only after it has set a nil field
of the context. It fails only if some bean of the context has a field that can never be set, and
otherwise leaves no nil field in its bean. What a bean sets a field to does not depend on the moment. So
the result of `Ioc` is determined by the context and the fields before if the beans with one struct agree,
and only then, unless it panics anyway.
-/

namespace OwnX.Bean

variable {τ : Type} {P : Program τ} {context : Context τ}

/-! ## The lookup -/

theorem getBean_mem {beanName : String} {bean : Pointer τ} (h : getBean context beanName = some bean) :
    ∃ e ∈ context.entries, e.2 = bean := by
  obtain ⟨e, he, -, hv⟩ := assocGet_eq_some h
  exact ⟨e, he, hv⟩

/-- The lookup finds beans of the context. -/
theorem lookup_mem {field : StructField τ} {propBean : Pointer τ}
    (h : (lookup P context field).2 = some propBean) : ∃ e ∈ context.entries, e.2 = propBean := by
  unfold lookup at h
  simp only at h
  split at h
  · rename_i hget
    cases h
    exact getBean_mem hget
  · split at h
    · rename_i hget
      cases h
      exact getBean_mem hget
    · split_ifs at h
      exact getBean_mem h

theorem chosen_of_canSet {field : StructField τ} (h : field.canSet = true) :
    chosen P context field = (lookup P context field).2.bind fun propBean =>
      if P.assignable propBean.type field.type then setValue P field propBean else none :=
  if_pos h

theorem chosen_of_not_canSet {field : StructField τ} (h : field.canSet = false) :
    chosen P context field = none := by
  unfold chosen
  rw [h]
  rfl

theorem setValue_ptr {field : StructField τ} (propBean : Pointer τ)
    (h : P.kind field.type = .ptr) :
    setValue P field propBean =
      propBean.addr.map fun addr => { type := field.type, addr := some addr } :=
  if_pos h

/-! ## The fields that are set -/

/-- The pointer is to a struct of the context, with the fields that the bean has. -/
def Sees (P : Program τ) (context : Context τ) (bean : Pointer τ) : Prop :=
  ∃ e ∈ context.entries, e.2.addr = bean.addr ∧ P.fields e.2.type = P.fields bean.type

/-- A field that is set to what the lookup gives. -/
def Fills (P : Program τ) (context : Context τ) (addr i : Nat) (value : Option (Pointer τ)) : Prop :=
  ∃ field, Autowired P context addr i field ∧ value = chosen P context field ∧ value.isSome

/-- The fields `heap` come from the fields `heap₀` by setting nil fields. -/
def Between (P : Program τ) (context : Context τ) (heap₀ heap : Heap τ) : Prop :=
  ∀ a i, heap a i = heap₀ a i ∨ heap₀ a i = none ∧ Fills P context a i (heap a i)

/-- What is set stays as it is. -/
def Extends (heap heap' : Heap τ) : Prop := ∀ a i, heap a i ≠ none → heap' a i = heap a i

/-- What keeps a field with the tag from being set. -/
def Fault (P : Program τ) (context : Context τ) (heap : Heap τ) (addr i : Nat)
    (field : StructField τ) : Prop :=
  P.kind field.type = .struct ∨
    (P.kind field.type = .ptr ∨ P.kind field.type = .interface) ∧ heap addr i = none ∧
      chosen P context field = none

/-- A visit of the bean has to fail: it is nil, or one of its fields cannot be set. -/
def Bad (P : Program τ) (context : Context τ) (heap₀ : Heap τ) (bean : Pointer τ) : Prop :=
  bean.addr = none ∨ ∃ addr i field, bean.addr = some addr ∧
    (P.fields bean.type)[i]? = some field ∧ isAutowrite field.tag = true ∧
    (P.kind field.type = .struct ∨
      (P.kind field.type = .ptr ∨ P.kind field.type = .interface) ∧ heap₀ addr i = none ∧
        chosen P context field = none)

/-- The field `i` of the struct at `addr` needs no more visit. -/
def FieldDone (P : Program τ) (addr i : Nat) (field : StructField τ) (heap : Heap τ) : Prop :=
  isAutowrite field.tag = true → P.kind field.type ≠ .struct ∧
    (P.kind field.type = .ptr ∨ P.kind field.type = .interface → heap addr i ≠ none)

/-- The bean needs no more visit. -/
def Settled (P : Program τ) (bean : Pointer τ) (heap : Heap τ) : Prop :=
  ∃ addr, bean.addr = some addr ∧
    ∀ i field, (P.fields bean.type)[i]? = some field → FieldDone P addr i field heap

variable {heap₀ heap heap' : Heap τ}

theorem Extends.refl (heap : Heap τ) : Extends heap heap := fun _ _ _ => rfl

theorem Extends.trans {heap'' : Heap τ} (h : Extends heap heap') (h' : Extends heap' heap'') :
    Extends heap heap'' := by
  intro a i hne
  have he := h a i hne
  rw [← he] at hne ⊢
  exact h' a i hne

theorem Extends.ne_none (h : Extends heap heap') {a i : Nat} (hne : heap a i ≠ none) :
    heap' a i ≠ none := by
  rw [h a i hne]
  exact hne

theorem FieldDone.mono {addr i : Nat} {field : StructField τ} (h : FieldDone P addr i field heap)
    (he : Extends heap heap') : FieldDone P addr i field heap' := by
  intro htag
  obtain ⟨hne, hset⟩ := h htag
  exact ⟨hne, fun hk => he.ne_none (hset hk)⟩

theorem Settled.mono {bean : Pointer τ} (h : Settled P bean heap) (he : Extends heap heap') :
    Settled P bean heap' := by
  obtain ⟨addr, haddr, hdone⟩ := h
  exact ⟨addr, haddr, fun i field hf => (hdone i field hf).mono he⟩

theorem extends_set {addr i : Nat} (hnil : heap addr i = none) (value : Option (Pointer τ)) :
    Extends heap (heap.set addr i value) := by
  intro a j hne
  unfold Heap.set
  rw [if_neg]
  rintro ⟨rfl, rfl⟩
  exact hne hnil

theorem set_same (heap : Heap τ) (addr i : Nat) (value : Option (Pointer τ)) :
    heap.set addr i value addr i = value :=
  if_pos ⟨rfl, rfl⟩

theorem set_none {addr i : Nat} (hnil : heap addr i = none) : heap.set addr i none = heap := by
  funext a j
  unfold Heap.set
  split_ifs with h
  · rw [h.1, h.2, hnil]
  · rfl

theorem between_refl (heap₀ : Heap τ) : Between P context heap₀ heap₀ := fun _ _ => Or.inl rfl

/-- A field that is nil was nil before. -/
theorem Between.nil (h : Between P context heap₀ heap) {a i : Nat} (hnil : heap a i = none) :
    heap₀ a i = none := by
  rcases h a i with he | ⟨hnone, -⟩
  · exact he.symm.trans hnil
  · exact hnone

theorem Between.set (h : Between P context heap₀ heap) {addr i : Nat} (hnil : heap addr i = none)
    {value : Option (Pointer τ)} (hv : Fills P context addr i value) :
    Between P context heap₀ (heap.set addr i value) := by
  intro a j
  unfold Heap.set
  split_ifs with hc
  · obtain ⟨rfl, rfl⟩ := hc
    exact Or.inr ⟨h.nil hnil, hv⟩
  · exact h a j

/-- A bean that is seen has the faults of a bean of the context. -/
theorem Sees.bad {bean : Pointer τ} (hs : Sees P context bean) (hb : Bad P context heap₀ bean) :
    ∃ e ∈ context.entries, Bad P context heap₀ e.2 := by
  obtain ⟨e, he, haddr, hfields⟩ := hs
  refine ⟨e, he, ?_⟩
  unfold Bad
  rw [haddr, hfields]
  exact hb

theorem Sees.autowired {bean : Pointer τ} (hs : Sees P context bean) {addr i : Nat}
    {field : StructField τ} (haddr : bean.addr = some addr)
    (hf : (P.fields bean.type)[i]? = some field) (htag : isAutowrite field.tag = true)
    (hk : P.kind field.type = .ptr ∨ P.kind field.type = .interface) :
    Autowired P context addr i field := by
  obtain ⟨e, he, haddr', hfields⟩ := hs
  exact ⟨e, he, haddr'.trans haddr, hfields ▸ hf, htag, hk⟩

/-! ## The measure -/

/-- The fields of the beans of the context. -/
def cells (P : Program τ) (context : Context τ) : List (Nat × Nat) :=
  context.entries.flatMap fun e =>
    e.2.addr.toList.flatMap fun addr => (List.range (P.fields e.2.type).length).map fun i => (addr, i)

/-- The number of nil fields. -/
def nils (P : Program τ) (context : Context τ) (heap : Heap τ) : Nat :=
  (cells P context).countP fun x => (heap x.1 x.2).isNone

theorem Sees.mem_cells {bean : Pointer τ} (hs : Sees P context bean) {addr i : Nat}
    (haddr : bean.addr = some addr) (hi : i < (P.fields bean.type).length) :
    (addr, i) ∈ cells P context := by
  obtain ⟨e, he, haddr', hfields⟩ := hs
  unfold cells
  rw [List.mem_flatMap]
  refine ⟨e, he, ?_⟩
  rw [haddr', haddr, hfields]
  simpa using hi

theorem isNone_of_extends (h : Extends heap heap') {a i : Nat} (hnone : (heap' a i).isNone = true) :
    (heap a i).isNone = true := by
  rw [Option.isNone_iff_eq_none] at hnone ⊢
  by_contra hne
  exact h.ne_none hne hnone

theorem nils_le (h : Extends heap heap') : nils P context heap' ≤ nils P context heap :=
  List.countP_mono_left fun _ _ hx => isNone_of_extends h hx

theorem countP_lt {α : Type} {p q : α → Bool} {l : List α} (h : ∀ x ∈ l, q x = true → p x = true)
    {x : α} (hx : x ∈ l) (hp : p x = true) (hq : q x = false) : l.countP q < l.countP p := by
  induction l with
  | nil => cases hx
  | cons y l ih =>
    have hl : ∀ z ∈ l, q z = true → p z = true := fun z hz => h z (List.mem_cons_of_mem y hz)
    rcases List.mem_cons.mp hx with rfl | hx
    · rw [List.countP_cons_of_pos hp, List.countP_cons_of_neg (by simp [hq])]
      exact Nat.lt_succ_of_le (List.countP_mono_left hl)
    · have hlt := ih hl hx
      have hy := h y (List.mem_cons_self ..)
      rw [List.countP_cons, List.countP_cons]
      split_ifs with h₁ h₂
      · omega
      · exact absurd (hy h₁) h₂
      · omega
      · omega

/-- A nil field of the context has been set. -/
theorem nils_lt (h : Extends heap heap') {addr i : Nat} (hmem : (addr, i) ∈ cells P context)
    (hnil : heap addr i = none) (hset : heap' addr i ≠ none) :
    nils P context heap' < nils P context heap := by
  refine countP_lt (fun x _ hx => isNone_of_extends h hx) hmem ?_ ?_
  · rw [hnil]
    rfl
  · rw [Option.isNone_eq_false_iff]
    exact Option.isSome_iff_ne_none.mpr hset

theorem nils_pos {addr i : Nat} (hmem : (addr, i) ∈ cells P context) (hnil : heap addr i = none) :
    0 < nils P context heap := by
  unfold nils
  rw [List.countP_pos_iff]
  refine ⟨(addr, i), hmem, ?_⟩
  rw [hnil]
  rfl

/-! ## One turn of the loop -/

variable {bean : Pointer τ} {addr i : Nat} {field : StructField τ}

/-- The field is nil and has to be set, and the lookup has found a bean that fits. -/
structure Assigns (P : Program τ) (context : Context τ) (heap : Heap τ) (addr i : Nat)
    (field : StructField τ) (propBean : Pointer τ) : Prop where
  tag : isAutowrite field.tag = true
  kind : P.kind field.type = .ptr ∨ P.kind field.type = .interface
  nil : heap addr i = none
  found : (lookup P context field).2 = some propBean
  fits : P.assignable propBean.type field.type = true
  chosen : chosen P context field = setValue P field propBean

/-- The turns of the loop, as functions of the recursive call. -/
inductive Turn (P : Program τ) (context : Context τ) (addr i : Nat) (field : StructField τ)
    (heap : Heap τ) : ((String → Pointer τ → Heap τ → Result τ) → Result τ) → Prop where
  | skip (h : FieldDone P addr i field heap) : Turn P context addr i field heap fun _ => some (.ok heap)
  | fail (text : String) (htag : isAutowrite field.tag = true) (h : Fault P context heap addr i field) :
      Turn P context addr i field heap fun _ => some (.error text)
  | assign {propBean : Pointer τ} (h : Assigns P context heap addr i field propBean)
      (hptr : P.kind field.type ≠ .ptr) :
      Turn P context addr i field heap fun _ =>
        some (.ok (heap.set addr i (setValue P field propBean)))
  | enter {propBean : Pointer τ} (h : Assigns P context heap addr i field propBean)
      (hptr : P.kind field.type = .ptr) :
      Turn P context addr i field heap fun call =>
        call field.name { propBean with type := field.type }
          (heap.set addr i (setValue P field propBean))

theorem turn_visitField (P : Program τ) (context : Context τ) (beanName : String) (addr i : Nat)
    (field : StructField τ) (heap : Heap τ) :
    Turn P context addr i field heap fun call =>
      visitField P context call beanName addr i field heap := by
  unfold visitField
  by_cases hother : P.kind field.type = .other
  · simp only [if_pos hother]
    refine .skip fun _ => ?_
    rw [hother]
    exact ⟨nofun, fun hk => by rcases hk with hk | hk <;> cases hk⟩
  simp only [if_neg hother]
  cases htag : isAutowrite field.tag with
  | false =>
    refine .skip fun htag' => ?_
    rw [htag] at htag'
    cases htag'
  | true =>
    simp only [Bool.not_true, Bool.false_eq_true, if_false]
    by_cases hstruct : P.kind field.type = .struct
    · simp only [if_pos hstruct]
      exact .fail _ htag (Or.inl hstruct)
    simp only [if_neg hstruct]
    have hkind : P.kind field.type = .ptr ∨ P.kind field.type = .interface := by
      cases hk : P.kind field.type with
      | ptr => exact Or.inl rfl
      | interface => exact Or.inr rfl
      | struct => exact absurd hk hstruct
      | other => exact absurd hk hother
    by_cases hsome : (heap addr i).isSome = true
    · simp only [if_pos hsome]
      exact .skip fun _ => ⟨hstruct, fun _ => Option.isSome_iff_ne_none.mp hsome⟩
    simp only [if_neg hsome]
    have hnil : heap addr i = none := Option.not_isSome_iff_eq_none.mp hsome
    have hfault : chosen P context field = none → Fault P context heap addr i field :=
      fun hc => Or.inr ⟨hkind, hnil, hc⟩
    cases hset : field.canSet with
    | false => exact .fail _ htag (hfault (chosen_of_not_canSet hset))
    | true =>
      simp only [Bool.not_true, Bool.false_eq_true, if_false]
      have hchosen : chosen P context field = _ := chosen_of_canSet hset
      cases hl : lookup P context field with
      | mk dependentBeanName found =>
        rw [hl] at hchosen
        cases found with
        | none => exact .fail _ htag (hfault hchosen)
        | some propBean =>
          dsimp only [Option.bind_some] at hchosen ⊢
          cases ha : P.assignable propBean.type field.type with
          | false =>
            rw [ha] at hchosen
            exact .fail _ htag (hfault hchosen)
          | true =>
            rw [ha, if_pos rfl] at hchosen
            have hassigns : Assigns P context heap addr i field propBean :=
              ⟨htag, hkind, hnil, by rw [hl], ha, hchosen⟩
            simp only [Bool.not_true, Bool.false_eq_true, if_false]
            by_cases hptr : P.kind field.type = .ptr
            · simp only [if_pos hptr]
              exact .enter hassigns hptr
            · simp only [if_neg hptr]
              exact .assign hassigns hptr

namespace Assigns

variable {propBean : Pointer τ}

theorem sees (h : Assigns P context heap addr i field propBean) (hptr : P.kind field.type = .ptr) :
    Sees P context { propBean with type := field.type } := by
  obtain ⟨e, he, heq⟩ := lookup_mem h.found
  refine ⟨e, he, ?_, ?_⟩
  · rw [heq]
  · rw [heq]
    exact P.fields_of_assignable _ _ hptr h.fits

theorem between (h : Assigns P context heap addr i field propBean) (hs : Sees P context bean)
    (haddr : bean.addr = some addr) (hf : (P.fields bean.type)[i]? = some field)
    (hb : Between P context heap₀ heap) (hv : (setValue P field propBean).isSome) :
    Between P context heap₀ (heap.set addr i (setValue P field propBean)) :=
  hb.set h.nil ⟨field, hs.autowired haddr hf h.tag h.kind, h.chosen.symm, hv⟩

/-- A field that has been set to a value that is not nil is done, and stays so. -/
theorem fieldDone (h : Assigns P context heap addr i field propBean)
    (hv : (setValue P field propBean).isSome)
    (he : Extends (heap.set addr i (setValue P field propBean)) heap') :
    FieldDone P addr i field heap' := by
  intro _
  refine ⟨?_, fun _ => he.ne_none ?_⟩
  · rcases h.kind with hk | hk <;> rw [hk] <;> exact nofun
  · rw [set_same]
    exact Option.isSome_iff_ne_none.mp hv

end Assigns

/-! ## What a call does -/

/-- A call that starts from the fields `heap` ends: it panics and some bean is bad, or it returns fields
that satisfy `Q`. -/
def Ends (P : Program τ) (context : Context τ) (heap₀ heap : Heap τ) (Q : Heap τ → Prop) :
    Result τ → Prop
  | none => False
  | some (.error _) => ∃ e ∈ context.entries, Bad P context heap₀ e.2
  | some (.ok heap') => Between P context heap₀ heap' ∧ Extends heap heap' ∧ Q heap'

variable {Q Q' : Heap τ → Prop} {r : Result τ}

theorem Ends.mono (h : Ends P context heap₀ heap' Q r) (he : Extends heap heap')
    (hQ : ∀ heap'', Extends heap' heap'' → Q heap'' → Q' heap'') :
    Ends P context heap₀ heap Q' r := by
  match r, h with
  | some (.error _), h => exact h
  | some (.ok heap''), h => exact ⟨h.1, he.trans h.2.1, hQ heap'' h.2.1 h.2.2⟩

theorem Ends.andThen {next : Heap τ → Result τ} (h : Ends P context heap₀ heap Q r)
    (hnext : ∀ heap', Between P context heap₀ heap' → Extends heap heap' → Q heap' →
      Ends P context heap₀ heap' Q' (next heap')) :
    Ends P context heap₀ heap Q' (r.andThen next) := by
  match r, h with
  | some (.error _), h => exact h
  | some (.ok heap'), h =>
    have hend := hnext heap' h.1 h.2.1 h.2.2
    exact hend.mono h.2.1 fun _ _ hQ => hQ

/-- What the recursive calls are known to do: they end if fewer than `bound` fields are nil. -/
def CallEnds (P : Program τ) (context : Context τ) (heap₀ : Heap τ) (bound : Nat)
    (call : String → Pointer τ → Heap τ → Result τ) : Prop :=
  ∀ beanName bean heap, Sees P context bean → Between P context heap₀ heap → 0 < bound →
    (bean.addr ≠ none → nils P context heap < bound) →
    Ends P context heap₀ heap (Settled P bean) (call beanName bean heap)

variable {call : String → Pointer τ → Heap τ → Result τ} {bound : Nat}

/-- The turn that sets a pointer field goes on in the bean that it has found. -/
theorem enter_ends {propBean : Pointer τ} (hcall : CallEnds P context heap₀ bound call)
    (hs : Sees P context bean) (hb : Between P context heap₀ heap)
    (hbound : nils P context heap ≤ bound) (haddr : bean.addr = some addr)
    (hf : (P.fields bean.type)[i]? = some field)
    (h : Assigns P context heap addr i field propBean) (hptr : P.kind field.type = .ptr) :
    Ends P context heap₀ heap (FieldDone P addr i field)
      (call field.name { propBean with type := field.type }
        (heap.set addr i (setValue P field propBean))) := by
  have hmem : (addr, i) ∈ cells P context :=
    hs.mem_cells haddr (List.getElem?_eq_some_iff.mp hf).1
  have hpos : 0 < bound := Nat.lt_of_lt_of_le (nils_pos hmem h.nil) hbound
  have hext : Extends heap (heap.set addr i (setValue P field propBean)) := extends_set h.nil _
  have hvalue := setValue_ptr propBean hptr
  have hend := hcall field.name { propBean with type := field.type }
  cases hprop : propBean.addr with
  | none =>
    -- a nil pointer: the field is still nil, and the call panics
    rw [hprop] at hend hvalue
    rw [hvalue, Option.map_none, set_none h.nil]
    refine (hend heap ?_ hb hpos fun hne => absurd rfl hne).mono (Extends.refl heap) ?_
    · rw [← hprop]
      exact h.sees hptr
    · rintro heap' - ⟨addr', haddr', -⟩
      cases haddr'
  | some addr' =>
    have hv : (setValue P field propBean).isSome := by
      rw [hvalue, hprop]
      rfl
    have hlt : nils P context (heap.set addr i (setValue P field propBean)) <
        nils P context heap := by
      refine nils_lt hext hmem h.nil ?_
      rw [set_same]
      exact Option.isSome_iff_ne_none.mp hv
    rw [← hprop]
    refine (hend _ (h.sees hptr) (h.between hs haddr hf hb hv) hpos fun _ => ?_).mono hext ?_
    · exact Nat.lt_of_lt_of_le hlt hbound
    · exact fun heap' he _ => h.fieldDone hv he

theorem visitField_ends (hcall : CallEnds P context heap₀ bound call) (hs : Sees P context bean)
    (hb : Between P context heap₀ heap) (hbound : nils P context heap ≤ bound)
    (haddr : bean.addr = some addr) (hf : (P.fields bean.type)[i]? = some field) (beanName : String) :
    Ends P context heap₀ heap (FieldDone P addr i field)
      (visitField P context call beanName addr i field heap) := by
  have hturn := turn_visitField P context beanName addr i field heap
  change Ends P context heap₀ heap (FieldDone P addr i field)
    ((fun call => visitField P context call beanName addr i field heap) call)
  generalize (fun call => visitField P context call beanName addr i field heap) = turn at hturn ⊢
  cases hturn with
  | skip h => exact ⟨hb, Extends.refl heap, h⟩
  | fail text htag h =>
    refine hs.bad (Or.inr ⟨addr, i, field, haddr, hf, htag, ?_⟩)
    exact h.imp_right fun hk => ⟨hk.1, hb.nil hk.2.1, hk.2.2⟩
  | @assign propBean h hptr =>
    have hv : (setValue P field propBean).isSome := by
      unfold setValue
      rw [if_neg hptr]
      rfl
    exact ⟨h.between hs haddr hf hb hv, extends_set h.nil _, h.fieldDone hv (Extends.refl _)⟩
  | enter h hptr => exact enter_ends hcall hs hb hbound haddr hf h hptr

theorem fieldLoop_ends (hcall : CallEnds P context heap₀ bound call) (hs : Sees P context bean)
    (haddr : bean.addr = some addr) (beanName : String) (fields : List (StructField τ)) :
    ∀ i heap, (∀ j field, fields[j]? = some field → (P.fields bean.type)[i + j]? = some field) →
      Between P context heap₀ heap → nils P context heap ≤ bound →
      Ends P context heap₀ heap
        (fun heap' => ∀ j field, fields[j]? = some field → FieldDone P addr (i + j) field heap')
        (fieldLoop P context call beanName addr i fields heap) := by
  induction fields with
  | nil =>
    intro i heap _ hb _
    exact ⟨hb, Extends.refl heap, fun j field hj => by simp at hj⟩
  | cons field fields ih =>
    intro i heap hfields hb hbound
    have hf : (P.fields bean.type)[i]? = some field := hfields 0 field rfl
    refine (visitField_ends hcall hs hb hbound haddr hf beanName).andThen fun heap' hb' he hdone => ?_
    have hrest := ih (i + 1) heap' (fun j f hj => ?_) hb' (Nat.le_trans (nils_le he) hbound)
    · refine hrest.mono (Extends.refl heap') fun heap'' he' hall j f hj => ?_
      cases j with
      | zero =>
        cases hj
        exact hdone.mono he'
      | succ j =>
        have hd := hall j f hj
        rw [Nat.add_right_comm] at hd
        exact hd
    · have hg := hfields (j + 1) f hj
      rw [Nat.add_right_comm]
      exact hg

/-- Every call on a bean of the context ends, if it may go as deep as there are nil fields. -/
theorem findAndSet_ends (fuel : Nat) : CallEnds P context heap₀ fuel (findAndSet P context fuel) := by
  induction fuel with
  | zero => exact fun _ _ _ _ _ hpos => absurd hpos (Nat.lt_irrefl 0)
  | succ fuel ih =>
    intro beanName bean heap hs hb _ hbound
    unfold findAndSet
    cases haddr : bean.addr with
    | none => exact hs.bad (Or.inl haddr)
    | some addr =>
      have hle : nils P context heap ≤ fuel :=
        Nat.le_of_lt_succ (hbound (by rw [haddr]; exact nofun))
      have hloop := fieldLoop_ends ih hs haddr beanName (P.fields bean.type) 0 heap
        (fun j field hj => by rw [Nat.zero_add]; exact hj) hb hle
      refine hloop.mono (Extends.refl heap) fun heap' _ hall => ⟨addr, haddr, fun j field hj => ?_⟩
      have hd := hall j field hj
      rw [Nat.zero_add] at hd
      exact hd

theorem ioc_ends (fuel : Nat) {order : List (String × Pointer τ)}
    (horder : ∀ e ∈ order, e ∈ context.entries) (hb : Between P context heap₀ heap)
    (hfuel : nils P context heap < fuel) :
    Ends P context heap₀ heap (fun heap' => ∀ e ∈ order, Settled P e.2 heap')
      (ioc P context fuel order heap) := by
  induction order generalizing heap with
  | nil => exact ⟨hb, Extends.refl heap, nofun⟩
  | cons e order ih =>
    obtain ⟨beanName, bean⟩ := e
    have hs : Sees P context bean := ⟨_, horder _ (List.mem_cons_self ..), rfl, rfl⟩
    have hcall := findAndSet_ends fuel beanName bean heap hs hb (Nat.zero_lt_of_lt hfuel) fun _ => hfuel
    refine hcall.andThen fun heap' hb' he hsettled => ?_
    have hrest := ih (fun e he => horder e (List.mem_cons_of_mem _ he)) hb'
      (Nat.lt_of_le_of_lt (nils_le he) hfuel)
    refine hrest.mono (Extends.refl heap') fun heap'' he' hall e hmem => ?_
    rcases List.mem_cons.mp hmem with rfl | hmem
    · exact hsettled.mono he'
    · exact hall e hmem

/-! ## More fuel -/

/-- The results agree, if the first is one. -/
def Result.Le (r r' : Result τ) : Prop := ∀ x, r = some x → r' = some x

theorem Result.Le.refl (r : Result τ) : r.Le r := fun _ h => h

theorem Result.Le.andThen {r r' : Result τ} {next next' : Heap τ → Result τ} (h : r.Le r')
    (hnext : ∀ heap, (next heap).Le (next' heap)) : (r.andThen next).Le (r'.andThen next') := by
  match r, h with
  | none, _ => exact nofun
  | some (.error text), h =>
    rw [h _ rfl]
    exact Result.Le.refl _
  | some (.ok heap), h =>
    rw [h _ rfl]
    exact hnext heap

variable {call' : String → Pointer τ → Heap τ → Result τ}

theorem visitField_le (h : ∀ beanName bean heap, (call beanName bean heap).Le (call' beanName bean heap))
    (beanName : String) (addr i : Nat) (field : StructField τ) (heap : Heap τ) :
    (visitField P context call beanName addr i field heap).Le
      (visitField P context call' beanName addr i field heap) := by
  have hturn := turn_visitField P context beanName addr i field heap
  change ((fun call => visitField P context call beanName addr i field heap) call).Le
    ((fun call => visitField P context call beanName addr i field heap) call')
  generalize (fun call => visitField P context call beanName addr i field heap) = turn at hturn ⊢
  cases hturn with
  | skip => exact Result.Le.refl _
  | fail => exact Result.Le.refl _
  | assign => exact Result.Le.refl _
  | enter => exact h _ _ _

theorem fieldLoop_le (h : ∀ beanName bean heap, (call beanName bean heap).Le (call' beanName bean heap))
    (beanName : String) (addr : Nat) (fields : List (StructField τ)) (i : Nat) (heap : Heap τ) :
    (fieldLoop P context call beanName addr i fields heap).Le
      (fieldLoop P context call' beanName addr i fields heap) := by
  induction fields generalizing i heap with
  | nil => exact Result.Le.refl _
  | cons field fields ih => exact (visitField_le h beanName addr i field heap).andThen (ih (i + 1))

theorem findAndSet_le (fuel : Nat) (beanName : String) (bean : Pointer τ) (heap : Heap τ) :
    (findAndSet P context fuel beanName bean heap).Le
      (findAndSet P context (fuel + 1) beanName bean heap) := by
  induction fuel generalizing beanName bean heap with
  | zero => exact nofun
  | succ fuel ih =>
    unfold findAndSet
    split
    · exact Result.Le.refl _
    · exact fieldLoop_le ih _ _ _ _ _

theorem ioc_le (fuel : Nat) (order : List (String × Pointer τ)) (heap : Heap τ) :
    (ioc P context fuel order heap).Le (ioc P context (fuel + 1) order heap) := by
  induction order generalizing heap with
  | nil => exact Result.Le.refl _
  | cons e order ih => exact (findAndSet_le fuel e.1 e.2 heap).andThen ih

theorem ioc_mono {fuel fuel' : Nat} (hle : fuel ≤ fuel') {order : List (String × Pointer τ)}
    {heap : Heap τ} {x : Except String (Heap τ)} (h : ioc P context fuel order heap = some x) :
    ioc P context fuel' order heap = some x := by
  induction hle with
  | refl => exact h
  | step _ ih => exact ioc_le _ order heap x ih

/-! ## The whole context -/

variable {order order' : List (String × Pointer τ)}

/-- `Ioc` terminates, whatever the order. -/
theorem exists_returns (horder : order.Perm context.entries) (heap₀ : Heap τ) :
    ∃ x, Returns P context order heap₀ x := by
  have hmem : ∀ e ∈ order, e ∈ context.entries := fun e he => horder.mem_iff.mp he
  have hend := ioc_ends (nils P context heap₀ + 1) hmem (between_refl heap₀) (Nat.lt_succ_self _)
  cases hx : ioc P context (nils P context heap₀ + 1) order heap₀ with
  | none =>
    rw [hx] at hend
    exact hend.elim
  | some x => exact ⟨x, _, fun fuel hle => ioc_mono hle hx⟩

/-- What `Ioc` ends with: a panic that a bad bean explains, or fields that settle all beans. -/
theorem Returns.ends (horder : order.Perm context.entries) {x : Except String (Heap τ)}
    (h : Returns P context order heap₀ x) :
    Ends P context heap₀ heap₀ (fun heap => ∀ e ∈ context.entries, Settled P e.2 heap) (some x) := by
  obtain ⟨depth, hdepth⟩ := h
  have hmem : ∀ e ∈ order, e ∈ context.entries := fun e he => horder.mem_iff.mp he
  have hend := ioc_ends (max depth (nils P context heap₀ + 1)) hmem
    (between_refl heap₀) (Nat.lt_of_lt_of_le (Nat.lt_succ_self _) (Nat.le_max_right ..))
  rw [hdepth _ (Nat.le_max_left ..)] at hend
  exact hend.mono (Extends.refl heap₀) fun heap _ hall e he => hall e (horder.mem_iff.mpr he)

/-- When all beans are settled, a nil field with the tag has what the lookup gives it for some bean. -/
theorem fills_of_settled (hb : Between P context heap₀ heap)
    (hall : ∀ e ∈ context.entries, Settled P e.2 heap) (h : Autowired P context addr i field)
    (hnil : heap₀ addr i = none) : Fills P context addr i (heap addr i) := by
  obtain ⟨e, he, haddr, hf, htag, hkind⟩ := h
  obtain ⟨addr', haddr', hdone⟩ := hall e he
  cases haddr.symm.trans haddr'
  have hset : heap addr i ≠ none := (hdone i field hf htag).2 hkind
  rcases hb addr i with hsame | ⟨-, hfills⟩
  · exact absurd (hsame.trans hnil) hset
  · exact hfills

/-- A panic that no order avoids. -/
theorem Doomed.panics (h : Doomed P context heap₀) (horder : order.Perm context.entries) :
    ∃ text, Returns P context order heap₀ (.error text) := by
  obtain ⟨x, hx⟩ := exists_returns (P := P) horder heap₀
  cases x with
  | error text => exact ⟨text, hx⟩
  | ok heap =>
    obtain ⟨hb, -, hall⟩ := hx.ends horder
    obtain ⟨e, he, hdoomed⟩ := h
    obtain ⟨addr, haddr, hdone⟩ := hall e he
    rcases hdoomed with hnone | ⟨addr', i, field, haddr', hf, htag, hstruct | ⟨hkind, hnil, hchosen⟩⟩
    · rw [haddr] at hnone
      cases hnone
    · exact absurd hstruct (hdone i field hf htag).1
    · obtain ⟨field', hauto, hv, hsome⟩ :=
        fills_of_settled hb hall ⟨e, he, haddr', hf, htag, hkind⟩ hnil
      rw [hv, hchosen field' hauto] at hsome
      cases hsome

/-- If the beans agree, a bad bean cannot be saved by another one. -/
theorem Agree.doomed (hagree : Agree P context heap₀) {e : String × Pointer τ}
    (he : e ∈ context.entries) (hbad : Bad P context heap₀ e.2) : Doomed P context heap₀ := by
  refine ⟨e, he, hbad.imp_right ?_⟩
  rintro ⟨addr, i, field, haddr, hf, htag, hfault⟩
  refine ⟨addr, i, field, haddr, hf, htag, hfault.imp_right ?_⟩
  rintro ⟨hkind, hnil, hchosen⟩
  refine ⟨hkind, hnil, fun field' hauto => ?_⟩
  rw [← hchosen]
  exact hagree addr i field' field hauto ⟨e, he, haddr, hf, htag, hkind⟩ hnil

/-- If the beans agree, `Ioc` panics if and only if some bean is bad. -/
theorem returns_error_iff (hagree : Agree P context heap₀) (horder : order.Perm context.entries) :
    (∃ text, Returns P context order heap₀ (.error text)) ↔
      ∃ e ∈ context.entries, Bad P context heap₀ e.2 := by
  constructor
  · rintro ⟨text, h⟩
    exact h.ends horder
  · rintro ⟨e, he, hbad⟩
    exact (hagree.doomed he hbad).panics horder

theorem Returns.kept (horder : order.Perm context.entries)
    (h : Returns P context order heap₀ (.ok heap)) {a j : Nat}
    (hkeep : heap₀ a j ≠ none ∨ ∀ field, ¬ Autowired P context a j field) :
    heap a j = heap₀ a j := by
  obtain ⟨hb, -, -⟩ := h.ends horder
  rcases hb a j with hsame | ⟨hnil, field, hauto, -⟩
  · exact hsame
  · rcases hkeep with hne | hno
    · exact absurd hnil hne
    · exact absurd hauto (hno field)

theorem Returns.injected (hagree : Agree P context heap₀) (horder : order.Perm context.entries)
    (h : Returns P context order heap₀ (.ok heap)) (hauto : Autowired P context addr i field)
    (hnil : heap₀ addr i = none) : heap addr i = chosen P context field ∧ heap addr i ≠ none := by
  obtain ⟨hb, -, hall⟩ := h.ends horder
  obtain ⟨field', hauto', hv, hsome⟩ := fills_of_settled hb hall hauto hnil
  refine ⟨?_, Option.isSome_iff_ne_none.mp hsome⟩
  rw [hv]
  exact hagree addr i field' field hauto' hauto hnil

theorem returns_ok_unique (hagree : Agree P context heap₀) (horder : order.Perm context.entries)
    (horder' : order'.Perm context.entries) (h : Returns P context order heap₀ (.ok heap))
    (h' : Returns P context order' heap₀ (.ok heap')) : heap = heap' := by
  funext a j
  by_cases hauto : heap₀ a j = none ∧ ∃ field, Autowired P context a j field
  · obtain ⟨hnil, field, hauto⟩ := hauto
    rw [(h.injected hagree horder hauto hnil).1, (h'.injected hagree horder' hauto hnil).1]
  · have hkeep : heap₀ a j ≠ none ∨ ∀ field, ¬ Autowired P context a j field := by
      by_cases hnil : heap₀ a j = none
      · exact Or.inr fun field hf => hauto ⟨hnil, field, hf⟩
      · exact Or.inl hnil
    rw [h.kept horder hkeep, h'.kept horder' hkeep]

theorem Agree.orderIndependent (hagree : Agree P context heap₀) : OrderIndependent P context heap₀ where
  panics := fun _ _ horder horder' h =>
    (returns_error_iff hagree horder').mpr ((returns_error_iff hagree horder).mp h)
  injected := fun _ _ horder h _ _ _ hauto hnil => h.injected hagree horder hauto hnil
  kept := fun _ _ horder h _ _ hkeep => h.kept horder hkeep
  same := fun _ _ _ _ horder horder' h h' => returns_ok_unique hagree horder horder' h h'

/-- A field cannot be set to what two beans give it, unless they give it the same. -/
theorem OrderIndependent.agree (h : OrderIndependent P context heap₀)
    (horder : order.Perm context.entries) (hok : Returns P context order heap₀ (.ok heap)) :
    Agree P context heap₀ := by
  intro addr i field field' hauto hauto' hnil
  have hfield := (h.injected order heap horder hok addr i field hauto hnil).1
  have hfield' := (h.injected order heap horder hok addr i field' hauto' hnil).1
  rw [← hfield, ← hfield']

/-- The pointer types `*A`, `*Retagged` and `*C`. The structs `A` and `Retagged` differ in a tag only. -/
inductive Demo where
  | a
  | retagged
  | c
  deriving DecidableEq, Repr

/-- `A` has a dependency and a pointer to itself, and `C` points back to `A`. -/
def demo : Program Demo where
  kind := fun _ => .ptr
  string
    | .a => "*demo.A"
    | .retagged => "*demo.Retagged"
    | .c => "*demo.C"
  name := fun _ => ""
  fields
    | .a =>
      [{ name := "X", type := .c, tag := "autowrite" },
        { name := "Self", type := .a, tag := "autowrite" }]
    | .retagged =>
      [{ name := "X", type := .c, tag := "bean:\"Other\" autowrite", beanTag := "Other" },
        { name := "Self", type := .a, tag := "autowrite" }]
    | .c => [{ name := "Back", type := .a, tag := "autowrite" }]
  assignable := fun v t => v = t
  compile := fun _ => none
  fields_of_assignable := by
    intro v t _ h
    rw [of_decide_eq_true h]

/-- The pointer and interface fields of a result. -/
def observe (x : Except String (Heap Demo)) : Option (List (Option (Pointer Demo))) :=
  match x with
  | .ok heap => some [heap 0 0, heap 0 1, heap 1 0]
  | .error _ => none

theorem returns_of_observe {context : Context Demo} {order : List (String × Pointer Demo)}
    {heap₀ : Heap Demo} {fuel : Nat} {l : List (Option (Pointer Demo))}
    (h : (ioc demo context fuel order heap₀).map observe = some (some l)) :
    ∃ heap, Returns demo context order heap₀ (.ok heap) ∧ [heap 0 0, heap 0 1, heap 1 0] = l := by
  obtain ⟨x, hx, hobs⟩ := Option.map_eq_some_iff.mp h
  cases x with
  | error text => cases hobs
  | ok heap => exact ⟨heap, ⟨fuel, fun fuel' hle => ioc_mono hle hx⟩, Option.some.inj hobs⟩

/-- The beans `A` and `C`. -/
def cyclic : Context Demo where
  entries := [("demo.A", ⟨.a, some 0⟩), ("X", ⟨.c, some 1⟩)]
  distinct := by decide

/-- The struct `A` is in the context twice, as `A` and as `Retagged`. -/
def twoViews : Context Demo where
  entries :=
    [("demo.A", ⟨.a, some 0⟩), ("Retagged", ⟨.retagged, some 0⟩), ("X", ⟨.c, some 1⟩),
      ("Other", ⟨.c, some 2⟩)]
  distinct := by decide

end OwnX.Bean
