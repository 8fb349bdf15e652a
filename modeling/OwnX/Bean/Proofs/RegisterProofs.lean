import OwnX.Bean.Register
import OwnX.Foundations.Proofs.GoMapProofs

/-!
# Proofs: beans are found by the name of their type

A bean stays registered under its name. `findAndSet` looks for the name of the field's type as it is, and
`AddBean` has put the part behind the dot into title case, so the two agree exactly on the type names that
are in title case already.
-/

namespace OwnX.Bean

variable {τ : Type} {P : Program τ} {C : Caser} {context context' : Context τ} {bean : Pointer τ}
  {type : τ} {pkg name : String}

/-! ## Names -/

theorem PointsTo.className (h : PointsTo P type pkg name) :
    removeStar (P.string type) = pkg ++ "." ++ name := by
  have hlist : (P.string type).toList = '*' :: (pkg ++ "." ++ name).toList := by
    rw [h.string]
    simp [String.toList_append]
  rw [removeStar, hlist, List.erase_cons_head, String.ofList_toList]

theorem splitDots_append (hpkg : '.' ∉ pkg.toList) (hname : '.' ∉ name.toList) :
    splitDots (pkg ++ "." ++ name) = [pkg, name] := by
  have hlist : (pkg ++ "." ++ name).toList = pkg.toList ++ '.' :: name.toList := by
    simp [String.toList_append]
  have hne : ∀ {s : List Char}, '.' ∉ s → ∀ c ∈ s, (c == '.') = false := by
    intro s hs c hc
    refine beq_eq_false_iff_ne.2 fun heq => ?_
    rw [heq] at hc
    exact hs hc
  rw [splitDots, hlist, List.splitOnP_append_cons_of_forall_mem (hne hpkg) '.' rfl,
    List.splitOnP_eq_singleton (hne hname)]
  simp

/-! ## Registrations -/

theorem getBean_set (context : Context τ) (key key' : String) (bean : Pointer τ) :
    getBean (context.set key bean) key' = if key == key' then some bean else getBean context key' :=
  GoMap.get?_set context key bean key'

theorem setBean_ok {beanName : String} (h : setBean C context beanName bean = .ok context') :
    ∃ key, (Registration.setBean beanName bean).key P C = some key ∧ getBean context key = none ∧
      context' = context.set key bean := by
  unfold setBean at h
  dsimp only at h
  by_cases hfound : (getBean context (if '.' ∈ beanName.toList then beanName else C.title beanName)).isSome
  · rw [if_pos hfound] at h
    cases h
  · rw [if_neg hfound] at h
    exact ⟨_, rfl, Option.not_isSome_iff_eq_none.1 hfound, (Except.ok.inj h).symm⟩

theorem dot_mem (pkg name : String) : '.' ∈ (pkg ++ "." ++ name).toList := by
  simp [String.toList_append]

/-- A registration that does not panic takes a name that was free. -/
theorem register_ok {r : Registration τ} (h : register P C context r = .ok context') :
    ∃ key, r.key P C = some key ∧ getBean context key = none ∧ context' = context.set key r.bean := by
  cases r with
  | setBean beanName bean' => exact setBean_ok h
  | addBean bean' =>
    rw [register, addBean] at h
    split at h
    · cases h
    · split at h
      · next part₀ part₁ _ hsplit =>
        obtain ⟨key, hkey, hfree, hset⟩ := setBean_ok (P := P) h
        rw [Registration.key, if_pos (dot_mem _ _)] at hkey
        exact ⟨key, by rw [Registration.key, hsplit, ← hkey], hfree, hset⟩
      · cases h

/-- A bean that is registered is not displaced. -/
theorem register_keeps {r : Registration τ} (h : register P C context r = .ok context') {key : String}
    (hkey : getBean context key = some bean) : getBean context' key = some bean := by
  obtain ⟨key', -, hfree, rfl⟩ := register_ok h
  have hne : ¬(key' == key) = true := by
    intro heq
    rw [beq_iff_eq.1 heq, hkey] at hfree
    cases hfree
  rw [getBean_set, if_neg hne]
  exact hkey

theorem registerAll_keeps {rs : List (Registration τ)} (h : registerAll P C rs context = .ok context')
    {key : String} (hkey : getBean context key = some bean) : getBean context' key = some bean := by
  induction rs generalizing context with
  | nil =>
    obtain rfl := Except.ok.inj h
    exact hkey
  | cons r rs ih =>
    rw [registerAll] at h
    split at h
    · cases h
    · next hr => exact ih h (register_keeps hr hkey)

/-- Every bean that was registered is found under its name. -/
theorem getBean_of_mem {rs : List (Registration τ)} (h : registerAll P C rs context = .ok context')
    {r : Registration τ} (hr : r ∈ rs) {key : String} (hkey : r.key P C = some key) :
    getBean context' key = some r.bean := by
  induction rs generalizing context with
  | nil => cases hr
  | cons r' rs ih =>
    rw [registerAll] at h
    split at h
    · cases h
    · next hr' =>
      rcases List.mem_cons.1 hr with rfl | hr
      · obtain ⟨key', hkey', -, rfl⟩ := register_ok hr'
        obtain rfl : key = key' := Option.some.inj (hkey.symm.trans hkey')
        refine registerAll_keeps h ?_
        rw [getBean_set, if_pos (beq_self_eq_true key)]
      · exact ih h hr

/-- Every bean that is found was there before, or was registered under its name. -/
theorem mem_of_getBean {rs : List (Registration τ)} (h : registerAll P C rs context = .ok context')
    {key : String} (hkey : getBean context' key = some bean) :
    getBean context key = some bean ∨ ∃ r ∈ rs, r.key P C = some key ∧ r.bean = bean := by
  induction rs generalizing context with
  | nil =>
    obtain rfl := Except.ok.inj h
    exact .inl hkey
  | cons r rs ih =>
    rw [registerAll] at h
    split at h
    · cases h
    · next hr =>
      rcases ih h with hbefore | ⟨r', hr', hr'key, hr'bean⟩
      · obtain ⟨key', hkey', -, rfl⟩ := register_ok hr
        rw [getBean_set] at hbefore
        split at hbefore
        · next heq =>
          exact .inr ⟨r, List.mem_cons_self, hkey'.trans (congrArg some (beq_iff_eq.1 heq)),
            Option.some.inj hbefore⟩
        · exact .inl hbefore
      · exact .inr ⟨r', List.mem_cons_of_mem _ hr', hr'key, hr'bean⟩

/-- `AddBean` uses the name of the package and the title form of the type's name. -/
theorem PointsTo.key_addBean (hnamed : PointsTo P bean.type pkg name) (C : Caser) :
    (Registration.addBean bean).key P C = some (pkg ++ "." ++ C.title name) := by
  rw [Registration.key, getClassName, hnamed.className, splitDots_append hnamed.pkg.1 hnamed.name.1]

theorem PointsTo.addBean_eq (hnamed : PointsTo P bean.type pkg name) (C : Caser) (context : Context τ) :
    addBean P C context bean = setBean C context (pkg ++ "." ++ C.title name) bean := by
  have hkind : P.kind bean.type ≠ .struct := by
    rw [hnamed.kind]
    exact nofun
  rw [addBean, if_neg hkind, getClassName, hnamed.className,
    splitDots_append hnamed.pkg.1 hnamed.name.1]

/-- In a context that was registered, the beans under a name are those that were registered under it. -/
theorem getBean_iff {rs : List (Registration τ)} (h : registerAll P C rs {} = .ok context) {key : String} :
    getBean context key = some bean ↔ ∃ r ∈ rs, r.key P C = some key ∧ r.bean = bean := by
  constructor
  · intro hkey
    exact (mem_of_getBean h hkey).resolve_left nofun
  · rintro ⟨r, hr, hkey, rfl⟩
    exact getBean_of_mem h hr hkey

/-! ## The lookup -/

variable {field : StructField τ} {addr i : Nat} {heap : Heap τ}

/-- Without a bean of the field's own name, the name of its type decides. -/
theorem PointsTo.lookup_eq (hnamed : PointsTo P field.type pkg name) (htag : field.beanTag = "")
    (hown : getBean context field.name = none) :
    lookup P context field = (pkg ++ "." ++ name, getBean context (pkg ++ "." ++ name)) := by
  have hkind : P.kind field.type ≠ .interface := by
    rw [hnamed.kind]
    exact nofun
  simp only [lookup, htag, if_true, hown, hnamed.className, if_neg hkind]
  cases getBean context (pkg ++ "." ++ name) <;> rfl

/-- A visit of the field ends in a panic, or sets the field to the bean with the name of its type. -/
theorem PointsTo.visitField_eq (hnamed : PointsTo P field.type pkg name)
    (hauto : isAutowrite field.tag = true) (htag : field.beanTag = "")
    (hown : getBean context field.name = none) (hnil : heap addr i = none)
    (call : String → Pointer τ → Heap τ → Result τ) (beanName : String) :
    (field.canSet = true ∧ ∃ b, getBean context (pkg ++ "." ++ name) = some b ∧
      P.assignable b.type field.type = true ∧
      visitField P context call beanName addr i field heap =
        call field.name { b with type := field.type } (heap.set addr i (setValue P field b))) ∨
    ((∀ b, field.canSet = true → getBean context (pkg ++ "." ++ name) = some b →
        P.assignable b.type field.type = false) ∧
      ∃ text, visitField P context call beanName addr i field heap = some (.error text)) := by
  have hother : P.kind field.type ≠ .other := by
    rw [hnamed.kind]
    exact nofun
  have hstruct : P.kind field.type ≠ .struct := by
    rw [hnamed.kind]
    exact nofun
  rw [visitField, if_neg hother, hauto, if_neg (by simp), if_neg hstruct, hnil, if_neg (by simp),
    hnamed.lookup_eq htag hown]
  cases hset : field.canSet with
  | false =>
    rw [if_pos (by simp), iocFail]
    exact Or.inr ⟨nofun, _, rfl⟩
  | true =>
    rw [if_neg (by simp)]
    cases hfound : getBean context (pkg ++ "." ++ name) with
    | none =>
      dsimp only [iocFail]
      exact Or.inr ⟨nofun, _, rfl⟩
    | some b =>
      cases hassign : P.assignable b.type field.type with
      | false =>
        refine Or.inr ⟨fun b' _ hb' => ?_, ?_⟩
        · obtain rfl := Option.some.inj hb'
          exact hassign
        · dsimp only
          rw [hassign, if_pos (by simp)]
          exact ⟨_, rfl⟩
      | true =>
        refine Or.inl ⟨rfl, b, rfl, hassign, ?_⟩
        rw [hnamed.kind]
        simp [hassign]

/-- The visit sets the field to a pointer of its own type exactly if it can be set, and a bean that fits
and points to the same struct is registered under the type's name. -/
theorem PointsTo.injects_iff (hnamed : PointsTo P field.type pkg name)
    (hauto : isAutowrite field.tag = true) (htag : field.beanTag = "")
    (hown : getBean context field.name = none) (hnil : heap addr i = none) (a : Nat) :
    Injects P context addr i field heap ⟨field.type, some a⟩ ↔
      field.canSet = true ∧ ∃ b, getBean context (pkg ++ "." ++ name) = some b ∧
        P.assignable b.type field.type = true ∧ b.addr = some a := by
  constructor
  · intro h
    -- a call that tells the pointer with the address `a` from the others
    have hvisit := h (fun _ p _ => if p.addr = some a then some (.ok heap) else none) ""
    rcases hnamed.visitField_eq hauto htag hown hnil
        (fun _ p _ => if p.addr = some a then some (.ok heap) else none) ""
      with ⟨hset, b, hb, hassign, hcall⟩ | ⟨-, text, htext⟩
    · rw [hcall, if_pos rfl] at hvisit
      refine ⟨hset, b, hb, hassign, ?_⟩
      by_contra hne
      rw [if_neg hne] at hvisit
      cases hvisit
    · rw [htext, if_pos rfl] at hvisit
      cases hvisit
  · rintro ⟨hset, b, hb, hassign, haddr⟩ call beanName
    rcases hnamed.visitField_eq hauto htag hown hnil call beanName
      with ⟨-, b', hb', -, hcall⟩ | ⟨hnone, -⟩
    · obtain rfl := Option.some.inj (hb'.symm.trans hb)
      rw [hcall]
      simp only [setValue, hnamed.kind, if_true, haddr, Option.map_some]
    · rw [hnone b hset hb] at hassign
      cases hassign

/-- In every context that calls of `AddBean` and `SetBean` have made, with a pointer to a struct of the type
`*pkg.name` among those that were added: a nil `autowrite` field of this type, without a `bean` tag and
without a bean of its own name, is set to that pointer exactly if it can be set and the type's name is in
title case, or another call has registered the same struct under the type's name. -/
theorem addBean_injects_iff {a : Nat} {rs : List (Registration τ)}
    (hnamed : PointsTo P type pkg name) (hrun : registerAll P C rs {} = .ok context)
    (hadd : .addBean ⟨type, some a⟩ ∈ rs) (htype : field.type = type)
    (hauto : isAutowrite field.tag = true) (htag : field.beanTag = "")
    (hown : getBean context field.name = none) (hnil : heap addr i = none) :
    Injects P context addr i field heap ⟨type, some a⟩ ↔
      field.canSet = true ∧ (C.title name = name ∨
        ∃ r ∈ rs, r ≠ .addBean ⟨type, some a⟩ ∧ r.key P C = some (pkg ++ "." ++ name) ∧
          P.assignable r.bean.type type = true ∧ r.bean.addr = some a) := by
  subst htype
  have hkey : (Registration.addBean (⟨field.type, some a⟩ : Pointer τ)).key P C =
      some (pkg ++ "." ++ C.title name) := hnamed.key_addBean C
  rw [hnamed.injects_iff hauto htag hown hnil]
  refine and_congr_right fun _ => ⟨?_, ?_⟩
  · rintro ⟨b, hb, hassign, haddr⟩
    obtain ⟨r, hr, hrkey, rfl⟩ := (getBean_iff hrun).1 hb
    by_cases hadded : r = .addBean ⟨field.type, some a⟩
    · left
      rw [hadded, hkey, Option.some.injEq] at hrkey
      exact String.append_right_inj _ |>.1 hrkey
    · exact .inr ⟨r, hr, hadded, hrkey, hassign, haddr⟩
  · rintro (htitle | ⟨r, hr, -, hrkey, hassign, haddr⟩)
    · rw [htitle] at hkey
      exact ⟨_, getBean_of_mem hrun hadd hkey, hnamed.assignable, rfl⟩
    · exact ⟨_, getBean_of_mem hrun hr hrkey, hassign, haddr⟩

/-! ## Two types -/

/-- The title case of texts that are one word of ASCII characters. -/
def asciiCaser : Caser where
  words := fun s => [s]
  flatten_words := fun s => by simp
  isLetter := Char.isAlpha
  upper := fun c => [c.toUpper]
  lower := fun c => [c.toLower]

/-- The pointer types `*dao.Order` and `*dao.OrderDao`. -/
inductive Dao where
  | order
  | orderDao
  deriving DecidableEq, Repr

/-- Each struct has a field of its own pointer type. -/
def daos : Program Dao where
  kind := fun _ => .ptr
  string
    | .order => "*dao.Order"
    | .orderDao => "*dao.OrderDao"
  name := fun _ => ""
  fields := fun t => [{ name := "Next", type := t, tag := "autowrite" }]
  assignable := fun v t => v = t
  compile := fun _ => none
  fields_of_assignable := by
    intro v t _ h
    rw [of_decide_eq_true h]

/-- The context with one bean. -/
theorem PointsTo.registerAll_one (hnamed : PointsTo P bean.type pkg name) (C : Caser) :
    registerAll P C [.addBean bean] {} =
      .ok (({} : Context τ).set (pkg ++ "." ++ C.title name) bean) := by
  have hset : setBean C ({} : Context τ) (pkg ++ "." ++ C.title name) bean =
      .ok (({} : Context τ).set (pkg ++ "." ++ C.title name) bean) := by
    simp only [setBean, if_pos (dot_mem _ _)]
    rfl
  simp only [registerAll, register, hnamed.addBean_eq, hset]

/-- A bean of the type `*dao.Order` is found. -/
theorem addBean_injects_iff_order :
    ∃ context, registerAll daos asciiCaser [.addBean ⟨.order, some 1⟩] {} = .ok context ∧
      Injects daos context 0 0 { name := "Next", type := .order, tag := "autowrite" } (fun _ _ => none)
        ⟨.order, some 1⟩ := by
  have hnamed : PointsTo daos .order "dao" "Order" :=
    ⟨rfl, rfl, ⟨by decide, by decide⟩, ⟨by decide, by decide⟩, rfl⟩
  have htitle : asciiCaser.title "Order" = "Order" := by decide
  have hrun : registerAll daos asciiCaser [.addBean ⟨.order, some 1⟩] {} = .ok _ :=
    hnamed.registerAll_one asciiCaser
  rw [htitle] at hrun
  refine ⟨_, hrun, (addBean_injects_iff hnamed hrun List.mem_cons_self rfl ?_ rfl ?_ rfl).2
    ⟨rfl, Or.inl htitle⟩⟩
  · decide
  · decide

/-- The text of a panic. -/
def panicText : Except String (Heap τ) → Option String
  | .error text => some text
  | .ok _ => none

/-- A bean of the type `*dao.OrderDao` is registered as `dao.Orderdao`, and not found. -/
theorem orderDao_not_found :
    ∃ context, registerAll daos asciiCaser [.addBean ⟨.orderDao, some 1⟩] {} = .ok context ∧
      getBean context "dao.Orderdao" = some ⟨.orderDao, some 1⟩ ∧
      (findAndSet daos context 1 "bean" ⟨.orderDao, some 1⟩ fun _ _ => none).map panicText =
        some (some ("ioc autowrite fail. dependent bean not found. Bean=bean " ++
          "DependentBean=dao.OrderDao.")) := by
  have hnamed : PointsTo daos .orderDao "dao" "OrderDao" :=
    ⟨rfl, rfl, ⟨by decide, by decide⟩, ⟨by decide, by decide⟩, rfl⟩
  have htitle : asciiCaser.title "OrderDao" = "Orderdao" := by decide
  have hrun : registerAll daos asciiCaser [.addBean ⟨.orderDao, some 1⟩] {} = .ok _ :=
    hnamed.registerAll_one asciiCaser
  rw [htitle] at hrun
  refine ⟨_, hrun, ?_, ?_⟩
  · decide
  · decide

end OwnX.Bean
