import OwnX.Foundations.GoMap

/-!
# Dependency injection (`bean/bean.go`)

`Ioc` visits the beans of the context in the order in which Go ranges over a map, which may be any
order. `findAndSet` sets those fields of a bean that are nil and carry the `autowrite` tag, and goes on
in each bean that it has put into a pointer field.

What `reflect` says of the types of a program is a parameter. A struct is known by its address and a
field by its number. A pointer carries its type, since two pointers to one struct may have types whose
tags differ: such types convert into each other.
-/

namespace OwnX.Bean

/-- `reflect.Kind`, as far as `findAndSet` distinguishes it. -/
inductive Kind where
  | interface
  | ptr
  | struct
  | other
  deriving DecidableEq, Repr

/-- `reflect.StructField`, and whether the field can be set. -/
structure StructField (τ : Type) where
  name : String
  type : τ
  tag : String
  /-- `Tag.Get("bean")`. -/
  beanTag : String := ""
  /-- `CanSet`: the field is exported. -/
  canSet : Bool := true

/-- The types of a program, as `reflect` describes them, and the regular expressions. -/
structure Program (τ : Type) where
  kind : τ → Kind
  /-- `String()`. -/
  string : τ → String
  /-- `Name()`. -/
  name : τ → String
  /-- The fields of the struct that a pointer type points to. -/
  fields : τ → List (StructField τ)
  /-- A value of the first type is assignable to the second. -/
  assignable : τ → τ → Bool
  /-- `regexp.Compile`; a pattern is given by its `ReplaceAllString`. -/
  compile : String → Option (String → String → String)
  /-- A pointer is assignable to pointer types with the same struct only. -/
  fields_of_assignable : ∀ v t, kind t = .ptr → assignable v t = true → fields v = fields t

/-- A pointer to a struct, with its type. -/
structure Pointer (τ : Type) where
  type : τ
  addr : Option Nat
  deriving DecidableEq, Repr

/-- The pointer and interface fields of the structs, by address and field number. -/
abbrev Heap (τ : Type) := Nat → Nat → Option (Pointer τ)

/-- `beanContext.m`. -/
abbrev Context (τ : Type) := GoMap String (Pointer τ)

variable {τ : Type}

/-- `GetBean`. -/
def getBean (context : Context τ) (beanName : String) : Option (Pointer τ) := context.get? beanName

/-! ## The tag -/

/-- A character that `\b` counts as part of a word. -/
def isWord (c : Char) : Bool := c.isAlphanum || c = '_'

/-- `AUTOWRITE_REG` matches from some position on; `before` is the character before the text. -/
def matchAutowrite (before : Option Char) : List Char → Bool
  | [] => false
  | c :: s =>
    ((!before.any isWord) && "autowrite".toList.isPrefixOf (c :: s) &&
      !((c :: s).drop "autowrite".length).head?.any isWord) || matchAutowrite (some c) s

/-- `isAutowrite`. -/
def isAutowrite (tag : String) : Bool := matchAutowrite none tag.toList

/-! ## The lookup -/

/-- `tools.Replace`. -/
def replace (P : Program τ) (str reg newStr : String) : String :=
  match P.compile reg with
  | none => str
  | some replaceAllString => replaceAllString str newStr

/-- `strings.Replace(s, "*", "", 1)`. -/
def removeStar (s : String) : String := String.ofList (s.toList.erase '*')

/-- The lookup of a dependency: `dependentBeanName` and `propBean`. -/
def lookup (P : Program τ) (context : Context τ) (field : StructField τ) :
    String × Option (Pointer τ) :=
  let dependentBeanName := if field.beanTag = "" then field.name else field.beanTag
  match getBean context dependentBeanName with
  | some propBean => (dependentBeanName, some propBean)
  | none =>
    let dependentBeanName := removeStar (P.string field.type)
    match getBean context dependentBeanName with
    | some propBean => (dependentBeanName, some propBean)
    | none =>
      if P.kind field.type = .interface then
        let dependentBeanName := replace P (P.string field.type) (P.name field.type) field.name
        (dependentBeanName, getBean context dependentBeanName)
      else (dependentBeanName, none)

/-! ## The injection -/

/-- What a call ends with: the fields, or the text of the panic. `none` says that the fuel ran out. -/
abbrev Result (τ : Type) := Option (Except String (Heap τ))

/-- The code goes on unless there was a panic. -/
def Result.andThen (r : Result τ) (next : Heap τ → Result τ) : Result τ :=
  match r with
  | none => none
  | some (.error text) => some (.error text)
  | some (.ok heap) => next heap

/-- A panic of `findAndSet`. -/
def iocFail (what beanName dependentBean : String) : Result τ :=
  some (.error ("ioc autowrite fail. " ++ what ++ ". Bean=" ++ beanName ++ " DependentBean=" ++
    dependentBean ++ "."))

/-- What a field holds once it is set: a pointer field has its own type, and is still nil if the
pointer is. -/
def setValue (P : Program τ) (field : StructField τ) (propBean : Pointer τ) : Option (Pointer τ) :=
  if P.kind field.type = .ptr then
    propBean.addr.map fun addr => { type := field.type, addr := some addr }
  else some propBean

/-- What the lookup gives a field, if it can be set and the bean that is found fits. -/
def chosen (P : Program τ) (context : Context τ) (field : StructField τ) : Option (Pointer τ) :=
  if field.canSet then
    (lookup P context field).2.bind fun propBean =>
      if P.assignable propBean.type field.type then setValue P field propBean else none
  else none

/-- A write to one field. -/
def Heap.set (heap : Heap τ) (addr i : Nat) (value : Option (Pointer τ)) : Heap τ :=
  fun a j => if a = addr ∧ j = i then value else heap a j

/-- One turn of the loop of `findAndSet`, for the field `i` of the struct at `addr`. The recursive call
is `call`. -/
def visitField (P : Program τ) (context : Context τ) (call : String → Pointer τ → Heap τ → Result τ)
    (beanName : String) (addr i : Nat) (field : StructField τ) (heap : Heap τ) : Result τ :=
  if P.kind field.type = .other then some (.ok heap)
  else if !isAutowrite field.tag then some (.ok heap)
  else if P.kind field.type = .struct then
    iocFail "dependent bean is not ptr or interface" beanName field.name
  else if (heap addr i).isSome then some (.ok heap)
  else if !field.canSet then iocFail "field can not set" beanName field.name
  else
    match lookup P context field with
    | (dependentBeanName, none) => iocFail "dependent bean not found" beanName dependentBeanName
    | (_, some propBean) =>
      if !P.assignable propBean.type field.type then
        some (.error ("reflect.Set: value of type " ++ P.string propBean.type ++
          " is not assignable to type " ++ P.string field.type))
      else if P.kind field.type = .ptr then
        call field.name { propBean with type := field.type }
          (heap.set addr i (setValue P field propBean))
      else some (.ok (heap.set addr i (setValue P field propBean)))

/-- The loop of `findAndSet` from the field `i` on. -/
def fieldLoop (P : Program τ) (context : Context τ) (call : String → Pointer τ → Heap τ → Result τ)
    (beanName : String) (addr : Nat) : Nat → List (StructField τ) → Heap τ → Result τ
  | _, [], heap => some (.ok heap)
  | i, field :: fields, heap =>
    (visitField P context call beanName addr i field heap).andThen
      (fieldLoop P context call beanName addr (i + 1) fields)

/-- `findAndSet`, to a depth of `fuel` calls. -/
def findAndSet (P : Program τ) (context : Context τ) : Nat → String → Pointer τ → Heap τ → Result τ
  | 0, _, _, _ => none
  | fuel + 1, beanName, bean, heap =>
    match bean.addr with
    | none => some (.error "reflect: call of reflect.Value.NumField on zero Value")
    | some addr =>
      fieldLoop P context (findAndSet P context fuel) beanName addr 0 (P.fields bean.type) heap

/-- `Ioc`, when the range over the map gives the entries in this order. -/
def ioc (P : Program τ) (context : Context τ) (fuel : Nat) :
    List (String × Pointer τ) → Heap τ → Result τ
  | [], heap => some (.ok heap)
  | (beanName, bean) :: order, heap =>
    (findAndSet P context fuel beanName bean heap).andThen (ioc P context fuel order)

/-- `Ioc` terminates with `r` when it visits the beans in this order. -/
def Returns (P : Program τ) (context : Context τ) (order : List (String × Pointer τ)) (heap : Heap τ)
    (r : Except String (Heap τ)) : Prop :=
  ∃ depth, ∀ fuel ≥ depth, ioc P context fuel order heap = some r

/-- The field `i` of the struct at `addr` is a pointer or interface field with the `autowrite` tag, in
the type of some bean. -/
def Autowired (P : Program τ) (context : Context τ) (addr i : Nat) (field : StructField τ) : Prop :=
  ∃ e ∈ context.entries, e.2.addr = some addr ∧ (P.fields e.2.type)[i]? = some field ∧
    isAutowrite field.tag = true ∧
    (P.kind field.type = .ptr ∨ P.kind field.type = .interface)

/-- The order of the visits makes no difference: there is a panic in every order or in none, and without
one the nil fields with the tag are set to what the lookup gives, the other fields are left alone, and the
fields are the same. -/
structure OrderIndependent (P : Program τ) (context : Context τ) (heap₀ : Heap τ) : Prop where
  panics : ∀ order order', order.Perm context.entries → order'.Perm context.entries →
    (∃ text, Returns P context order heap₀ (.error text)) →
      ∃ text, Returns P context order' heap₀ (.error text)
  injected : ∀ order heap, order.Perm context.entries → Returns P context order heap₀ (.ok heap) →
    ∀ addr i field, Autowired P context addr i field → heap₀ addr i = none →
      heap addr i = chosen P context field ∧ heap addr i ≠ none
  kept : ∀ order heap, order.Perm context.entries → Returns P context order heap₀ (.ok heap) →
    ∀ addr i, heap₀ addr i ≠ none ∨ (∀ field, ¬ Autowired P context addr i field) →
      heap addr i = heap₀ addr i
  same : ∀ order order' heap heap', order.Perm context.entries → order'.Perm context.entries →
    Returns P context order heap₀ (.ok heap) → Returns P context order' heap₀ (.ok heap') →
      heap = heap'

/-- Beans that point to the same struct agree on what the lookup gives its nil fields: each field that has
the tag in several of their types is given the same. -/
def Agree (P : Program τ) (context : Context τ) (heap₀ : Heap τ) : Prop :=
  ∀ addr i field field', Autowired P context addr i field → Autowired P context addr i field' →
    heap₀ addr i = none → chosen P context field = chosen P context field'

/-- Some bean is nil, or has a struct field with the tag, or a nil field that no bean with its struct can
set. -/
def Doomed (P : Program τ) (context : Context τ) (heap₀ : Heap τ) : Prop :=
  ∃ e ∈ context.entries, e.2.addr = none ∨ ∃ addr i field, e.2.addr = some addr ∧
    (P.fields e.2.type)[i]? = some field ∧ isAutowrite field.tag = true ∧
    (P.kind field.type = .struct ∨
      (P.kind field.type = .ptr ∨ P.kind field.type = .interface) ∧ heap₀ addr i = none ∧
        ∀ field', Autowired P context addr i field' → chosen P context field' = none)

end OwnX.Bean
