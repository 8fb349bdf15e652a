import OwnX.Bean.Bean

/-!
# The registration of beans (`bean/bean.go`, `basic/class.go`)

`AddBean` makes the name of a bean from the name of its type, whose part behind the dot it puts into title
case. `SetBean` does that to names without a dot. A name is taken once.

The title case is that of `golang.org/x/text/cases`, which is a parameter: how a text falls into words, what
counts as a letter, and the case mappings.
-/

namespace OwnX.Bean

/-- `cases.Title(language.Und)`, as far as it is left open. -/
structure Caser where
  words : List Char → List (List Char)
  /-- No character is outside the words. -/
  flatten_words : ∀ s, (words s).flatten = s
  isLetter : Char → Bool
  upper : Char → List Char
  lower : Char → List Char

/-- A text with its letters in lower case. -/
def Caser.lowerAll (C : Caser) (s : List Char) : List Char :=
  s.flatMap fun c => if C.isLetter c then C.lower c else [c]

/-- A word with its first letter in upper case and the remaining letters in lower case. -/
def Caser.titleWord (C : Caser) : List Char → List Char
  | [] => []
  | c :: s => if C.isLetter c then C.upper c ++ C.lowerAll s else c :: C.titleWord s

/-- `cases.Title(language.Und).String`. -/
def Caser.title (C : Caser) (s : String) : String :=
  String.ofList ((C.words s.toList).flatMap C.titleWord)

variable {τ : Type}

/-- `basic.GetClassName`, of a value of the type. -/
def getClassName (P : Program τ) (type : τ) : String := removeStar (P.string type)

/-- `strings.Split(s, ".")`. -/
def splitDots (s : String) : List String := (s.toList.splitOnP (· == '.')).map String.ofList

/-- `SetBean`; the error is the text of the panic. -/
def setBean (C : Caser) (context : Context τ) (beanName : String) (bean : Pointer τ) :
    Except String (Context τ) :=
  let beanName := if '.' ∈ beanName.toList then beanName else C.title beanName
  if (getBean context beanName).isSome then
    .error ("add bean fail. bean " ++ beanName ++ " already exists.")
  else .ok (context.set beanName bean)

/-- `AddBean`. -/
def addBean (P : Program τ) (C : Caser) (context : Context τ) (bean : Pointer τ) :
    Except String (Context τ) :=
  if P.kind bean.type = .struct then
    .error ("add bean fail. bean " ++ P.string bean.type ++ " must be interface or ptr.")
  else
    match splitDots (getClassName P bean.type) with
    | part₀ :: part₁ :: _ => setBean C context (part₀ ++ "." ++ C.title part₁) bean
    | _ => .error "runtime error: index out of range [1] with length 1"

/-- The calls that register a bean. -/
inductive Registration (τ : Type) where
  | setBean (beanName : String) (bean : Pointer τ)
  | addBean (bean : Pointer τ)

namespace Registration

def bean : Registration τ → Pointer τ
  | setBean _ bean | addBean bean => bean

/-- The name under which the call registers its bean, if there is one. -/
def key (P : Program τ) (C : Caser) : Registration τ → Option String
  | setBean beanName _ => some (if '.' ∈ beanName.toList then beanName else C.title beanName)
  | addBean bean =>
    match splitDots (getClassName P bean.type) with
    | part₀ :: part₁ :: _ => some (part₀ ++ "." ++ C.title part₁)
    | _ => none

end Registration

def register (P : Program τ) (C : Caser) (context : Context τ) :
    Registration τ → Except String (Context τ)
  | .setBean beanName bean => setBean C context beanName bean
  | .addBean bean => addBean P C context bean

/-- The context after a sequence of calls, none of which panics. -/
def registerAll (P : Program τ) (C : Caser) :
    List (Registration τ) → Context τ → Except String (Context τ)
  | [], context => .ok context
  | r :: rs, context =>
    match register P C context r with
    | .error text => .error text
    | .ok context' => registerAll P C rs context'

/-! ## Types with a name -/

/-- A name without a dot and without a star, such as every Go identifier. -/
def Identifier (s : String) : Prop := '.' ∉ s.toList ∧ '*' ∉ s.toList

/-- The pointer type `*pkg.name`, as `reflect` describes it. -/
structure PointsTo (P : Program τ) (type : τ) (pkg name : String) : Prop where
  kind : P.kind type = .ptr
  string : P.string type = "*" ++ pkg ++ "." ++ name
  pkg : Identifier pkg
  name : Identifier name
  /-- A value of a type is assignable to that type. -/
  assignable : P.assignable type type = true

/-- The visit of the field sets it to the bean, and goes on in the bean. -/
def Injects (P : Program τ) (context : Context τ) (addr i : Nat) (field : StructField τ) (heap : Heap τ)
    (bean : Pointer τ) : Prop :=
  ∀ call beanName, visitField P context call beanName addr i field heap =
    call field.name bean (heap.set addr i (some bean))

end OwnX.Bean
