import OwnX.Foundations.GoMap
import OwnX.Foundations.Text

/-!
# Tags (`tools/render.go`)

`ParseTags` copies a map, in the order in which Go ranges over it, which may be any order. A key with the
suffix `:obj` is copied without it.

What the code uses of `encoding/json` and `strconv` is collected in `Packages`. The values that `json` makes
are of a type `J`.
-/

namespace OwnX.Tools

variable {J : Type}

/-- What `ParseTags` uses of `strconv` and `encoding/json`. -/
structure Packages (J : Type) where
  /-- `strconv.Atoi`; `none` is an error. -/
  atoi : Text → Option Int
  /-- `strconv.ParseBool`. -/
  parseBool : Text → Option Bool
  /-- `json.Unmarshal` into an `interface{}`. -/
  unmarshal : Text → Option J
  /-- `json.Unmarshal` into a `map[string]interface{}`, with the text of its error. -/
  unmarshalMap : Text → Except Text J

/-- The `interface{}` values of the result. -/
inductive Value (J : Type) where
  | int (i : Int)
  | bool (b : Bool)
  | json (v : J)
  | string (s : Text)
  deriving DecidableEq

/-- `parseValue`. -/
def parseValue (lib : Packages J) (v : Text) : Value J :=
  match lib.atoi v with
  | some i => .int i
  | none =>
    match lib.parseBool v with
    | some b => .bool b
    | none =>
      match lib.unmarshal v with
      | some arrOrDict => .json arrOrDict
      | none => .string v

/-- `SuffixObj`. -/
def suffixObj : Text := ascii ":obj"

/-- The loop of `ParseTags` over the entries that are left. -/
def parseLoop (lib : Packages J) : List (Text × Text) → GoMap Text (Value J) →
    Except Text (GoMap Text (Value J))
  | [], parsed => .ok parsed
  | (k, v) :: tags, parsed =>
    if Text.hasSuffix k suffixObj then
      match lib.unmarshalMap v with
      | .error err =>
        .error (ascii "[prepare] failed to unmarshal tag. key=" ++ k ++ ascii ". " ++ err)
      | .ok subObj => parseLoop lib tags (parsed.set (Text.trimSuffix k suffixObj) (.json subObj))
    else parseLoop lib tags (parsed.set k (parseValue lib v))

/-- `ParseTags`, when the range over the map gives the entries in this order. -/
def parseTags (lib : Packages J) (order : List (Text × Text)) : Except Text (GoMap Text (Value J)) :=
  parseLoop lib order GoMap.empty

/-- Both calls fail, or both return the same map. -/
def SameOutcome (r r' : Except Text (GoMap Text (Value J))) : Prop :=
  match r, r' with
  | .error _, .error _ => True
  | .ok m, .ok m' => ∀ k, m.get? k = m'.get? k
  | _, _ => False

/-- Some entry cannot be parsed. -/
def Fails (lib : Packages J) (tags : GoMap Text Text) : Prop :=
  ∃ e ∈ tags.entries, Text.hasSuffix e.1 suffixObj = true ∧ ∃ err, lib.unmarshalMap e.2 = .error err

/-- A key and the same key with the suffix have different values. -/
def Collides (lib : Packages J) (tags : GoMap Text Text) : Prop :=
  ∃ k v v' subObj, Text.hasSuffix k suffixObj = false ∧ tags.get? k = some v ∧
    tags.get? (k ++ suffixObj) = some v' ∧ lib.unmarshalMap v' = .ok subObj ∧
    parseValue lib v ≠ .json subObj

end OwnX.Tools
