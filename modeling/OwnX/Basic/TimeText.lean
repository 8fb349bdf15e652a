import OwnX.Basic.Time
import OwnX.Foundations.Calendar

/-!
# Times as texts (`basic/time.go`, `basic/time_ms.go`, `basic/time_standard.go`)

What the three types are written as: in JSON, as strings and in a database column. A time is written as the
clock of its own location shows it, without the location.
-/

namespace OwnX.Basic

/-! ## Writing -/

/-- `MarshalJSON` along the layout of the type. -/
def marshalJSON (zone : LocalZone) (layout : Text) (t : GoTime) : Text :=
  if t.isZero then ascii "\"\"" else ascii "\"" ++ t.format zone layout ++ ascii "\""

def Time.marshalJSON (zone : LocalZone) (t : Time) : Text := Basic.marshalJSON zone timeFormart t

def TimeMs.marshalJSON (zone : LocalZone) (t : TimeMs) : Text :=
  Basic.marshalJSON zone (timeFormart ++ ascii ".000") t

def TimeStandard.marshalJSON (zone : LocalZone) (t : TimeStandard) : Text :=
  Basic.marshalJSON zone timeFormart t

/-- `String` along the layout of the type. -/
def string (zone : LocalZone) (layout : Text) (t : GoTime) : Text :=
  if t.isZero then [] else t.format zone layout

def Time.string (zone : LocalZone) (t : Time) : Text := Basic.string zone timeFormart t

def TimeMs.string (zone : LocalZone) (t : TimeMs) : Text := Basic.string zone (timeFormart ++ ascii ".000") t

def TimeStandard.string (zone : LocalZone) (t : TimeStandard) : Text := Basic.string zone timeFormart t

/-- `UTCString`, which the three types have in common. -/
def utcString (zone : LocalZone) (t : GoTime) : Text :=
  if t.isZero then [] else ({ t with loc := .utc } : GoTime).format zone (ascii "2006-01-02T15:04:05Z")

def Time.utcString (zone : LocalZone) (t : Time) : Text := Basic.utcString zone t

def TimeMs.utcString (zone : LocalZone) (t : TimeMs) : Text := Basic.utcString zone t

def TimeStandard.utcString (zone : LocalZone) (t : TimeStandard) : Text := Basic.utcString zone t

/-! ## Reading a string -/

/-- A new value, read from a text. -/
def newFrom (zone : LocalZone) (str : Text) : Outcome × GoTime :=
  if str ≠ [] ∧ str ≠ ascii "null" then unmarshalJSON zone GoTime.zero (ascii "\"" ++ str ++ ascii "\"")
  else (.noError, GoTime.zero)

/-- `NewTime` drops the error. -/
def newTime (zone : LocalZone) (str : Text) : Time := (newFrom zone str).2

/-- `NewTimsMs` drops the error. -/
def newTimsMs (zone : LocalZone) (str : Text) : TimeMs := (newFrom zone str).2

def newTimeStandard (zone : LocalZone) (str : Text) : Outcome × TimeStandard := newFrom zone str

/-! ## Columns of a database -/

/-- `driver.Value`, as `Value` returns it. -/
inductive DriverValue where
  | nil
  | string (s : Text)
deriving DecidableEq

/-- What the text of a missing time is in a column. -/
def noDate : Text := ascii "0000-00-00 00:00:00"

def Time.value (zone : LocalZone) (t : Time) : DriverValue :=
  if t.isZero then .string noDate else .string (t.string zone)

def TimeMs.value (zone : LocalZone) (t : TimeMs) : DriverValue :=
  if t.isZero then .nil else .string (TimeMs.string zone t)

def TimeStandard.value (zone : LocalZone) (t : TimeStandard) : DriverValue :=
  if t.isZero then .nil else .string (TimeStandard.string zone t)

/-- What a driver hands to `Scan`. -/
inductive Column where
  | nil
  | time (t : GoTime)
  | bytes (b : Text)
  | other
deriving DecidableEq

/-- What a driver hands to `Scan` for a column that a value was written to. -/
abbrev Driver := DriverValue → Column

/-- The driver hands back the bytes of a text that was stored, and nil for nil. A driver may as well hand back
a string, which is not among the cases of `Scan`, or a `time.Time`. -/
structure Driver.HandsBytes (driver : Driver) : Prop where
  nil : driver .nil = .nil
  text : ∀ s, driver (.string s) = .bytes s

/-- `Scan` of a text. -/
def scanText (zone : LocalZone) (t : GoTime) (str : Text) : Outcome × GoTime :=
  if str = [] ∨ str = ascii "\"\"" ∨ str = ascii "null" ∨ str = noDate then (.noError, t)
  else
    match GoTime.parseInLocation zone timeFormart str .localZone with
    | none => (.error, t)
    | some now => (.noError, now)

def Time.scan (zone : LocalZone) (t : Time) : Column → Outcome × Time
  | .nil => (.noError, t)
  | .time now => (.noError, now)
  | .bytes str => scanText zone t str
  | .other => (.error, t)

/-- `Scan` of `TimeMs` and of `TimeStandard`. `none` is the panic of the type assertion. -/
def scanBytes (zone : LocalZone) (t : GoTime) : Column → Option (Outcome × GoTime)
  | .nil => some (.noError, t)
  | .bytes str => some (scanText zone t str)
  | _ => none

def TimeMs.scan (zone : LocalZone) (t : TimeMs) (val : Column) : Option (Outcome × TimeMs) :=
  scanBytes zone t val

def TimeStandard.scan (zone : LocalZone) (t : TimeStandard) (val : Column) : Option (Outcome × TimeStandard) :=
  scanBytes zone t val

/-! ## Times that can be read back -/

/-- The time without what is less than `unit` nanoseconds. -/
def truncated (unit : Int) (t : GoTime) : GoTime := { t with instant := t.instant - t.instant % unit }

/-- A time that can be read back from what the local clock shows of it, up to `unit` nanoseconds. There is no
such time in the hour that is repeated when the clocks go back. -/
structure Legible (zone : LocalZone) (unit : Int) (t : GoTime) : Prop where
  loc : t.loc = .localZone
  year_nonneg : 0 ≤ (t.shown zone).year
  year_lt : (t.shown zone).year < 10000
  back : zone.instantOf (t.wall zone - t.wall zone % unit) = t.instant - t.instant % unit

end OwnX.Basic
