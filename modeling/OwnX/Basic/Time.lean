import OwnX.Foundations.GoTime
import OwnX.Foundations.Pattern

/-!
# Times (`basic/time.go`, `basic/time_ms.go`, `basic/time_standard.go`)

`UnmarshalJSON` of the three types `Time`, `TimeMs` and `TimeStandard` reads a quoted text. The end of the
text decides along which layout it is read, and in which location.
-/

namespace OwnX.Basic

open Pattern
open GoTime (digit twoDigits fourDigits)

abbrev Time := GoTime

abbrev TimeMs := GoTime

abbrev TimeStandard := GoTime

/-! ## Layouts and patterns -/

def timeFormart : Text := ascii "2006-01-02 15:04:05"

def timeFormartT : Text := ascii "2006-01-02T15:04:05"

/-- `[0-9]`. -/
def digits : Text := ascii "0123456789"

/-- `TimePattern1`: `[.][0-9]+ [+][0-9]{4} CST"$`. -/
def timePattern1 : RegularExpression UInt8 :=
  literal (ascii ".") * many (oneOf digits) * literal (ascii " +") * oneOf digits ^ 4 *
    literal (ascii " CST\"")

/-- `TimePattern2`: `[+][0-9]{2}:[0-9]{2}"$`. -/
def timePattern2 : RegularExpression UInt8 :=
  literal (ascii "+") * oneOf digits ^ 2 * literal (ascii ":") * oneOf digits ^ 2 * literal (ascii "\"")

/-- `TimePattern3`: `[.][0-9]+Z"$`. -/
def timePattern3 : RegularExpression UInt8 :=
  literal (ascii ".") * many (oneOf digits) * literal (ascii "Z\"")

/-- `TimePattern4`: `[:][0-9]{2}Z"$`. -/
def timePattern4 : RegularExpression UInt8 :=
  literal (ascii ":") * oneOf digits ^ 2 * literal (ascii "Z\"")

/-- `TimePattern5`: `[.][0-9]+"$`. -/
def timePattern5 : RegularExpression UInt8 :=
  literal (ascii ".") * many (oneOf digits) * literal (ascii "\"")

/-! ## Parsing -/

/-- The layout of the date and the time of day. -/
def formatOf (str : Text) : Text :=
  if Text.position (Text.index str (ascii "T")) = 11 then timeFormartT else timeFormart

/-- What is appended to it, and the location. -/
def endingOf (str : Text) : Text × Location :=
  if matchesEnd timePattern1 str then (ascii ".999999999 Z0700 CST", .utc)
  else if matchesEnd timePattern2 str then (ascii "Z07:00", .utc)
  else if matchesEnd timePattern3 str then (ascii ".999999999Z", .utc)
  else if matchesEnd timePattern4 str then (ascii "Z", .utc)
  else if matchesEnd timePattern5 str then (ascii ".999999999", .localZone)
  else (ascii "", .localZone)

/-- `unmarshalJSONToJson`; `none` if it returns an error. -/
def unmarshalJSONToJson (zone : LocalZone) (data : Text) : Option GoTime :=
  if data = ascii "\"\"" ∨ data = ascii "null" then some GoTime.zero
  else
    GoTime.parseInLocation zone (ascii "\"" ++ (formatOf data ++ (endingOf data).1) ++ ascii "\"") data
      (endingOf data).2

/-- What `UnmarshalJSON` returns. -/
inductive Outcome where
  | noError
  | error
deriving DecidableEq

/-- `UnmarshalJSON`, which the three types have in common: what it returns, and the value afterwards. -/
def unmarshalJSON (zone : LocalZone) (t : GoTime) (data : Text) : Outcome × GoTime :=
  match unmarshalJSONToJson zone data with
  | none => (.error, t)
  | some now => (.noError, if now.isZero then t else now.toLocal)

def Time.unmarshalJSON (zone : LocalZone) (t : Time) (data : Text) : Outcome × Time :=
  Basic.unmarshalJSON zone t data

def TimeMs.unmarshalJSON (zone : LocalZone) (t : TimeMs) (data : Text) : Outcome × TimeMs :=
  Basic.unmarshalJSON zone t data

def TimeStandard.unmarshalJSON (zone : LocalZone) (t : TimeStandard) (data : Text) :
    Outcome × TimeStandard :=
  Basic.unmarshalJSON zone t data

/-! ## RFC 3339

A date, a time of day with an optional fraction of the second, and the offset from UTC. -/

/-- What stands between the date and the time of day. -/
inductive Separator where
  | upperT
  | lowerT
  | blank
deriving DecidableEq

def Separator.text : Separator → Text
  | .upperT => ascii "T"
  | .lowerT => ascii "t"
  | .blank => ascii " "

/-- The offset from UTC. -/
inductive Offset where
  | z
  | plus (hour : Fin 24) (minute : Fin 60)
  | minus (hour : Fin 24) (minute : Fin 60)
deriving DecidableEq

def hourMinute (hour minute : Nat) : Text := twoDigits hour ++ ascii ":" ++ twoDigits minute

def Offset.text : Offset → Text
  | .z => ascii "Z"
  | .plus hour minute => ascii "+" ++ hourMinute hour minute
  | .minus hour minute => ascii "-" ++ hourMinute hour minute

/-- The offset in seconds. -/
def Offset.seconds : Offset → Int
  | .z => 0
  | .plus hour minute => (hour * 60 + minute) * 60
  | .minus hour minute => -((hour * 60 + minute) * 60)

/-- A timestamp. Leap seconds, for which there is no `time.Time`, are left out. -/
structure Stamp where
  year : Fin 10000
  month : Nat
  day : Nat
  hour : Fin 24
  minute : Fin 60
  second : Fin 60
  /-- The digits of the fraction; there is none if the list is empty. -/
  fraction : List (Fin 10) := []
  separator : Separator := .upperT
  offset : Offset
  one_le_month : 1 ≤ month := by decide
  month_le : month ≤ 12 := by decide
  one_le_day : 1 ≤ day := by decide
  day_le : day ≤ GoTime.daysIn month year := by decide

namespace Stamp

def date (s : Stamp) : Text :=
  fourDigits s.year ++ ascii "-" ++ twoDigits s.month ++ ascii "-" ++ twoDigits s.day

def timeOfDay (s : Stamp) : Text := hourMinute s.hour s.minute ++ ascii ":" ++ twoDigits s.second

def fractionText (s : Stamp) : Text :=
  if s.fraction = [] then [] else ascii "." ++ (s.fraction.map Fin.val).map digit

/-- The text, in quotation marks. -/
def quoted (s : Stamp) : Text :=
  ascii "\"" ++ s.date ++ s.separator.text ++ s.timeOfDay ++ s.fractionText ++ s.offset.text ++ ascii "\""

/-- The fraction in nanoseconds, which is the resolution of a `time.Time`. -/
def nanoseconds (s : Stamp) : Nat :=
  GoTime.decimal (s.fraction.map Fin.val) * 10 ^ 9 / 10 ^ s.fraction.length

/-- The instant that the timestamp stands for. -/
def instant (s : Stamp) : Int :=
  GoTime.clock s.year s.month s.day s.hour s.minute s.second s.nanoseconds - s.offset.seconds * GoTime.second

/-- The timestamps that are read: not those with a small `t`, and not those with a negative offset. -/
def Readable (s : Stamp) : Prop := s.separator ≠ .lowerT ∧ ∀ hour minute, s.offset ≠ .minus hour minute

/-- All of the types read the timestamp without an error, and have the instant afterwards. -/
def Understood (zone : LocalZone) (s : Stamp) : Prop :=
  ∀ t, Time.unmarshalJSON zone t s.quoted = (.noError, ⟨s.instant, .localZone⟩) ∧
    TimeMs.unmarshalJSON zone t s.quoted = (.noError, ⟨s.instant, .localZone⟩) ∧
    TimeStandard.unmarshalJSON zone t s.quoted = (.noError, ⟨s.instant, .localZone⟩)

end Stamp

end OwnX.Basic
