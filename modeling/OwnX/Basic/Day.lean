import OwnX.Basic.TimeText

/-!
# Days (`basic/day.go`)

A `Day` is a time of which only the date counts. `Time` takes the date that the clock of its own location
shows, and gives the midnight at the beginning of this date in the local zone.
-/

namespace OwnX.Basic

abbrev Day := GoTime

def dayFormart : Text := ascii "2006-01-02"

namespace Day

/-- `Time`. -/
def time (zone : LocalZone) (t : Day) : GoTime :=
  if GoTime.isZero t then t
  else
    let c := GoTime.shown zone t
    GoTime.dateAt zone c.year c.month c.day 0 .localZone

def isZero (zone : LocalZone) (t : Day) : Bool := GoTime.isZero (t.time zone)

def unmarshalJSON (zone : LocalZone) (t : Day) (data : Text) : Outcome × Day :=
  if data = ascii "\"\"" ∨ data = ascii "null" then (.noError, t)
  else
    match GoTime.parseInLocation zone (ascii "\"" ++ dayFormart ++ ascii "\"") data .localZone with
    | none => (.error, t)
    | some now => (.noError, now)

def marshalJSON (zone : LocalZone) (t : Day) : Text :=
  if isZero zone t then ascii "\"\""
  else ascii "\"" ++ GoTime.format zone (t.time zone) dayFormart ++ ascii "\""

/-- `ToString`. -/
def toText (zone : LocalZone) (t : Day) : Text :=
  if isZero zone t then [] else GoTime.format zone (t.time zone) dayFormart

/-- `Scan`. Of a longer text the first ten letters are read. `none` is the panic of the type assertion. -/
def scan (zone : LocalZone) (t : Day) : Column → Option (Outcome × Day)
  | .nil => some (.noError, t)
  | .bytes str =>
    if str = ascii "\"\"" ∨ str = ascii "null" ∨ str = ascii "0000-00-00" ∨ str = noDate then
      some (.noError, t)
    else
      let str := if 10 < str.length then str.take 10 else str
      match GoTime.parseInLocation zone dayFormart str .localZone with
      | none => some (.error, t)
      | some now => some (.noError, now)
  | _ => none

def value (zone : LocalZone) (t : Day) : DriverValue :=
  if isZero zone t then .nil else .string (t.toText zone)

/-- The midnight at the beginning of the day `day` of the month. -/
def dayInMonth (zone : LocalZone) (t : Day) (day : Int) : GoTime :=
  let tm := t.time zone
  let c := tm.shown zone
  GoTime.dateAt zone c.year c.month day 0 tm.loc

/-- `ToTime`. -/
def toTime (zone : LocalZone) (t : Day) : GoTime := t.dayInMonth zone ((t.time zone).shown zone).day

def firstDayInMonth (zone : LocalZone) (t : Day) : Day := t.dayInMonth zone 1

def lastDayInMonth (zone : LocalZone) (t : Day) : Day :=
  ((t.dayInMonth zone 1).addDate zone 0 1 0).addDate zone 0 0 (-1)

end Day

/-- Every day has a midnight in the local zone: when `time.Date` is asked for it, the clock shows it. There are
zones in which the clocks go forward at midnight. -/
def MidnightsShown (zone : LocalZone) : Prop :=
  ∀ n : Int, GoTime.wall zone (GoTime.date zone (n * 86400 * GoTime.second) .localZone) =
    n * 86400 * GoTime.second

end OwnX.Basic
