import OwnX.Foundations.GoTime

/-!
# Dates, and texts of times

The other direction of `GoTime`: the date and the time of day that a clock shows at an instant, `time.Date` with
the values it normalises, and `Time.Format` along a layout.

The calendar repeats itself every 400 years, which are 146097 days.
-/

namespace OwnX.GoTime

/-! ## The calendar -/

/-- The number of a day of any year. -/
def dayNumberOf (year : Int) (month day : Nat) : Int :=
  146097 * ((year - 1) / 400) + dayNumber (((year - 1) % 400).toNat + 1) month day

/-- The days of a month of any year. -/
def monthLength (year : Int) (month : Nat) : Nat := daysIn month (((year - 1) % 400).toNat + 1)

/-- The year within 400 years, from `0` on, and the day within the year, from `0` on, of a day of these 400
years. The last day of four years, and of 400 years, is not the first one of a fifth part. -/
def yearOfCycle (d : Nat) : Nat × Nat :=
  let century := d / 36524 - d / 36524 / 4
  let d := d - 36524 * century
  let four := d / 1461
  let d := d - 1461 * four
  let one := d / 365 - d / 365 / 4
  (100 * century + 4 * four + one, d - 365 * one)

/-- The month and the day of the month, of the day `d` counted from the first of `month` on. At most `k` months
are skipped. -/
def monthAndDay (year : Nat) : Nat → Nat → Nat → Nat × Nat
  | 0, month, d => (month, d + 1)
  | k + 1, month, d =>
    if d < daysIn month year then (month, d + 1) else monthAndDay year k (month + 1) (d - daysIn month year)

/-- A date and a time of day. -/
structure Civil where
  year : Int
  month : Nat
  day : Nat
  hour : Nat
  min : Nat
  sec : Nat
  nsec : Nat
deriving DecidableEq

/-- The date of a day. -/
def dateOfDay (n : Int) : Int × Nat × Nat :=
  let r := yearOfCycle (n % 146097).toNat
  (400 * (n / 146097) + r.1 + 1, monthAndDay (r.1 + 1) 11 1 r.2)

/-- What the clock shows, at an instant given as if it were UTC. -/
def civil (wall : Int) : Civil :=
  let seconds := wall / second
  let date := dateOfDay (seconds / 86400)
  let rest := (seconds % 86400).toNat
  { year := date.1, month := date.2.1, day := date.2.2, hour := rest / 3600, min := rest % 3600 / 60,
    sec := rest % 60, nsec := (wall % second).toNat }

/-- What the clock of the location shows, as if it were UTC. -/
def wall (zone : LocalZone) (t : GoTime) : Int := t.instant + offsetAt zone t.loc t.instant * second

/-- `t.Date()` and `t.Clock()`. -/
def shown (zone : LocalZone) (t : GoTime) : Civil := civil (wall zone t)

/-- `time.Date`, with the time of day in nanoseconds. A month or a day that does not exist is carried over. -/
def dateAt (zone : LocalZone) (year month day timeOfDay : Int) (loc : Location) : GoTime :=
  let n := dayNumberOf (year + (month - 1) / 12) (((month - 1) % 12).toNat + 1) 1 + (day - 1)
  date zone (n * 86400 * second + timeOfDay) loc

/-- `t.AddDate`. -/
def addDate (zone : LocalZone) (t : GoTime) (years months days : Int) : GoTime :=
  let c := t.shown zone
  dateAt zone (c.year + years) (c.month + months) (c.day + days)
    (((c.hour * 60 + c.min) * 60 + c.sec) * second + c.nsec) t.loc

/-! ## Formatting -/

/-- The elements of a layout that are written. -/
inductive Piece where
  | lit (b : UInt8)
  | longYear
  | zeroMonth
  | zeroDay
  | hour
  | zeroMinute
  | zeroSecond
  /-- `.000`. -/
  | fracSecond0
deriving DecidableEq

def pieceElements : List (Text × Piece) :=
  [(ascii "2006", .longYear), (ascii "01", .zeroMonth), (ascii "02", .zeroDay), (ascii "15", .hour),
    (ascii "04", .zeroMinute), (ascii "05", .zeroSecond), (ascii ".000", .fracSecond0)]

/-- The pieces of a layout of up to `n` letters. -/
def piecesUpTo : Nat → Text → List Piece
  | 0, _ => []
  | _, [] => []
  | n + 1, b :: layout =>
    match pieceElements.find? fun e => e.1.isPrefixOf (b :: layout) with
    | some e => e.2 :: piecesUpTo n ((b :: layout).drop e.1.length)
    | none => .lit b :: piecesUpTo n layout

def pieces (layout : Text) : List Piece := piecesUpTo layout.length layout

/-- The last `width` digits of a number. -/
def fixedDigits : Nat → Nat → List Nat
  | 0, _ => []
  | width + 1, n => fixedDigits width (n / 10) ++ [n % 10]

/-- `appendInt`: at least `width` digits. -/
def appendInt (n : Int) (width : Nat) : Text :=
  let digits :=
    if n.natAbs < 10 ^ width then fixedDigits width n.natAbs else (Nat.digits 10 n.natAbs).reverse
  (if n < 0 then ascii "-" else []) ++ digits.map digit

/-- One piece. The digits of the fraction that are not written do not count. -/
def formatPiece (c : Civil) : Piece → Text
  | .lit b => [b]
  | .longYear => appendInt c.year 4
  | .zeroMonth => appendInt c.month 2
  | .zeroDay => appendInt c.day 2
  | .hour => appendInt c.hour 2
  | .zeroMinute => appendInt c.min 2
  | .zeroSecond => appendInt c.sec 2
  | .fracSecond0 => ascii "." ++ ((fixedDigits 9 c.nsec).take 3).map digit

/-- `Format` and `AppendFormat`. -/
def format (zone : LocalZone) (t : GoTime) (layout : Text) : Text :=
  (pieces layout).flatMap (formatPiece (t.shown zone))

end OwnX.GoTime
