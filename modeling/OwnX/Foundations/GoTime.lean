import OwnX.Foundations.Text
import Mathlib.Data.Nat.Digits.Defs

/-!
# The package `time`

A `time.Time` is an instant and the location it is shown in. `ParseInLocation` reads it from a text along a
layout. Of the elements of a layout there are those of a date, a time of day, a fraction of a second and a
zone offset.

The local time zone is a parameter.
-/

namespace OwnX

/-- `*time.Location`. -/
inductive Location where
  | utc
  | localZone
  /-- `time.FixedZone`, by its offset in seconds. -/
  | fixed (offset : Int)
deriving DecidableEq

/-- `time.Time`. -/
structure GoTime where
  /-- Nanoseconds since January 1, year 1, 00:00:00 UTC. -/
  instant : Int
  loc : Location
deriving DecidableEq

/-- What the local time zone is. -/
structure LocalZone where
  /-- The offset at an instant, in seconds. -/
  offsetAt : Int → Int
  /-- The instant at which the clock on the wall shows a time, given as if it were UTC. -/
  instantOf : Int → Int

namespace GoTime

/-- `time.Time{}`. -/
def zero : GoTime := ⟨0, .utc⟩

def isZero (t : GoTime) : Bool := t.instant == 0

/-- `t.Local()`. -/
def toLocal (t : GoTime) : GoTime := { t with loc := .localZone }

/-! ## The calendar -/

def isLeap (year : Nat) : Bool := year % 4 == 0 && (year % 100 != 0 || year % 400 == 0)

def daysIn (month year : Nat) : Nat :=
  if month = 2 then if isLeap year then 29 else 28
  else if month = 4 ∨ month = 6 ∨ month = 9 ∨ month = 11 then 30 else 31

/-- The days of the year before the month. -/
def daysBefore (month year : Nat) : Nat := ((List.range (month - 1)).map fun m => daysIn (m + 1) year).sum

/-- The number of a day; that of January 1, year 1 is `0`. -/
def dayNumber (year month day : Nat) : Int :=
  let y : Int := year - 1
  365 * y + y / 4 - y / 100 + y / 400 + daysBefore month year + (day - 1)

def second : Int := 10 ^ 9

/-- A date and a time of day as if it were UTC. -/
def clock (year month day hour min sec nsec : Nat) : Int :=
  (((dayNumber year month day * 24 + hour) * 60 + min) * 60 + sec) * second + nsec

/-! ## Layouts -/

/-- What a layout is made of. -/
inductive Chunk where
  /-- A letter that stands for itself. -/
  | lit (b : UInt8)
  | longYear
  | zeroMonth
  | zeroDay
  | hour
  | zeroMinute
  | zeroSecond
  | fracSecond9
  | iso8601TZ
  | iso8601ColonTZ
deriving DecidableEq

def elements : List (Text × Chunk) :=
  [(ascii "2006", .longYear), (ascii "01", .zeroMonth), (ascii "02", .zeroDay), (ascii "15", .hour),
    (ascii "04", .zeroMinute), (ascii "05", .zeroSecond), (ascii ".999999999", .fracSecond9),
    (ascii "Z07:00", .iso8601ColonTZ), (ascii "Z0700", .iso8601TZ)]

/-- The chunks of a layout of up to `n` letters. -/
def chunksUpTo : Nat → Text → List Chunk
  | 0, _ => []
  | _, [] => []
  | n + 1, b :: layout =>
    match elements.find? fun e => e.1.isPrefixOf (b :: layout) with
    | some e => e.2 :: chunksUpTo n ((b :: layout).drop e.1.length)
    | none => .lit b :: chunksUpTo n layout

def chunks (layout : Text) : List Chunk := chunksUpTo layout.length layout

/-- The next element of the layout. -/
def nextStdChunk (layout : List Chunk) : Option Chunk :=
  layout.find? fun
    | .lit _ => false
    | _ => true

/-! ## Digits -/

def digit (n : Nat) : UInt8 := UInt8.ofNat (48 + n)

def twoDigits (n : Nat) : Text := [digit (n / 10), digit (n % 10)]

def fourDigits (n : Nat) : Text := twoDigits (n / 100) ++ twoDigits (n % 100)

def isDigit (b : UInt8) : Bool := decide (48 ≤ b ∧ b ≤ 57)

def digitValue (b : UInt8) : Nat := b.toNat - 48

/-- The number that is written with the digits. -/
def decimal (digits : List Nat) : Nat := Nat.ofDigits 10 digits.reverse

/-! ## Parsing -/

/-- A letter of the layout that stands for itself; a blank stands for any number of them. -/
def skip (b : UInt8) (value : Text) : Option Text :=
  match value with
  | [] => if b = 32 then some [] else none
  | c :: rest => if c ≠ b then none else if b = 32 then some (rest.dropWhile (· == 32)) else some rest

/-- Two digits, or one if `fixed` does not hold. -/
def getnum (value : Text) (fixed : Bool) : Option (Nat × Text) :=
  match value with
  | [] => none
  | d :: rest =>
    if isDigit d then
      match rest with
      | [] => if fixed then none else some (digitValue d, rest)
      | e :: rest' =>
        if isDigit e then some (decimal [digitValue d, digitValue e], rest')
        else if fixed then none else some (digitValue d, rest)
    else none

/-- Four digits. -/
def getYear (value : Text) : Option (Nat × Text) :=
  if (value.take 4).length = 4 ∧ (value.take 4).all isDigit then
    some (decimal ((value.take 4).map digitValue), value.drop 4)
  else none

/-- `parseNanoseconds`: the digits from the tenth on do not count. -/
def parseNanoseconds (digits : List Nat) : Nat :=
  decimal (digits.take 9) * 10 ^ (9 - (digits.take 9).length)

/-- A zone, as it is given in a text. -/
inductive Zone where
  | none
  | utc
  | offset (seconds : Int)

/-- What has been read. -/
structure Fields where
  year : Nat := 0
  month : Nat := 1
  day : Nat := 1
  hour : Nat := 0
  min : Nat := 0
  sec : Nat := 0
  nsec : Nat := 0
  zone : Zone := .none

/-- A fraction of a second, if there is one. -/
def takeFraction (f : Fields) (value : Text) : Fields × Text :=
  match value with
  | b :: d :: rest =>
    if (b = 46 ∨ b = 44) ∧ isDigit d then
      ({ f with nsec := parseNanoseconds (((d :: rest).takeWhile isDigit).map digitValue) },
        (d :: rest).dropWhile isDigit)
    else (f, value)
  | _ => (f, value)

/-- A zone offset: its sign, hour and minute. -/
def zoneOffset (sign : UInt8) (hour min : Text) : Option Int := do
  let (hr, _) ← getnum hour true
  let (mm, _) ← getnum min true
  if 24 < hr ∨ 60 < mm then none
  let seconds : Int := (hr * 60 + mm) * 60
  if sign = 43 then some seconds else if sign = 45 then some (-seconds) else none

/-- One chunk of the layout; `layout` is what follows it. -/
def parseChunk (chunk : Chunk) (layout : List Chunk) (value : Text) (f : Fields) :
    Option (Fields × Text) := do
  match chunk with
  | .lit b =>
    let rest ← skip b value
    some (f, rest)
  | .longYear =>
    let (year, rest) ← getYear value
    some ({ f with year }, rest)
  | .zeroMonth =>
    let (month, rest) ← getnum value true
    if month = 0 ∨ 12 < month then none
    some ({ f with month }, rest)
  | .zeroDay =>
    let (day, rest) ← getnum value true
    some ({ f with day }, rest)
  | .hour =>
    let (hour, rest) ← getnum value false
    if 24 ≤ hour then none
    some ({ f with hour }, rest)
  | .zeroMinute =>
    let (min, rest) ← getnum value true
    if 60 ≤ min then none
    some ({ f with min }, rest)
  | .zeroSecond =>
    let (sec, rest) ← getnum value true
    if 60 ≤ sec then none
    -- a fraction may stand here, even if there is none in the layout
    if nextStdChunk layout = some .fracSecond9 then some ({ f with sec }, rest)
    else some (takeFraction { f with sec } rest)
  | .fracSecond9 => some (takeFraction f value)
  | .iso8601TZ =>
    match value with
    | 90 :: rest => some ({ f with zone := .utc }, rest)
    | sign :: h :: h' :: m :: m' :: rest =>
      let seconds ← zoneOffset sign [h, h'] [m, m']
      some ({ f with zone := .offset seconds }, rest)
    | _ => none
  | .iso8601ColonTZ =>
    match value with
    | 90 :: rest => some ({ f with zone := .utc }, rest)
    | sign :: h :: h' :: 58 :: m :: m' :: rest =>
      let seconds ← zoneOffset sign [h, h'] [m, m']
      some ({ f with zone := .offset seconds }, rest)
    | _ => none

/-- The loop over the layout. The whole value has to be read. -/
def parseChunks : List Chunk → Text → Fields → Option Fields
  | [], value, f => if value = [] then some f else none
  | chunk :: layout, value, f =>
    (parseChunk chunk layout value f).bind fun r => parseChunks layout r.2 r.1

/-- The offset of a location. -/
def offsetAt (zone : LocalZone) (loc : Location) (instant : Int) : Int :=
  match loc with
  | .utc => 0
  | .localZone => zone.offsetAt instant
  | .fixed offset => offset

/-- `time.Date`. -/
def date (zone : LocalZone) (wall : Int) (loc : Location) : GoTime :=
  match loc with
  | .utc => ⟨wall, loc⟩
  | .localZone => ⟨zone.instantOf wall, loc⟩
  | .fixed offset => ⟨wall - offset * second, loc⟩

/-- The time that has been read. -/
def Fields.time (zone : LocalZone) (f : Fields) (loc : Location) : GoTime :=
  let wall := clock f.year f.month f.day f.hour f.min f.sec f.nsec
  match f.zone with
  | .none => date zone wall loc
  | .utc => date zone wall .utc
  | .offset seconds =>
    let instant := wall - seconds * second
    ⟨instant, if offsetAt zone loc instant = seconds then loc else .fixed seconds⟩

/-- `time.ParseInLocation`; `none` if it returns an error. -/
def parseInLocation (zone : LocalZone) (layout value : Text) (loc : Location) : Option GoTime :=
  (parseChunks (chunks layout) value {}).bind fun f =>
    if f.day < 1 ∨ daysIn f.month f.year < f.day then none else some (f.time zone loc)

end GoTime

end OwnX
