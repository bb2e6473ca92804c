import SketchCompiler.Number

namespace SketchCompiler

inductive Dimension where
  | time | frequency | angle | distance | speed | voltage | current | resistance | power
deriving DecidableEq, Repr

inductive PhysicalUnit where
  | microseconds | milliseconds | seconds | minutes | hours
  | hertz | kilohertz | megahertz
  | degrees | radians
  | millimeters | centimeters | meters | kilometers
  | rpm
  | millivolts | volts
  | milliamperes | amperes
  | ohms | kiloohms
  | milliwatts | watts
deriving DecidableEq, Repr

/-- The way from a unit to the unit that programs compute in. -/
inductive Conversion where
  | keep
  | scale (factor : Nat)
  | divide (divisor : Nat)
  | radiansToDegrees

namespace PhysicalUnit

def all : List PhysicalUnit :=
  [microseconds, milliseconds, seconds, minutes, hours, hertz, kilohertz, megahertz, degrees, radians,
    millimeters, centimeters, meters, kilometers, rpm, millivolts, volts, milliamperes, amperes, ohms, kiloohms,
    milliwatts, watts]

def suffix : PhysicalUnit → String
  | microseconds => "us"
  | milliseconds => "ms"
  | seconds => "s"
  | minutes => "min"
  | hours => "h"
  | hertz => "Hz"
  | kilohertz => "kHz"
  | megahertz => "MHz"
  | degrees => "deg"
  | radians => "rad"
  | millimeters => "mm"
  | centimeters => "cm"
  | meters => "m"
  | kilometers => "km"
  | rpm => "rpm"
  | millivolts => "mV"
  | volts => "V"
  | milliamperes => "mA"
  | amperes => "A"
  | ohms => "ohm"
  | kiloohms => "kohm"
  | milliwatts => "mW"
  | watts => "W"

def ofSuffix? (s : String) : Option PhysicalUnit :=
  all.find? (·.suffix = s)

def dimension : PhysicalUnit → Dimension
  | microseconds | milliseconds | seconds | minutes | hours => .time
  | hertz | kilohertz | megahertz => .frequency
  | degrees | radians => .angle
  | millimeters | centimeters | meters | kilometers => .distance
  | rpm => .speed
  | millivolts | volts => .voltage
  | milliamperes | amperes => .current
  | ohms | kiloohms => .resistance
  | milliwatts | watts => .power

def conversion : PhysicalUnit → Conversion
  | milliseconds | degrees | millimeters | millivolts | milliamperes | ohms | milliwatts => .scale 1
  | microseconds => .divide 1000
  | seconds | meters | volts | amperes | kiloohms | watts => .scale 1000
  | minutes => .scale 60000
  | hours => .scale 3600000
  | centimeters => .scale 10
  | kilometers => .scale 1000000
  | radians => .radiansToDegrees
  | hertz | kilohertz | megahertz | rpm => .keep

/-- A frequency in hertz. -/
def hertz? (u : PhysicalUnit) (n : Number) : Option Float :=
  match u with
  | hertz => some (n.toFloat * 1.0)
  | kilohertz => some (n.toFloat * 1000.0)
  | megahertz => some (n.toFloat * 1000000.0)
  | _ => none

/-- The double nearest to the ratio of a circle's circumference to its diameter. -/
def pi : Float := 3.141592653589793

example : pi.toBits = 0x400921fb54442d18 := by decide +kernel

end PhysicalUnit

/-- Whole numbers saturate and lose their fraction; degrees are rounded, a half away from zero. -/
def Number.inCommonUnit (n : Number) (u : PhysicalUnit) : Number :=
  match u.conversion, n with
  | .keep, n => n
  | .scale k, .int i => .int (saturate (i * k))
  | .scale k, .float x => .int (truncate (x * Float.ofNat k))
  | .divide k, .int i => .int (i.tdiv k)
  | .divide k, .float x => .int (truncate (x / Float.ofNat k))
  | .radiansToDegrees, n => .int (truncate (n.toFloat * 180.0 / PhysicalUnit.pi).round)

end SketchCompiler
