import SketchCompiler.Decimal.Digits

namespace SketchCompiler

inductive Number where
  | int (value : Int)
  | float (value : Float)

namespace Number

def maxInt : Int := 9223372036854775807

def minInt : Int := -9223372036854775808

/-- The nearest 64-bit integer. -/
def saturate (n : Int) : Int :=
  max minInt (min n maxInt)

/-- Drops the fraction; what is too large or too small saturates, and what is not a number is zero. -/
def truncate (x : Float) : Int :=
  x.toInt64.toInt

def toFloat : Number → Float
  | int n => Float.ofInt n
  | float x => x

def neg : Number → Number
  | int n => int (-n)
  | float x => float (-x)

def text : Number → String
  | int n => toString n
  | float x => floatText x

end Number

end SketchCompiler
