namespace SketchCompiler.Builtin

def functions : List String :=
  ["print", "println", "delay", "wait", "delayMicros", "millis", "micros", "digitalRead", "digitalWrite",
    "analogRead", "analogWrite", "pinMode", "abs", "min", "max", "map", "constrain", "random", "sqrt", "pow", "sin",
    "cos"]

/-- Constants and objects. -/
def constants : List String :=
  ["HIGH", "LOW", "INPUT", "OUTPUT", "INPUT_PULLUP", "PI", "Serial"]

def names : List String :=
  functions ++ constants

def primitiveTypes : List String :=
  ["int", "float", "bool", "string", "byte", "long", "char", "void"]

/-- The functions that wait or write to the serial line, and so must not run in an interrupt. -/
def blocking : List String :=
  ["print", "println", "delay", "delayMicros", "wait"]

/-- The function of the target that a function stands for. -/
def target (name : String) : String :=
  if name = "print" then "Serial.print"
  else if name = "println" then "Serial.println"
  else if name = "wait" then "delay"
  else if name = "delayMicros" then "delayMicroseconds"
  else name

theorem nodup_names : names.Nodup := by decide

end SketchCompiler.Builtin
