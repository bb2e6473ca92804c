namespace SketchCompiler

inductive Device where
  | led | pwm | pin | button | analog
deriving DecidableEq, Repr

inductive Method where
  | on | off | toggle | set | write | high | low | read | pressed
deriving DecidableEq, Repr

namespace Method

def all : List Method :=
  [on, off, toggle, set, write, high, low, read, pressed]

def name : Method → String
  | on => "on"
  | off => "off"
  | toggle => "toggle"
  | set => "set"
  | write => "write"
  | high => "high"
  | low => "low"
  | read => "read"
  | pressed => "pressed"

end Method

namespace Device

def all : List Device :=
  [led, pwm, pin, button, analog]

def name : Device → String
  | led => "Led"
  | pwm => "Pwm"
  | pin => "Pin"
  | button => "Button"
  | analog => "Analog"

def ofName? (s : String) : Option Device :=
  all.find? (·.name = s)

/-- The mode that the pin is set to. -/
def pinMode? : Device → Option String
  | led | pwm | pin => some "OUTPUT"
  | button => some "INPUT_PULLUP"
  | analog => none

/-- The methods and how many arguments they take. -/
def methods : Device → List (Method × Nat)
  | led => [(.on, 0), (.off, 0), (.toggle, 0), (.set, 1)]
  | pwm => [(.write, 1), (.off, 0)]
  | pin => [(.high, 0), (.low, 0), (.write, 1), (.read, 0), (.toggle, 0)]
  | button => [(.read, 0), (.pressed, 0)]
  | analog => [(.read, 0)]

def method? (d : Device) (name : String) : Option (Method × Nat) :=
  d.methods.find? (·.1.name = name)

/-- Whether the method writes a duty cycle. -/
def usesPwm (d : Device) (m : Method) : Bool :=
  match d, m with
  | led, .set | pwm, .write | pwm, .off => true
  | _, _ => false

end Device

end SketchCompiler
