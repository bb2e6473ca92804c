import SketchCompiler.Board
import SketchCompiler.Hardware.Device

namespace SketchCompiler

/-- The way to write a duty cycle. -/
inductive Pwm where
  | native | channel
deriving DecidableEq, Repr

def Family.pwm : Family → Pwm
  | .avr | .espNative => .native
  | .espChannel => .channel

namespace Pwm

/-- In hertz. -/
def frequency : Nat := 5000

/-- In bits. -/
def resolution : Nat := 8

def writer (channel : Nat) : String :=
  s!"ys_pwm_write_ch{channel}"

/-- Definitions ahead of all others: a writer for each channel. -/
def prelude (p : Pwm) (channels : List (String × Nat)) : List String :=
  match p with
  | native => []
  | channel => channels.map fun (_, c) => s!"void {writer c}(uint32_t duty) \x7b ledcWrite({c}, duty); \x7d"

def setup (p : Pwm) (pin : String) (channel? : Option Nat) : List String :=
  match p, channel? with
  | channel, some c => [s!"ledcSetup({c}, {frequency}, {resolution});", s!"ledcAttachPin({pin}, {c});"]
  | _, _ => []

def write (p : Pwm) (pin : String) (channel? : Option Nat) (duty : String) : String :=
  match p, channel? with
  | channel, some c => s!"{writer c}({duty})"
  | _, _ => s!"analogWrite({pin}, {duty})"

end Pwm

namespace Device

/-- The type that holds a pin. -/
def pinType : String := "uint8_t"

def setup (d : Device) (p : Pwm) (channel? : Option Nat) (pin : String) : List String :=
  let mode := match d.pinMode? with
    | some mode => [s!"pinMode({pin}, {mode});"]
    | none => []
  mode ++ p.setup pin channel?

/-- The call of a method on the pin. -/
def call (d : Device) (p : Pwm) (channel? : Option Nat) (pin : String) (m : Method) (args : List String) : String :=
  let arg := args.head?.getD "0"
  match d, m with
  | pwm, .off => p.write pin channel? "0"
  | _, .set | pwm, .write => p.write pin channel? arg
  | _, .on | _, .high => s!"digitalWrite({pin}, HIGH)"
  | _, .off | _, .low => s!"digitalWrite({pin}, LOW)"
  | _, .toggle => s!"digitalWrite({pin}, !digitalRead({pin}))"
  | _, .write => s!"digitalWrite({pin}, {arg})"
  | analog, .read => s!"analogRead({pin})"
  | _, .read => s!"digitalRead({pin})"
  | _, .pressed => s!"(digitalRead({pin}) == LOW)"

end Device

end SketchCompiler
