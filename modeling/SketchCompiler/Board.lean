namespace SketchCompiler

/-- The lower case form of a character, where it lies in ASCII. -/
def foldCase (c : Char) : List Char :=
  match c with
  | 'ſ' => ['s']
  | '\u212a' => ['k']
  | 'ß' | 'ẞ' => ['s', 's']
  | 'ﬀ' => ['f', 'f']
  | 'ﬁ' => ['f', 'i']
  | 'ﬂ' => ['f', 'l']
  | 'ﬃ' => ['f', 'f', 'i']
  | 'ﬄ' => ['f', 'f', 'l']
  | 'ﬅ' | 'ﬆ' => ['s', 't']
  | c => [c.toLower]

/-- Whether `s` is the ASCII name `name`, up to case. -/
def sameUpToCase (name s : String) : Bool :=
  name.toList.flatMap foldCase = s.toList.flatMap foldCase

/-- How boards write a duty cycle: directly to a pin (AVR and ESP8266), or through a numbered channel (ESP32). -/
inductive Family where
  | avr | espNative | espChannel
deriving DecidableEq, Repr

inductive Board where
  | uno | nano | mega | leonardo | esp32 | esp32s3 | esp32c3 | esp8266
deriving DecidableEq, Repr

instance : Inhabited Board := ⟨.uno⟩

namespace Board

def all : List Board :=
  [uno, nano, mega, leonardo, esp32, esp32s3, esp32c3, esp8266]

def name : Board → String
  | uno => "uno"
  | nano => "nano"
  | mega => "mega"
  | leonardo => "leonardo"
  | esp32 => "esp32"
  | esp32s3 => "esp32s3"
  | esp32c3 => "esp32c3"
  | esp8266 => "esp8266"

def family : Board → Family
  | uno | nano | mega | leonardo => .avr
  | esp8266 => .espNative
  | esp32 | esp32s3 | esp32c3 => .espChannel

/-- The name by which the toolchain knows the board. -/
def qualifiedName : Board → String
  | uno => "arduino:avr:uno"
  | nano => "arduino:avr:nano"
  | mega => "arduino:avr:mega"
  | leonardo => "arduino:avr:leonardo"
  | esp32 => "esp32:esp32:esp32"
  | esp32s3 => "esp32:esp32:esp32s3"
  | esp32c3 => "esp32:esp32:esp32c3"
  | esp8266 => "esp8266:esp8266:generic"

/-- Clock frequency in hertz. -/
def defaultClock (b : Board) : Nat :=
  match b.family with
  | .avr => 16000000
  | .espNative => 80000000
  | .espChannel => 240000000

/-- The number of duty cycle channels, on boards that have them. -/
def pwmChannels? : Board → Option Nat
  | esp32 => some 16
  | esp32s3 => some 8
  | esp32c3 => some 6
  | _ => none

def ofName? (s : String) : Option Board :=
  all.find? fun b => sameUpToCase b.name s

def unknownMessage (s : String) : String :=
  s!"Unknown board '{s}'"

theorem pwmChannels?_isSome (b : Board) : b.pwmChannels?.isSome = (b.family = .espChannel) := by
  cases b <;> simp [pwmChannels?, family]

end Board

end SketchCompiler
