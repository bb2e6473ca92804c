namespace SketchCompiler

structure Position where
  line : Nat := 1
  column : Nat := 1
deriving DecidableEq, Repr, Inhabited

namespace Position

def tabStop : Nat := 4

variable (p : Position)

/-- The next column of the same line. -/
def next : Position :=
  { p with column := p.column + 1 }

/-- The position behind `c`: a tab goes on to the next multiple of the tab stop. -/
def after (c : Char) : Position :=
  if c = '\n' then ⟨p.line + 1, 1⟩
  else if c = '\t' then ⟨p.line, 1 + ((p.column - 1) / tabStop + 1) * tabStop⟩
  else p.next

def afterAll (cs : List Char) : Position :=
  cs.foldl after p

def text : String :=
  s!"{p.line}:{p.column}"

@[simp] theorem afterAll_nil : p.afterAll [] = p := rfl

@[simp] theorem afterAll_cons (c : Char) (cs : List Char) :
    p.afterAll (c :: cs) = (p.after c).afterAll cs := rfl

theorem afterAll_append (cs ds : List Char) :
    p.afterAll (cs ++ ds) = (p.afterAll cs).afterAll ds := by
  simp [afterAll]

theorem after_bounds (c : Char) (h : 0 < p.column) : 0 < (p.after c).column ∧ (p.after c).line ≤ p.line + 1 ∧
    (p.after c).column ≤ p.column + tabStop := by
  grind [after, next, tabStop]

/-- So the positions of a text of less than 2 ^ 29 characters fit in 32 bits. -/
theorem afterAll_le (cs : List Char) (h : 0 < p.column) : (p.afterAll cs).line ≤ p.line + cs.length ∧
    (p.afterAll cs).column ≤ p.column + cs.length * tabStop := by
  induction cs generalizing p with
  | nil => simp
  | cons c cs ih =>
    obtain ⟨hpos, hline, hcolumn⟩ := p.after_bounds c h
    obtain ⟨hlines, hcolumns⟩ := ih (p.after c) hpos
    rw [afterAll_cons, List.length_cons, Nat.add_mul]
    omega

end Position

/-- Cuts characters into lines; a carriage return elsewhere belongs to its line. -/
def cutLines : List Char → List (List Char)
  | [] => []
  | '\n' :: cs => [] :: cutLines cs
  | '\r' :: '\n' :: cs => [] :: cutLines cs
  | c :: cs =>
    match cutLines cs with
    | [] => [[c]]
    | l :: ls => (c :: l) :: ls

def linesOf (text : String) : List String :=
  (cutLines text.toList).map String.ofList

/-- The name of a unit and its lines, kept for excerpts. -/
structure Source where
  name : String
  lines : List String
deriving DecidableEq, Repr, Inhabited

namespace Source

def line? (s : Source) : Nat → Option String
  | 0 => none
  | n + 1 => s.lines[n]?

end Source

/-- A stretch of a source from `start` up to, and without, `stop`. -/
structure Location where
  source : Source
  start : Position
  stop : Position
deriving DecidableEq, Repr, Inhabited

namespace Location

/-- From the start of `a` to the end of `b`, in the source of `a`. -/
def through (a b : Location) : Location :=
  { a with stop := b.stop }

def line (l : Location) : Nat :=
  l.start.line

/-- The name, line and column, and the last column where it differs on the same line. -/
def text (l : Location) : String :=
  let first := s!"{l.source.name}:{l.start.text}"
  if l.stop.line = l.start.line ∧ l.start.column + 1 < l.stop.column then
    s!"{first}-{l.stop.column - 1}"
  else first

end Location

/-- A value together with the place that it was read from. -/
structure Located (α : Type) where
  value : α
  loc : Location
deriving Repr

structure SourceText where
  source : Source
  chars : List Char
deriving Repr

namespace SourceText

def ofString (text name : String) : SourceText where
  source := ⟨name, linesOf text⟩
  chars := text.toList.filter (· ≠ '\r') ++ ['\n']

/-- Each character with its position, where the first one stands at `p`. -/
def place (p : Position) : List Char → List (Char × Position)
  | [] => []
  | c :: cs => (c, p) :: place (p.after c) cs

def positions (t : SourceText) : List (Char × Position) :=
  place {} t.chars

def location (t : SourceText) (start stop : Position) : Location :=
  ⟨t.source, start, stop⟩

/-- One column wide, at `p`. -/
def point (t : SourceText) (p : Position) : Location :=
  t.location p p.next

def start (t : SourceText) : Location :=
  t.point {}

/-- The place of the last character. -/
def eof (t : SourceText) : Location :=
  t.point (Position.afterAll {} t.chars.dropLast)

end SourceText

end SketchCompiler
