namespace SketchCompiler

/-- From the distances of the read part to each beginning of `t`, and that of the part with `c`, the row with `c`:
`left` is the new entry to the left, `corner` the old one. -/
def nextRow (c : Char) (left corner : Nat) : List Char → List Nat → List Nat
  | d :: t, above :: row =>
    let cell := min (min (left + 1) (above + 1)) (corner + if c = d then 0 else 1)
    cell :: nextRow c cell above t row
  | _, _ => []

/-- One character more: each row starts with the number of characters read. -/
def addRow (t : List Char) (row : List Nat) (c : Char) : List Nat :=
  match row with
  | [] => []
  | first :: rest => (first + 1) :: nextRow c (first + 1) first t rest

def editDistance (s t : String) : Nat :=
  let t := t.toList
  (s.toList.foldl (addRow t) (List.range (t.length + 1))).getLast?.getD 0

example : editDistance "kitten" "sitting" = 3 ∧ editDistance "" "ab" = 2 ∧ editDistance "ab" "" = 2 := by
  decide +kernel

structure Suggestion where
  best : Option String := none
  others : List String := []
deriving DecidableEq, Repr

namespace Suggestion

def maxOthers : Nat := 2

/-- The distance beyond which a candidate is dropped: half of the name, but at least one. -/
def limit (name : String) : Nat :=
  max (name.length / 2) 1

/-- Whether `a` comes before `b`, or is it; each is a distance and a candidate. -/
def precedes (a b : Nat × String) : Bool :=
  if a.1 ≠ b.1 then a.1 < b.1
  else if a.2.utf8ByteSize ≠ b.2.utf8ByteSize then a.2.utf8ByteSize < b.2.utf8ByteSize
  else a.2 ≤ b.2

/-- The candidates other than the name that are near enough, nearest first. -/
def rank (name : String) (candidates : List String) : List (Nat × String) :=
  let near := candidates.filterMap fun c =>
    let d := editDistance name c
    if c ≠ name ∧ d ≤ limit name then some (d, c) else none
  (near.mergeSort precedes).eraseReps

def ofCandidates (name : String) (candidates : List String) : Suggestion :=
  match rank name candidates with
  | [] => {}
  | (d, best) :: rest => ⟨best, ((rest.takeWhile (·.1 ≤ d + 1)).take maxOthers).map (·.2)⟩

/-- The end of a message, empty without a suggestion. -/
def text (s : Suggestion) : String :=
  match s.best with
  | none => ""
  | some best =>
    let others := String.intercalate ", " (s.others.map fun o => s!"'{o}'")
    let more := if s.others.isEmpty then "" else s!" Or perhaps: {others}"
    s!". Did you mean '{best}'?{more}"

end Suggestion

end SketchCompiler
