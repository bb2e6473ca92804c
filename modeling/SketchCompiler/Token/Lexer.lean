import SketchCompiler.Diagnostic
import SketchCompiler.Token

namespace SketchCompiler

def isBlank (c : Char) : Bool :=
  let n := c.toNat
  (0x9 ≤ n && n ≤ 0xd) || n = 0x20 || n = 0x85 || n = 0xa0 || n = 0x1680 || (0x2000 ≤ n && n ≤ 0x200a) ||
    n = 0x2028 || n = 0x2029 || n = 0x202f || n = 0x205f || n = 0x3000

/-- Drops the blanks at both ends. -/
def trimBlanks (cs : List Char) : List Char :=
  ((cs.dropWhile isBlank).reverse.dropWhile isBlank).reverse

example : isBlank '\n' ∧ isBlank '\u3000' ∧ ¬ isBlank '\u200b' := by decide

inductive LexError where
  | badChar (c : Char)
  | expected (c : Char)
  | intOverflow
  | badEscape (c : Char)
  | unterminatedString
  | emptyDirective
deriving DecidableEq, Repr

namespace LexError

def message : LexError → String
  | badChar c => s!"Bad character {quoteChar c} in input stream"
  | expected c => s!"Expected {quoteChar c}"
  | intOverflow => s!"Integer literal overflow, valid range is [0, {Number.maxInt}]"
  | badEscape c => "Unknown escape sequence '\\" ++ c.toString ++ "'"
  | unterminatedString => "Unterminated string literal"
  | emptyDirective => "Expected a directive name after '@'"

end LexError

def isWordStart (c : Char) : Bool :=
  c.isAlpha || c = '_'

def isWordChar (c : Char) : Bool :=
  c.isAlphanum || c = '_'

def isHexDigit (c : Char) : Bool :=
  c.isDigit || ('a' ≤ c && c ≤ 'f') || ('A' ≤ c && c ≤ 'F')

/-- What stands at the beginning of a text: its first `width` characters, or an error at the character `offset`. -/
inductive Lexeme where
  | blank (width : Nat)
  | token (value : Token) (width : Nat)
  | bad (error : LexError) (offset : Nat)

namespace Lexeme

/-- A keyword or a name. -/
def ofWord (word : List Char) : Token :=
  let s := String.ofList word
  match Keyword.ofText? s with
  | some k => .keyword k
  | none => .id s

def unescape? (c : Char) : Option Char :=
  match c with
  | 'n' => some '\n'
  | 't' => some '\t'
  | 'r' => some '\r'
  | '0' => some '\x00'
  | '\\' => some '\\'
  | '"' => some '"'
  | '\'' => some '\''
  | _ => none

/-- The rest of a string behind its opening quote; `n` characters are read and `body` holds their values, last first. -/
def string (n : Nat) (body : List Char) : List Char → Lexeme
  | [] => bad .unterminatedString n
  | '"' :: _ => token (.str (String.ofList body.reverse)) (n + 1)
  | '\n' :: _ => bad .unterminatedString n
  | ['\\'] => bad .unterminatedString (n + 1)
  | '\\' :: c :: cs =>
    match unescape? c with
    | some e => string (n + 2) (e :: body) cs
    | none => bad (.badEscape c) (n + 1)
  | c :: cs => string (n + 1) (c :: body) cs

/-- The rest of a module path behind its `<`. -/
def path (cs : List Char) : Lexeme :=
  let body := cs.takeWhile fun c => c ≠ '>' && c ≠ '\n'
  match cs.drop body.length with
  | '>' :: _ => token (.path (String.ofList (trimBlanks body))) (body.length + 2)
  | _ => bad (.expected '>') (body.length + 1)

/-- The rest of a directive behind its `@`. -/
def directive (cs : List Char) : Lexeme :=
  let name := cs.takeWhile isWordChar
  if name = [] then bad .emptyDirective 1
  else if name = ['m', 'a', 'i', 'n'] then token .mainDirective 5
  else token (.directive (String.ofList name)) (name.length + 1)

/-- The unit that the whole word behind a number names. -/
def unitAt? (cs : List Char) : Option PhysicalUnit :=
  match cs with
  | [] => none
  | c :: _ => if c.isAlpha then PhysicalUnit.ofSuffix? (String.ofList (cs.takeWhile isWordChar)) else none

/-- Attaches the unit that follows `width` characters of digits. -/
def withUnit (value : Except LexError Number) (width : Nat) (rest : List Char) : Lexeme :=
  let unit := unitAt? rest
  let width := width + (unit.map (·.suffix.length)).getD 0
  match value with
  | .ok n => token (.number n unit) width
  | .error e => bad e width

def intValue (base : Nat) (digits : List Char) : Except LexError Number :=
  let n := natOfDigits base digits
  if n ≤ Number.maxInt then .ok (.int n) else .error .intOverflow

/-- The digits of a hexadecimal number, behind its `0x`. -/
def hexDigits? : List Char → Option (List Char)
  | '0' :: x :: cs =>
    let digits := cs.takeWhile isHexDigit
    if (x = 'x' || x = 'X') && digits ≠ [] then some digits else none
  | _ => none

/-- The digits behind a point, which belongs to a number only before a digit. -/
def fraction? : List Char → Option (List Char)
  | '.' :: cs =>
    let digits := cs.takeWhile Char.isDigit
    if digits = [] then none else some digits
  | _ => none

/-- A number that begins with a decimal digit. -/
def number (cs : List Char) : Lexeme :=
  match hexDigits? cs with
  | some digits => withUnit (intValue 16 digits) (2 + digits.length) (cs.drop (2 + digits.length))
  | none =>
    let whole := cs.takeWhile Char.isDigit
    match fraction? (cs.drop whole.length) with
    | some digits =>
      let width := whole.length + 1 + digits.length
      withUnit (.ok (.float (floatOfDigits whole digits))) width (cs.drop width)
    | none => withUnit (intValue 10 whole) whole.length (cs.drop whole.length)

/-- Reads the beginning of `c :: cs`; right behind the word `load` a `<` opens a path. -/
def read (afterLoad : Bool) (c : Char) (cs : List Char) : Lexeme :=
  if afterLoad && c = '<' then path cs
  else match Punct.longest? (c :: cs) with
  | some p => token (.punct p) p.chars.length
  | none =>
    if c = '@' then directive cs
    else if c = '#' then blank (1 + (cs.takeWhile (· ≠ '\n')).length)
    else if c = '"' then string 1 [] cs
    else if isWordStart c then
      let word := c :: cs.takeWhile isWordChar
      token (ofWord word) word.length
    else if c.isDigit then number (c :: cs)
    else if isBlank c then blank 1
    else bad (.badChar c) 0

end Lexeme

abbrev Scanned := Except (Located LexError) (Located Token)

namespace SourceText

/-- Scans from position `p` on, after `skip` more characters of the last lexeme. -/
def scan (t : SourceText) (skip : Nat) (afterLoad : Bool) (p : Position) : List Char → List Scanned
  | [] => []
  | c :: cs =>
    match skip with
    | n + 1 => t.scan n afterLoad (p.after c) cs
    | 0 =>
      match Lexeme.read afterLoad c cs with
      | .blank width => t.scan (width - 1) afterLoad (p.after c) cs
      | .token value width =>
        let last := p.afterAll ((c :: cs).take (width - 1))
        .ok ⟨value, t.location p last.next⟩ :: t.scan (width - 1) (value.isKeyword .loadKw) (p.after c) cs
      | .bad error offset =>
        let line := offset + (((c :: cs).drop offset).takeWhile (· ≠ '\n')).length
        .error ⟨error, t.point (p.afterAll ((c :: cs).take offset))⟩ :: t.scan line false (p.after c) cs

def scanned (t : SourceText) : List Scanned :=
  t.scan 0 false {} t.chars

/-- All tokens, or else all errors. -/
def tokenize (t : SourceText) : Except (List (Located LexError)) (List (Located Token)) :=
  let scanned := t.scanned
  match scanned.filterMap fun | .error e => some e | .ok _ => none with
  | [] => .ok (scanned.filterMap fun | .ok token => some token | .error _ => none)
  | errors => .error errors

end SourceText

end SketchCompiler
