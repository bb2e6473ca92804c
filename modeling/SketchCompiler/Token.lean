import SketchCompiler.PhysicalUnit
import SketchCompiler.Text.Quoted

namespace SketchCompiler

inductive Punct where
  | ellipsis
  | equal | notEqual | lessEqual | greaterEqual | fatArrow | arrow | shiftLeft | shiftRight | ampAmp | pipePipe
  | assign | less | greater | bang | minus | amp | pipe | period | plus | times | slash | percent | caret
  | comma | colon | semicolon | openParen | closeParen | openCurly | closeCurly | openSquare | closeSquare
deriving DecidableEq, Repr

namespace Punct

/-- Longer marks stand before their beginnings. -/
def all : List Punct :=
  [ellipsis, equal, notEqual, lessEqual, greaterEqual, fatArrow, arrow, shiftLeft, shiftRight, ampAmp, pipePipe,
    assign, less, greater, bang, minus, amp, pipe, period, plus, times, slash, percent, caret, comma, colon,
    semicolon, openParen, closeParen, openCurly, closeCurly, openSquare, closeSquare]

def chars : Punct → List Char
  | ellipsis => ['.', '.', '.']
  | equal => ['=', '=']
  | notEqual => ['!', '=']
  | lessEqual => ['<', '=']
  | greaterEqual => ['>', '=']
  | fatArrow => ['=', '>']
  | arrow => ['-', '>']
  | shiftLeft => ['<', '<']
  | shiftRight => ['>', '>']
  | ampAmp => ['&', '&']
  | pipePipe => ['|', '|']
  | assign => ['=']
  | less => ['<']
  | greater => ['>']
  | bang => ['!']
  | minus => ['-']
  | amp => ['&']
  | pipe => ['|']
  | period => ['.']
  | plus => ['+']
  | times => ['*']
  | slash => ['/']
  | percent => ['%']
  | caret => ['^']
  | comma => [',']
  | colon => [':']
  | semicolon => [';']
  | openParen => ['(']
  | closeParen => [')']
  | openCurly => ['\x7b']
  | closeCurly => ['\x7d']
  | openSquare => ['[']
  | closeSquare => [']']

def text (p : Punct) : String :=
  String.ofList p.chars

/-- The longest mark at the beginning of a text. -/
def longest? (cs : List Char) : Option Punct :=
  all.find? (·.chars.isPrefixOf cs)

theorem mem_all (p : Punct) : p ∈ all := by
  cases p <;> decide

end Punct

inductive Keyword where
  | mutKw | constKw | reactKw | fnKw | returnKw | ifKw | elseKw | whileKw | forKw | repeatKw | matchKw | switchKw
  | caseKw | defaultKw | onKw | interruptKw | taskKw | everyKw | backgroundKw | signalKw | emitKw | atomicKw | loadKw
  | asKw | classKw | structKw | enumKw | constructorKw | newKw | selfKw | configKw | aliasKw | trueKw | falseKw
  | breakKw | continueKw | andKw | orKw | notKw | inKw | catchKw | risingKw | fallingKw | changeKw
deriving DecidableEq, Repr

namespace Keyword

def all : List Keyword :=
  [mutKw, constKw, reactKw, fnKw, returnKw, ifKw, elseKw, whileKw, forKw, repeatKw, matchKw, switchKw, caseKw,
    defaultKw, onKw, interruptKw, taskKw, everyKw, backgroundKw, signalKw, emitKw, atomicKw, loadKw, asKw, classKw,
    structKw, enumKw, constructorKw, newKw, selfKw, configKw, aliasKw, trueKw, falseKw, breakKw, continueKw, andKw,
    orKw, notKw, inKw, catchKw, risingKw, fallingKw, changeKw]

def text : Keyword → String
  | mutKw => "mut"
  | constKw => "const"
  | reactKw => "react"
  | fnKw => "fn"
  | returnKw => "return"
  | ifKw => "if"
  | elseKw => "else"
  | whileKw => "while"
  | forKw => "for"
  | repeatKw => "repeat"
  | matchKw => "match"
  | switchKw => "switch"
  | caseKw => "case"
  | defaultKw => "default"
  | onKw => "on"
  | interruptKw => "interrupt"
  | taskKw => "task"
  | everyKw => "every"
  | backgroundKw => "background"
  | signalKw => "signal"
  | emitKw => "emit"
  | atomicKw => "atomic"
  | loadKw => "load"
  | asKw => "as"
  | classKw => "class"
  | structKw => "struct"
  | enumKw => "enum"
  | constructorKw => "constructor"
  | newKw => "new"
  | selfKw => "self"
  | configKw => "config"
  | aliasKw => "alias"
  | trueKw => "true"
  | falseKw => "false"
  | breakKw => "break"
  | continueKw => "continue"
  | andKw => "and"
  | orKw => "or"
  | notKw => "not"
  | inKw => "in"
  | catchKw => "catch"
  | risingKw => "rising"
  | fallingKw => "falling"
  | changeKw => "change"

def ofText? (s : String) : Option Keyword :=
  all.find? (·.text = s)

theorem mem_all (k : Keyword) : k ∈ all := by
  cases k <;> decide

end Keyword

inductive Token where
  | id (name : String)
  | keyword (word : Keyword)
  | number (value : Number) (unit : Option PhysicalUnit)
  | str (value : String)
  | path (value : String)
  | mainDirective
  | directive (name : String)
  | punct (mark : Punct)

namespace Token

/-- How messages name a token. -/
def text : Token → String
  | id name => s!"identifier `{name}`"
  | keyword word => s!"keyword `{word.text}`"
  | number value none => s!"literal `{value.text}`"
  | number value (some unit) => s!"literal `{value.text}{unit.suffix}`"
  | str value => "string " ++ quoteString value
  | path value => s!"path `<{value}>`"
  | mainDirective => "`@main`"
  | directive name => s!"directive `@{name}`"
  | punct mark => s!"`{mark.text}`"

def isKeyword (t : Token) (k : Keyword) : Bool :=
  match t with
  | keyword word => word = k
  | _ => false

def isPunct (t : Token) (p : Punct) : Bool :=
  match t with
  | punct mark => mark = p
  | _ => false

end Token

end SketchCompiler
