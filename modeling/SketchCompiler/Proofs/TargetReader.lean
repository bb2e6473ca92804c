import Mathlib
import SketchCompiler.Grammar.Expr
import SketchCompiler.Proofs.Spelling
import SketchCompiler.Sketch.Expr

namespace SketchCompiler

open List

variable {c : Char}

inductive TargetToken where
  | name (text : String)
  | literal (text : String)
  | mark (text : String)
deriving DecidableEq, Repr

namespace TargetToken

/-- All marks, longer ones first, with those that begin a comment. -/
def marks : List String :=
  ["%:%:", "...", "->*", "<<=", ">>=", "<=>", "::", ".*", "->", "++", "--", "<<", ">>", "<=", ">=", "==", "!=", "&&",
    "||", "+=", "-=", "*=", "/=", "%=", "^=", "&=", "|=", "##", "<:", ":>", "<%", "%>", "%:", "//", "/*", "\x7b",
    "\x7d", "[", "]", "#", "(", ")", ";", ":", "?", ".", "~", "!", "+", "-", "*", "/", "%", "^", "&", "|", "=", "<",
    ">", ","]

/-- How many characters continue a name, which may be qualified. -/
def nameLength : List Char → Nat
  | ':' :: ':' :: c :: cs => if isWordStart c then nameLength cs + 3 else 0
  | c :: cs => if isWordChar c then nameLength cs + 1 else 0
  | [] => 0

/-- How many characters continue a number behind `last`: letters and points always do, and a sign does behind an
exponent. -/
def numberLength (last : Char) : List Char → Nat
  | c :: cs =>
    if isWordChar c || c = '.' || ((c = '+' || c = '-') && "eEpP".contains last) then numberLength c cs + 1 else 0
  | [] => 0

/-- How many characters there are up to the end of a string. -/
def stringLength : List Char → Option Nat
  | '\\' :: _ :: cs => (stringLength cs).map (· + 2)
  | '"' :: _ => some 1
  | '\n' :: _ => none
  | _ :: cs => (stringLength cs).map (· + 1)
  | [] => none

/-- The first token, and how many characters it has. -/
def read? : List Char → Option (TargetToken × Nat)
  | [] => none
  | c :: cs =>
    let spelled (make : String → TargetToken) (n : Nat) := (make (String.ofList (c :: cs.take n)), n + 1)
    if isWordStart c then some (spelled .name (nameLength cs))
    else if c.isDigit || (c = '.' && cs.head?.any Char.isDigit) then some (spelled .literal (numberLength c cs))
    else if c = '"' then (stringLength cs).map (spelled .literal)
    else (marks.find? (·.toList.isPrefixOf (c :: cs))).map fun m => (.mark m, m.length)

/-- The tokens behind the next `skip` characters. -/
def scan : (skip : Nat) → List Char → Option (List TargetToken)
  | _, [] => some []
  | skip + 1, _ :: cs => scan skip cs
  | 0, c :: cs =>
    if c.isWhitespace then scan 0 cs
    else
      match read? (c :: cs) with
      | some (t, n) => (scan (n - 1) cs).map (t :: ·)
      | none => none

end TargetToken

/-- The marks that may stand before an operand, as far as the code has them. -/
inductive TargetSign where
  | minus | bang | decrement
deriving DecidableEq, Repr

def TargetSign.ofMark? (m : String) : Option TargetSign :=
  if m = "-" then some .minus else if m = "!" then some .bang else if m = "--" then some .decrement else none

def BinOp.ofMark? (m : String) : Option BinOp :=
  [or, and, bitOr, bitXor, bitAnd, equal, notEqual, less, lessEqual, greater, greaterEqual, shiftLeft, shiftRight, add,
    sub, mul, div, mod].find? (·.text = m)

inductive TargetTree where
  | operand (text : String)
  | paren (inner : TargetTree)
  | signed (sign : TargetSign) (operand : TargetTree)
  | cast (type : String) (operand : TargetTree)
  | binary (left : TargetTree) (op : BinOp) (right : TargetTree)
  | call (callee : TargetTree) (args : List TargetTree)
  | member (object : TargetTree) (name : String)
  | subscript (array index : TargetTree)

/-- The name in a pair of parentheses. -/
def TargetTree.typeName? : TargetTree → Option String
  | .paren (.operand x) => if x.toList.head?.any isWordStart then some x else none
  | _ => none

/-- What waits for an expression to end. -/
inductive TargetFrame where
  | signed (sign : TargetSign)
  | cast (type : String)
  | binary (left : TargetTree) (op : BinOp)
  | paren
  | call (callee : TargetTree) (args : List TargetTree)
  | subscript (array : TargetTree)

/-- What comes next: an operand, what follows a complete one, or the name of a member. -/
inductive TargetMode where
  | wanted
  | complete (t : TargetTree)
  | field (object : TargetTree)

/-- A reader of tokens, with what waits, innermost first. -/
structure TargetReader where
  frames : List TargetFrame
  mode : TargetMode

namespace TargetReader

/-- Ends signs, casts, and operators of at least the level. -/
def close (level : Nat) : List TargetFrame → TargetTree → List TargetFrame × TargetTree
  | .signed sign :: fs, t => close level fs (.signed sign t)
  | .cast type :: fs, t => close level fs (.cast type t)
  | .binary left op :: fs, t =>
    if level ≤ op.level then close level fs (.binary left op t) else (.binary left op :: fs, t)
  | fs, t => (fs, t)

def begin? (fs : List TargetFrame) : TargetToken → Option TargetReader
  | .name x | .literal x => some ⟨fs, .complete (.operand x)⟩
  | .mark "(" => some ⟨.paren :: fs, .wanted⟩
  | .mark ")" =>
    match fs with
    | .call callee [] :: fs => some ⟨fs, .complete (.call callee [])⟩
    | _ => none
  | .mark m => (TargetSign.ofMark? m).map fun sign => ⟨.signed sign :: fs, .wanted⟩

/-- Ends what waits at a closing mark or at a comma. -/
def finish? (fs : List TargetFrame) (t : TargetTree) (m : String) : Option TargetReader :=
  match close 0 fs t, m with
  | (.paren :: fs, t), ")" => some ⟨fs, .complete (.paren t)⟩
  | (.call callee args :: fs, t), ")" => some ⟨fs, .complete (.call callee (args ++ [t]))⟩
  | (.call callee args :: fs, t), "," => some ⟨.call callee (args ++ [t]) :: fs, .wanted⟩
  | (.subscript array :: fs, t), "]" => some ⟨fs, .complete (.subscript array t)⟩
  | _, _ => none

/-- The text does not say which names are types. A name in parentheses is one if it stands right before a parenthesis,
and no type stands right before it. -/
def proceed? (fs : List TargetFrame) (t : TargetTree) : (m : String) → Option TargetReader
  | "." => some ⟨fs, .field t⟩
  | "[" => some ⟨.subscript t :: fs, .wanted⟩
  | "(" =>
    match t.typeName?, fs with
    | none, _ | some _, .cast _ :: _ => some ⟨.call t [] :: fs, .wanted⟩
    | some type, _ => some ⟨.paren :: .cast type :: fs, .wanted⟩
  | m =>
    match BinOp.ofMark? m with
    | some op =>
      let (fs, left) := close op.level fs t
      some ⟨.binary left op :: fs, .wanted⟩
    | none => finish? fs t m

def step (s : TargetReader) (t : TargetToken) : Option TargetReader :=
  match s.mode, t with
  | .wanted, t => begin? s.frames t
  | .complete o, .mark m => proceed? s.frames o m
  | .field o, .name x => some ⟨s.frames, .complete (.member o x)⟩
  | _, _ => none

def tree? : TargetReader → Option TargetTree
  | ⟨fs, .complete t⟩ =>
    match close 0 fs t with
    | ([], t) => some t
    | _ => none
  | _ => none

end TargetReader

def TargetTree.read? (code : String) : Option TargetTree := do
  let tokens ← TargetToken.scan 0 code.toList
  let s ← tokens.foldlM TargetReader.step ⟨[], .wanted⟩
  s.tree?

/-- Words with double colons between them. -/
def IsPath (s : String) : Prop :=
  ∃ words : List String, words ≠ [] ∧ (∀ x ∈ words, IsWord x.toList) ∧ s = "::".intercalate words

/-- A digit, and then digits, letters and points. -/
def IsNumeral (s : String) : Prop := ∃ c r, s.toList = c :: r ∧ c.isDigit ∧ ∀ x ∈ r, isWordChar x ∨ x = '.'

/-- Numbers end before these characters. -/
def Ends (cs : List Char) : Prop := ∀ c ∈ cs.head?, c ∈ [' ', ')', ']', ',', '(', '[']

/-- Names end before these characters. -/
def EndsName (cs : List Char) : Prop := ∀ c ∈ cs.head?, c ∈ ['.', ' ', ')', ']', ',', '(', '[']

lemma Ends.endsName {cs} (h : Ends cs) : EndsName cs := fun c hc => mem_cons_of_mem _ (h c hc)

namespace TargetToken

variable {cs w : List Char}

lemma nameLength_cons (hc : isWordChar c) : nameLength (c :: cs) = nameLength cs + 1 := by
  have hne : c ≠ ':' := by
    rintro rfl
    cases hc
  rw [nameLength.eq_2 c cs fun _ _ h _ => hne h, if_pos hc]

lemma nameLength_word (hw : ∀ x ∈ w, isWordChar x) : nameLength (w ++ cs) = w.length + nameLength cs := by
  induction w with
  | nil => simp
  | cons c w ih =>
    obtain ⟨hc, hw⟩ := forall_mem_cons.mp hw
    rw [cons_append, nameLength_cons hc, ih hw, length_cons]
    omega

lemma nameLength_eq_zero (h : EndsName cs) : nameLength cs = 0 := by
  cases cs with
  | nil => rfl
  | cons c cs =>
    have hc := h c rfl
    simp only [mem_cons, not_mem_nil, or_false] at hc
    rcases hc with rfl | rfl | rfl | rfl | rfl | rfl | rfl <;> rfl

lemma nameLength_path {words : List String} (hw : ∀ x ∈ words, IsWord x.toList) (hcs : EndsName cs) :
    nameLength (words.flatMap (fun x => ':' :: ':' :: x.toList) ++ cs) =
      (words.flatMap fun x => ':' :: ':' :: x.toList).length := by
  induction words with
  | nil => exact nameLength_eq_zero hcs
  | cons x words ih =>
    obtain ⟨hx, hw⟩ := forall_mem_cons.mp hw
    obtain ⟨c, r, hc, hstart, hr⟩ := hx
    simp only [flatMap_cons, hc, cons_append, append_assoc, length_cons, length_append]
    rw [nameLength, if_pos hstart, nameLength_word hr, ih hw]

lemma read?_path {s : String} (hs : IsPath s) (hcs : EndsName cs) :
    read? (s.toList ++ cs) = some (.name s, s.toList.length) := by
  obtain ⟨words, hne, hw, rfl⟩ := hs
  obtain ⟨x, words, rfl⟩ := exists_cons_of_ne_nil hne
  obtain ⟨hx, hw⟩ := forall_mem_cons.mp hw
  obtain ⟨c, r, hc, hstart, hr⟩ := hx
  have hchars : ("::".intercalate (x :: words)).toList =
      c :: (r ++ words.flatMap fun x => ':' :: ':' :: x.toList) := by
    rw [toList_intercalate_cons, hc]
    rfl
  have hlength : nameLength (r ++ (words.flatMap (fun x => ':' :: ':' :: x.toList) ++ cs)) =
      (r ++ words.flatMap fun x => ':' :: ':' :: x.toList).length := by
    rw [nameLength_word hr, nameLength_path hw hcs, length_append]
  rw [← append_assoc] at hlength
  rw [← String.ofList_toList (s := "::".intercalate (x :: words)), hchars, String.toList_ofList, cons_append, read?]
  simp only [hstart, if_true, hlength, take_left, length_cons]

lemma numberLength_eq (hw : ∀ x ∈ w, isWordChar x ∨ x = '.') (hcs : Ends cs) (last : Char) :
    numberLength last (w ++ cs) = w.length := by
  induction w generalizing last with
  | nil =>
    cases cs with
    | nil => rfl
    | cons c cs =>
      have hc := hcs c rfl
      simp only [mem_cons, not_mem_nil, or_false] at hc
      rcases hc with rfl | rfl | rfl | rfl | rfl | rfl <;> rfl
  | cons c w ih =>
    obtain ⟨hc, hw⟩ := forall_mem_cons.mp hw
    rw [cons_append, numberLength, if_pos, ih hw, length_cons]
    rcases hc with hc | rfl <;> simp [*]

lemma read?_numeral {s : String} (hs : IsNumeral s) (hcs : Ends cs) :
    read? (s.toList ++ cs) = some (.literal s, s.toList.length) := by
  obtain ⟨c, r, hc, hdigit, hr⟩ := hs
  rw [← String.ofList_toList (s := s), hc, String.toList_ofList, cons_append, read?]
  simp only [not_isWordStart_of_isDigit hdigit, hdigit, Bool.true_or, if_true, Bool.false_eq_true, if_false,
    numberLength_eq hr hcs, take_left, length_cons]

lemma stringLength_char (c : Char) :
    stringLength (escapeTargetChar c ++ cs) = (stringLength cs).map (· + (escapeTargetChar c).length) := by
  unfold escapeTargetChar
  split
  case h_7 hq hs hn _ _ _ => exact stringLength.eq_4 c cs (fun _ _ h _ => hs h) hq hn
  all_goals rfl

lemma stringLength_escaped (value : List Char) : stringLength (value.flatMap escapeTargetChar ++ '"' :: cs) =
      some ((value.flatMap escapeTargetChar).length + 1) := by
  induction value with
  | nil => rfl
  | cons c value ih =>
    rw [flatMap_cons, append_assoc, stringLength_char, ih, Option.map_some, length_append]
    congr 1
    omega

lemma read?_str (value : String) : read? ((Literal.str value).code.toList ++ cs) =
      some (.literal (Literal.str value).code, (Literal.str value).code.toList.length) := by
  have hlength : stringLength (value.toList.flatMap escapeTargetChar ++ ['"'] ++ cs) =
      some (value.toList.flatMap escapeTargetChar ++ ['"']).length := by
    rw [append_assoc, singleton_append, stringLength_escaped, length_append, length_singleton]
  rw [Literal.code, String.toList_ofList, cons_append, cons_append, read?]
  simp only [hlength, Option.map_some, take_left, length_cons]
  rfl

lemma read?_period (hc : isWordStart c) : read? ('.' :: c :: cs) = some (.mark ".", 1) := by
  have hdigit := not_isDigit_of_isWordStart hc
  have hpoint : ('.' == c) = false := by
    rw [beq_eq_false_iff_ne]
    rintro rfl
    cases hc
  have hstar : ('*' == c) = false := by
    rw [beq_eq_false_iff_ne]
    rintro rfl
    cases hc
  simp [read?, marks, List.isPrefixOf, hdigit, hpoint, hstar, isWordStart]
  rfl

lemma read?_minus (hc : c ≠ '-' ∧ c ≠ '>' ∧ c ≠ '=') : read? ('-' :: c :: cs) = some (.mark "-", 1) := by
  have hminus := beq_eq_false_iff_ne.mpr hc.1.symm
  have hgreater := beq_eq_false_iff_ne.mpr hc.2.1.symm
  have hequal := beq_eq_false_iff_ne.mpr hc.2.2.symm
  simp [read?, marks, List.isPrefixOf, hminus, hgreater, hequal, isWordStart]
  rfl

lemma read?_bang (hc : c ≠ '=') : read? ('!' :: c :: cs) = some (.mark "!", 1) := by
  have hequal := beq_eq_false_iff_ne.mpr hc.symm
  simp [read?, marks, List.isPrefixOf, hequal, isWordStart]
  rfl

lemma read?_binary (op : BinOp) :
    read? (op.text.toList ++ ' ' :: cs) = some (.mark op.text, op.text.toList.length) := by
  cases op <;> rfl

lemma read?_whitespace (hc : c.isWhitespace) : read? (c :: cs) = none := by
  simp only [Char.isWhitespace, Bool.or_eq_true, decide_eq_true_eq] at hc
  rcases hc with ((rfl | rfl) | rfl) | rfl <;> rfl

lemma scan_drop : scan w.length (w ++ cs) = scan 0 cs := by
  induction w with
  | nil => rfl
  | cons c w ih => exact ih

lemma scan_token {t} (hw : w ≠ []) (h : read? (w ++ cs) = some (t, w.length)) :
    scan 0 (w ++ cs) = (scan 0 cs).map (t :: ·) := by
  obtain ⟨c, w, rfl⟩ := exists_cons_of_ne_nil hw
  have hc : ¬ c.isWhitespace := by
    intro hc
    cases (read?_whitespace hc).symm.trans h
  rw [cons_append] at h ⊢
  rw [scan, if_neg hc, h]
  simp only [length_cons, Nat.add_sub_cancel, scan_drop]

end TargetToken

namespace TargetReader

open TargetToken

variable {s s1 s2 : TargetReader} {cs cs1 cs2 : List Char}

/-- The reader gets from one place to another, whatever stands behind it. -/
def Reads (s : TargetReader) (cs : List Char) (s' : TargetReader) (cs' : List Char) : Prop :=
  ∃ ts, (scan 0 cs = (scan 0 cs').map (ts ++ ·)) ∧ ts.foldlM step s = some s'

lemma Reads.refl : Reads s cs s cs := ⟨[], by simp, rfl⟩

lemma Reads.trans (h1 : Reads s cs s1 cs1) (h2 : Reads s1 cs1 s2 cs2) : Reads s cs s2 cs2 := by
  obtain ⟨ts, hscan, hsteps⟩ := h1
  obtain ⟨ts', hscan', hsteps'⟩ := h2
  refine ⟨ts ++ ts', ?_, ?_⟩
  · rw [hscan, hscan', Option.map_map]
    simp [Function.comp_def]
  · rw [foldlM_append, hsteps]
    exact hsteps'

lemma Reads.space : Reads s (' ' :: cs) s cs := ⟨[], by simp [scan], rfl⟩

lemma Reads.token {w : List Char} {t} (hw : w ≠ []) (h : read? (w ++ cs) = some (t, w.length))
    (hs : s.step t = some s1) : Reads s (w ++ cs) s1 cs :=
  ⟨[t], scan_token hw h, by simp [hs]⟩

lemma Reads.read? {code : String} (h : Reads ⟨[], .wanted⟩ code.toList s []) : TargetTree.read? code = s.tree? := by
  obtain ⟨ts, hscan, hsteps⟩ := h
  have hscan' : scan 0 code.toList = some ts := by
    rw [hscan]
    simp [scan]
  rw [TargetTree.read?, hscan']
  simp [hsteps]

end TargetReader

end SketchCompiler
