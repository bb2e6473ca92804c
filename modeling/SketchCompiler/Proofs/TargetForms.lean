import SketchCompiler.Proofs.ExprTokens
import SketchCompiler.Proofs.TargetReader

namespace SketchCompiler

open List

/-- Two minus signs in a row are one mark. -/
def mergeSigns : List UnOp → List TargetSign
  | .negate :: .negate :: ops => .decrement :: mergeSigns ops
  | .negate :: ops => .minus :: mergeSigns ops
  | .not :: ops => .bang :: mergeSigns ops
  | [] => []

/-- An operand as it is read. -/
structure TargetForm where
  signs : List UnOp := []
  type : Option String := none
  core : TargetTree

namespace TargetForm

def cast (f : TargetForm) : TargetTree :=
  match f.type with
  | some type => .cast type f.core
  | none => f.core

def tree (f : TargetForm) : TargetTree :=
  (mergeSigns f.signs).foldr .signed f.cast

end TargetForm

namespace TargetTree

def isNumeral : TargetTree → Bool
  | .operand x => x.toList.head?.any Char.isDigit
  | _ => false

/-- A name behind a point; behind a number both belong to the number. -/
def dot (t : TargetTree) (name : String) : TargetTree :=
  match t with
  | .operand x => if (operand x).isNumeral then .operand (x ++ "." ++ name) else .member (.operand x) name
  | t => .member t name

end TargetTree

/-- The function of the target that a function stands for. -/
def Builtin.tree (name : String) : TargetTree :=
  if name = "print" ∨ name = "println" then .member (.operand "Serial") name else .operand (Builtin.target name)

namespace Scene

def calleeTree (k : Scene) (callee : Expr) (t : TargetTree) : TargetTree :=
  match callee with
  | .name _ ⟨name, some id⟩ =>
    if k.table.kind id = .builtin then Builtin.tree name.text else t
  | _ => t

end Scene

/-- A binary operation that is an operand stands in parentheses. -/
def Expr.wrapForm (e : Expr) (f : TargetForm) : TargetForm :=
  if e.isBinary then { core := .paren f.tree } else f

mutual

/-- How the code of an expression is read. -/
def Expr.form (k : Scene) : Expr → TargetForm
  | .literal _ v => { core := .operand v.code }
  | .name _ r => { core := .operand (k.reference r) }
  | .binary _ a op b => { core := .binary (a.wrapForm (a.form k)).tree op (b.wrapForm (b.form k)).tree }
  | .unary _ op e =>
    let f := e.wrapForm (e.form k)
    { f with signs := op :: f.signs }
  | .call _ callee args =>
    let f := callee.wrapForm (callee.form k)
    { f with core := .call (k.calleeTree callee f.core) (formTrees k args) }
  | .member l object name symbol =>
    if k.isQualified object symbol then { core := .operand ((Expr.member l object name symbol).code k) }
    else
      let f := object.wrapForm (object.form k)
      { f with core := f.core.dot name.text }
  | .subscript _ a i =>
    let f := a.wrapForm (a.form k)
    { f with core := .subscript f.core (i.form k).tree }
  | .convert _ e type =>
    if type.value.code = "String" then { core := .call (.operand "String") [(e.form k).tree] }
    else { type := some type.value.code, core := .paren (e.form k).tree }
  | e => { core := .operand (e.code k) }

def formTrees (k : Scene) : List Expr → List TargetTree
  | [] => []
  | e :: es => (e.form k).tree :: formTrees k es

end

lemma IsNumeral.isNumeral {s : String} (h : IsNumeral s) : (TargetTree.operand s).isNumeral := by
  obtain ⟨c, r, hc, hd, -⟩ := h
  simp [TargetTree.isNumeral, hc, hd]

lemma IsNumeral.append {s name : String} (h : IsNumeral s) (hname : IsWord name.toList) :
    IsNumeral (s ++ "." ++ name) := by
  obtain ⟨c, r, hc, hd, hr⟩ := h
  obtain ⟨d, w, hw, hstart, hword⟩ := hname
  refine ⟨c, r ++ '.' :: name.toList, by simp [hc], hd, ?_⟩
  rw [hw, forall_mem_append, forall_mem_cons, forall_mem_cons]
  exact ⟨hr, .inr rfl, .inl (isWordChar_of_isWordStart hstart), fun x hx => .inl (hword x hx)⟩

lemma TargetTree.dot_of_not_numeral {t : TargetTree} (h : t.isNumeral = false) (name : String) :
    t.dot name = .member t name := by
  cases t with
  | operand x => simp [dot, h]
  | _ => rfl

namespace TargetReader

open TargetToken

variable {fs : List TargetFrame} {cs rest : List Char} {t : TargetTree}

/-- No type stands right before. -/
def Free (fs : List TargetFrame) : Prop := ∀ type, fs.head? ≠ some (.cast type)

/-- An expression begins here, and not only an operand. -/
def Waits : List TargetFrame → Prop
  | [] | .paren :: _ | .call .. :: _ | .subscript .. :: _ => True
  | _ => False

lemma Waits.free (h : Waits fs) : Free fs := by
  intro type ht
  match fs, ht with
  | .cast _ :: _, _ => exact h

lemma Waits.close (h : Waits fs) (level : Nat) (t : TargetTree) : close level fs t = (fs, t) := by
  match fs, h with
  | [], _ | .paren :: _, _ | .call .. :: _, _ | .subscript .. :: _, _ => rfl

def castFrames (type : Option String) : List TargetFrame := (type.map .cast).toList

/-- What waits for the core of an operand, innermost first. -/
def formFrames (f : TargetForm) : List TargetFrame :=
  castFrames f.type ++ ((mergeSigns f.signs).map .signed).reverse

lemma close_signs (level : Nat) (signs : List TargetSign) :
    close level ((signs.map .signed).reverse ++ fs) t = close level fs (signs.foldr .signed t) := by
  induction signs generalizing fs with
  | nil => rfl
  | cons s signs ih =>
    rw [map_cons, reverse_cons, append_assoc, ih]
    rfl

lemma close_formFrames (level : Nat) (f : TargetForm) :
    close level (formFrames f ++ fs) f.core = close level fs f.tree := by
  rw [TargetForm.tree, ← close_signs, formFrames, append_assoc, TargetForm.cast]
  cases f.type <;> rfl

/-- The first character ends a sign. -/
def Begins (cs : List Char) : Prop := ∃ c r, cs = c :: r ∧ c ≠ '-' ∧ c ≠ '>' ∧ c ≠ '='

lemma reads_signs (ops : List UnOp) (hcs : Begins cs) (fs : List TargetFrame) :
    Reads ⟨fs, .wanted⟩ (ops.flatMap (·.text.toList) ++ cs)
      ⟨((mergeSigns ops).map .signed).reverse ++ fs, .wanted⟩ cs := by
  induction ops using mergeSigns.induct generalizing fs with
  | case1 ops ih =>
    have hread : Reads ⟨fs, .wanted⟩ ("--".toList ++ (ops.flatMap (·.text.toList) ++ cs))
        ⟨.signed .decrement :: fs, .wanted⟩ (ops.flatMap (·.text.toList) ++ cs) := .token (by simp) rfl rfl
    simpa [mergeSigns, UnOp.text] using hread.trans (ih (.signed .decrement :: fs))
  | case2 ops hops ih =>
    -- No other minus sign follows.
    have hbegins : Begins (ops.flatMap (·.text.toList) ++ cs) := by
      match ops, hops with
      | [], _ => exact hcs
      | .not :: ops, _ => exact ⟨'!', _, rfl, by decide⟩
      | .negate :: ops, hops => exact (hops ops rfl).elim
    obtain ⟨c, r, hc, hne⟩ := hbegins
    have hread : Reads ⟨fs, .wanted⟩ (['-'] ++ (ops.flatMap (·.text.toList) ++ cs))
        ⟨.signed .minus :: fs, .wanted⟩ (ops.flatMap (·.text.toList) ++ cs) := by
      refine .token (t := .mark "-") (by simp) ?_ rfl
      rw [hc]
      exact read?_minus hne
    rw [mergeSigns.eq_2 ops hops]
    simpa [UnOp.text] using hread.trans (ih (.signed .minus :: fs))
  | case3 ops ih =>
    have hbegins : ∃ c r, ops.flatMap (·.text.toList) ++ cs = c :: r ∧ c ≠ '=' := by
      match ops with
      | [] =>
        obtain ⟨c, r, hc, -, -, hne⟩ := hcs
        exact ⟨c, r, hc, hne⟩
      | .not :: ops => exact ⟨'!', _, rfl, by decide⟩
      | .negate :: ops => exact ⟨'-', _, rfl, by decide⟩
    obtain ⟨c, r, hc, hne⟩ := hbegins
    have hread : Reads ⟨fs, .wanted⟩ (['!'] ++ (ops.flatMap (·.text.toList) ++ cs))
        ⟨.signed .bang :: fs, .wanted⟩ (ops.flatMap (·.text.toList) ++ cs) := by
      refine .token (t := .mark "!") (by simp) ?_ rfl
      rw [hc]
      exact read?_bang hne
    simpa [mergeSigns, UnOp.text] using hread.trans (ih (.signed .bang :: fs))
  | case4 => exact .refl

/-- The characters are read as the core of an operand, behind a cast if there is one. -/
inductive CoreText : Option String → TargetTree → List Char → Prop
  | numeral {s} (h : IsNumeral s) : CoreText none (.operand s) s.toList
  | other {type t cs} (hn : t.isNumeral = false) (ht : type = none → t.typeName? = none)
      (h : ∀ fs rest, Free fs → EndsName rest → Reads ⟨fs, .wanted⟩ (cs ++ rest) ⟨castFrames type ++ fs, .complete t⟩
      rest) : CoreText type t cs

lemma CoreText.reads {type : Option String} (h : CoreText type t cs) (hfs : Free fs) (hrest : Ends rest) :
    Reads ⟨fs, .wanted⟩ (cs ++ rest) ⟨castFrames type ++ fs, .complete t⟩ rest := by
  cases h with
  | numeral h =>
    obtain ⟨c, r, hc, -⟩ := id h
    exact .token (by simp [hc]) (read?_numeral h hrest) rfl
  | other _ _ h => exact h fs rest hfs hrest.endsName

lemma CoreText.typeName?_eq_none {type : Option String} (h : CoreText type t cs) (hnone : type = none) :
    t.typeName? = none := by
  cases h with
  | numeral => rfl
  | other _ ht _ => exact ht hnone

/-- The characters are read as the operand. -/
def Spells (f : TargetForm) (cs : List Char) : Prop :=
  ∃ core, cs = f.signs.flatMap (·.text.toList) ++ core ∧ Begins core ∧ CoreText f.type f.core core

lemma Spells.reads {f : TargetForm} (h : Spells f cs) (hfs : Free fs) (hrest : Ends rest) :
    Reads ⟨fs, .wanted⟩ (cs ++ rest) ⟨formFrames f ++ fs, .complete f.core⟩ rest := by
  obtain ⟨core, rfl, ⟨c, r, hc, hne⟩, hcore⟩ := h
  have hbegins : Begins (core ++ rest) := ⟨c, r ++ rest, by rw [hc, cons_append], hne⟩
  have hfree : Free (((mergeSigns f.signs).map .signed).reverse ++ fs) := by
    intro type ht
    cases hsigns : ((mergeSigns f.signs).map TargetFrame.signed).reverse with
    | nil =>
      rw [hsigns] at ht
      exact hfs type ht
    | cons frame frames =>
      have hmem : frame ∈ (mergeSigns f.signs).map TargetFrame.signed :=
        mem_reverse.mp (by rw [hsigns]; exact mem_cons_self)
      obtain ⟨sign, -, rfl⟩ := mem_map.mp hmem
      rw [hsigns] at ht
      cases ht
  have h := (reads_signs f.signs hbegins fs).trans (hcore.reads hfree hrest)
  rwa [← append_assoc, ← append_assoc] at h

/-- The characters are read as the whole expression, where one begins. -/
def Whole (t : TargetTree) (cs : List Char) : Prop :=
  ∀ fs rest, Waits fs → Ends rest → ∃ fs' t', Reads ⟨fs, .wanted⟩ (cs ++ rest) ⟨fs', .complete t'⟩ rest ∧
    close 0 fs' t' = (fs, t)

lemma Spells.whole {f : TargetForm} (h : Spells f cs) : Whole f.tree cs := by
  intro fs rest hfs hrest
  refine ⟨_, _, h.reads hfs.free hrest, ?_⟩
  rw [close_formFrames, hfs.close]

section Marks

lemma ends_cons {c : Char} (hc : c ∈ [' ', ')', ']', ',', '(', '[']) : Ends (c :: rest) := by
  rintro d ⟨⟩
  exact hc

section Steps

variable {fs' : List TargetFrame} {t' callee : TargetTree} {args : List TargetTree}

lemma step_closeParen (h : close 0 fs' t' = (.paren :: fs, t)) :
    step ⟨fs', .complete t'⟩ (.mark ")") = some ⟨fs, .complete (.paren t)⟩ := by
  change finish? fs' t' ")" = _
  unfold finish?
  rw [h]
  rfl

lemma step_closeCall (h : close 0 fs' t' = (.call callee args :: fs, t)) :
    step ⟨fs', .complete t'⟩ (.mark ")") = some ⟨fs, .complete (.call callee (args ++ [t]))⟩ := by
  change finish? fs' t' ")" = _
  unfold finish?
  rw [h]
  rfl

lemma step_comma (h : close 0 fs' t' = (.call callee args :: fs, t)) :
    step ⟨fs', .complete t'⟩ (.mark ",") = some ⟨.call callee (args ++ [t]) :: fs, .wanted⟩ := by
  change finish? fs' t' "," = _
  unfold finish?
  rw [h]
  rfl

lemma step_closeSquare {array : TargetTree} (h : close 0 fs' t' = (.subscript array :: fs, t)) :
    step ⟨fs', .complete t'⟩ (.mark "]") = some ⟨fs, .complete (.subscript array t)⟩ := by
  change finish? fs' t' "]" = _
  unfold finish?
  rw [h]
  rfl

lemma step_binary (op : BinOp) : step ⟨fs, .complete t⟩ (.mark op.text) =
    some ⟨.binary (close op.level fs t).2 op :: (close op.level fs t).1, .wanted⟩ := by
  cases op <;> rfl

lemma step_openParen {type : Option String} (ht : type = none → t.typeName? = none) :
    step ⟨castFrames type ++ fs, .complete t⟩ (.mark "(") = some ⟨.call t [] :: (castFrames type ++ fs), .wanted⟩ := by
  change proceed? (castFrames type ++ fs) t "(" = _
  unfold proceed?
  cases type with
  | none => simp [ht rfl]
  | some type =>
    cases hname : t.typeName? with
    | none => simp
    | some name => simp [castFrames]

lemma step_cast {type : String} (hfs : Free fs) (ht : t.typeName? = some type) :
    step ⟨fs, .complete t⟩ (.mark "(") = some ⟨.paren :: .cast type :: fs, .wanted⟩ := by
  change proceed? fs t "(" = _
  unfold proceed?
  cases fs with
  | nil => simp [ht]
  | cons frame fs =>
    cases frame with
    | cast type' => exact absurd rfl (hfs type')
    | _ => simp [ht]

end Steps

lemma Whole.paren (h : Whole t cs) :
    Reads ⟨.paren :: fs, .wanted⟩ (cs ++ ')' :: rest) ⟨fs, .complete (.paren t)⟩ rest := by
  obtain ⟨fs', t', hreads, hclose⟩ := h (.paren :: fs) (')' :: rest) trivial (ends_cons (by simp))
  exact hreads.trans (.token (w := [')']) (by simp) rfl (step_closeParen hclose))

lemma Whole.subscript {array : TargetTree} (h : Whole t cs) :
    Reads ⟨.subscript array :: fs, .wanted⟩ (cs ++ ']' :: rest) ⟨fs, .complete (.subscript array t)⟩ rest := by
  obtain ⟨fs', t', hreads, hclose⟩ := h (.subscript array :: fs) (']' :: rest) trivial (ends_cons (by simp))
  exact hreads.trans (.token (w := [']']) (by simp) rfl (step_closeSquare hclose))

section Arguments

variable {k : Scene} {callee : TargetTree} {args : List Expr}

/-- What is written behind an argument. -/
def argumentTail (k : Scene) (args : List Expr) (rest : List Char) : List Char :=
  (exprCodes k args).flatMap (fun c => ',' :: ' ' :: c.toList) ++ ')' :: rest

lemma ends_argumentTail : Ends (argumentTail k args rest) := by
  cases args <;> exact ends_cons (by simp)

lemma reads_argumentTail (h : ∀ e ∈ args, Whole (e.form k).tree (e.code k).toList) {before : List TargetTree}
    {fs' : List TargetFrame} {t t' : TargetTree} (ht : close 0 fs' t' = (.call callee before :: fs, t)) :
    Reads ⟨fs', .complete t'⟩ (argumentTail k args rest)
      ⟨fs, .complete (.call callee (before ++ t :: formTrees k args))⟩ rest := by
  induction args generalizing before fs' t t' with
  | nil => exact .token (w := [')']) (by simp) rfl (step_closeCall ht)
  | cons e args ih =>
    obtain ⟨he, hargs⟩ := forall_mem_cons.mp h
    have hcomma : Reads ⟨fs', .complete t'⟩ ([','] ++ ' ' :: ((e.code k).toList ++ argumentTail k args rest))
        ⟨.call callee (before ++ [t]) :: fs, .wanted⟩ (' ' :: ((e.code k).toList ++ argumentTail k args rest)) :=
      .token (by simp) rfl (step_comma ht)
    obtain ⟨fs'', t'', hreads, hclose⟩ :=
      he (.call callee (before ++ [t]) :: fs) (argumentTail k args rest) trivial ends_argumentTail
    have hrest := (hcomma.trans .space).trans (hreads.trans (ih hargs hclose))
    simpa [argumentTail, exprCodes, formTrees] using hrest

lemma reads_arguments (h : ∀ e ∈ args, Whole (e.form k).tree (e.code k).toList) :
    Reads ⟨.call callee [] :: fs, .wanted⟩ ((commaList (exprCodes k args)).toList ++ ')' :: rest)
      ⟨fs, .complete (.call callee (formTrees k args))⟩ rest := by
  cases args with
  | nil => exact .token (w := [')']) (by simp) rfl rfl
  | cons e args =>
    obtain ⟨he, hargs⟩ := forall_mem_cons.mp h
    obtain ⟨fs', t', hreads, hclose⟩ :=
      he (.call callee [] :: fs) (argumentTail k args rest) trivial ends_argumentTail
    rw [exprCodes, toList_commaList, append_assoc]
    exact hreads.trans (reads_argumentTail hargs hclose)

end Arguments

end Marks

section Suffixes

variable {f : TargetForm}

lemma Spells.suffix (h : Spells f cs) {w : List Char} {t' : TargetTree}
    (ht : t'.isNumeral = false ∧ t'.typeName? = none)
    (hw : ∀ rest, EndsName (w ++ rest) ∧ (f.core.isNumeral → Ends (w ++ rest)))
    (hreads : ∀ fs rest, EndsName rest → Reads ⟨castFrames f.type ++ fs, .complete f.core⟩ (w ++ rest)
      ⟨castFrames f.type ++ fs, .complete t'⟩ rest) : Spells { f with core := t' } (cs ++ w) := by
  obtain ⟨signs, type, t⟩ := f
  obtain ⟨core, rfl, ⟨c, r, hc, hne⟩, hcore⟩ := h
  refine ⟨core ++ w, by rw [append_assoc], ⟨c, r ++ w, by rw [hc, cons_append], hne⟩, ?_⟩
  refine .other ht.1 (fun _ => ht.2) fun fs rest hfs hrest => ?_
  rw [append_assoc]
  refine .trans ?_ (hreads fs rest hrest)
  cases hcore with
  | numeral h => exact CoreText.reads (.numeral h) hfs ((hw rest).2 h.isNumeral)
  | other _ _ h => exact h fs _ hfs (hw rest).1

lemma Spells.call {k : Scene} {args : List Expr} (h : Spells f cs)
    (hargs : ∀ e ∈ args, Whole (e.form k).tree (e.code k).toList) :
    Spells { f with core := .call f.core (formTrees k args) }
      (cs ++ ('(' :: (commaList (exprCodes k args)).toList ++ [')'])) := by
  obtain ⟨core, -, -, hcore⟩ := id h
  refine h.suffix ⟨rfl, rfl⟩ (fun rest => ⟨(ends_cons (by simp)).endsName, fun _ => ends_cons (by simp)⟩) ?_
  intro fs rest hrest
  have hopen : Reads ⟨castFrames f.type ++ fs, .complete f.core⟩
      (['('] ++ ((commaList (exprCodes k args)).toList ++ ')' :: rest))
      ⟨.call f.core [] :: (castFrames f.type ++ fs), .wanted⟩ ((commaList (exprCodes k args)).toList ++ ')' :: rest) :=
    .token (by simp) rfl (step_openParen hcore.typeName?_eq_none)
  simpa using hopen.trans (reads_arguments hargs)

lemma Spells.subscript (h : Spells f cs) {w : List Char} (hw : Whole t w) :
    Spells { f with core := .subscript f.core t } (cs ++ ('[' :: w ++ [']'])) := by
  refine h.suffix ⟨rfl, rfl⟩ (fun rest => ⟨(ends_cons (by simp)).endsName, fun _ => ends_cons (by simp)⟩) ?_
  intro fs rest hrest
  have hopen : Reads ⟨castFrames f.type ++ fs, .complete f.core⟩ (['['] ++ (w ++ ']' :: rest))
      ⟨.subscript f.core :: (castFrames f.type ++ fs), .wanted⟩ (w ++ ']' :: rest) := .token (by simp) rfl rfl
  simpa using hopen.trans hw.subscript

lemma isPath_of_isWord {s : String} (h : IsWord s.toList) : IsPath s :=
  ⟨[s], by simp, by simpa using h, by simp⟩

lemma Spells.point {name : String} (h : Spells f cs) (hn : f.core.isNumeral = false) (hname : IsWord name.toList) :
    Spells { f with core := .member f.core name } (cs ++ '.' :: name.toList) := by
  obtain ⟨c, r, hc, hstart, hr⟩ := id hname
  refine h.suffix ⟨rfl, rfl⟩ (fun rest => ⟨?_, fun h => ?_⟩) fun fs rest hrest => ?_
  · rintro d ⟨⟩
    simp
  · cases hn.symm.trans h
  · have hdot : Reads ⟨castFrames f.type ++ fs, .complete f.core⟩ (['.'] ++ (name.toList ++ rest))
        ⟨castFrames f.type ++ fs, .field f.core⟩ (name.toList ++ rest) := by
      refine .token (t := .mark ".") (by simp) ?_ rfl
      rw [hc]
      exact read?_period hstart
    exact hdot.trans (.token (by simp [hc]) (read?_path (isPath_of_isWord hname) hrest) rfl)

lemma Spells.member {name : String} (h : Spells f cs) (hname : IsWord name.toList) :
    Spells { f with core := f.core.dot name } (cs ++ '.' :: name.toList) := by
  by_cases hn : f.core.isNumeral
  · obtain ⟨signs, type, t⟩ := f
    obtain ⟨core, rfl, ⟨c, r, hc, hne⟩, hcore⟩ := h
    cases hcore with
    | other hnot => cases hnot.symm.trans hn
    | @numeral s hs =>
      refine ⟨(s ++ "." ++ name).toList, ?_, ⟨c, r ++ '.' :: name.toList, ?_, hne⟩, ?_⟩
      · simp
      · simp [hc]
      · simp only [TargetTree.dot, hn, if_true]
        exact .numeral (hs.append hname)
  · rw [TargetTree.dot_of_not_numeral (by simpa using hn)]
    exact h.point (by simpa using hn) hname

end Suffixes

section Operands

lemma begins_path {s : String} (hs : IsPath s) : ∃ c r, s.toList = c :: r ∧ isWordStart c := by
  obtain ⟨words, hne, hw, rfl⟩ := hs
  obtain ⟨x, words, rfl⟩ := exists_cons_of_ne_nil hne
  obtain ⟨c, r, hc, hstart, -⟩ := hw x mem_cons_self
  exact ⟨c, _, by rw [toList_intercalate_cons, hc, cons_append], hstart⟩

lemma isNumeral_path {s : String} (hs : IsPath s) : (TargetTree.operand s).isNumeral = false := by
  obtain ⟨c, r, hc, hstart⟩ := begins_path hs
  simp [TargetTree.isNumeral, hc, not_isDigit_of_isWordStart hstart]

lemma spells_token {s : String} {token : TargetToken} (htoken : token = .name s ∨ token = .literal s)
    (hs : ∃ c r, s.toList = c :: r ∧ c.isDigit = false ∧ c ≠ '-' ∧ c ≠ '>' ∧ c ≠ '=')
    (hread : ∀ rest, EndsName rest → read? (s.toList ++ rest) = some (token, s.toList.length)) :
    Spells { core := .operand s } s.toList := by
  obtain ⟨c, r, hc, hdigit, hne⟩ := hs
  refine ⟨s.toList, rfl, ⟨c, r, hc, hne⟩, .other ?_ (fun _ => rfl) fun fs rest _ hrest => ?_⟩
  · simp [TargetTree.isNumeral, hc, hdigit]
  · refine .token (by simp [hc]) (hread rest hrest) ?_
    rcases htoken with rfl | rfl <;> rfl

lemma spells_path {s : String} (hs : IsPath s) : Spells { core := .operand s } s.toList := by
  obtain ⟨c, r, hc, hstart⟩ := begins_path hs
  refine spells_token (.inl rfl) ⟨c, r, hc, not_isDigit_of_isWordStart hstart, ?_⟩ fun rest => read?_path hs
  refine ⟨?_, ?_, ?_⟩ <;> rintro rfl <;> cases hstart

lemma spells_str (value : String) :
    Spells { core := .operand (Literal.str value).code } (Literal.str value).code.toList := by
  refine spells_token (.inr rfl) ⟨'"', value.toList.flatMap escapeTargetChar ++ ['"'], ?_, by decide⟩ fun rest _ =>
    read?_str value
  rw [Literal.code, String.toList_ofList, cons_append]

lemma spells_numeral {s : String} (hs : IsNumeral s) : Spells { core := .operand s } s.toList := by
  obtain ⟨c, r, hc, hd, -⟩ := id hs
  refine ⟨s.toList, rfl, ⟨c, r, hc, ?_⟩, .numeral hs⟩
  refine ⟨?_, ?_, ?_⟩ <;> rintro rfl <;> cases hd

lemma Whole.spells_paren (h : Whole t cs) (ht : (TargetTree.paren t).typeName? = none) :
    Spells { core := .paren t } ('(' :: cs ++ [')']) := by
  refine ⟨_, rfl, ⟨_, _, rfl, by decide⟩, .other rfl (fun _ => ht) fun fs rest hfs hrest => ?_⟩
  have hopen : Reads ⟨fs, .wanted⟩ (['('] ++ (cs ++ ')' :: rest)) ⟨.paren :: fs, .wanted⟩ (cs ++ ')' :: rest) :=
    .token (by simp) rfl rfl
  simpa [castFrames] using hopen.trans h.paren

lemma Whole.spells_cast {type : String} (h : Whole t cs) (ht : IsPath type) :
    Spells { type := some type, core := .paren t } ('(' :: type.toList ++ ')' :: '(' :: cs ++ [')']) := by
  obtain ⟨c, r, hc, hstart⟩ := begins_path ht
  refine ⟨_, rfl, ⟨_, _, rfl, by decide⟩, .other rfl (by simp) fun fs rest hfs hrest => ?_⟩
  have hname : (TargetTree.paren (.operand type)).typeName? = some type := by
    simp [TargetTree.typeName?, hc, hstart]
  have hopen : Reads ⟨fs, .wanted⟩ (['('] ++ (type.toList ++ ')' :: '(' :: (cs ++ ')' :: rest)))
      ⟨.paren :: fs, .wanted⟩ _ := .token (by simp) rfl rfl
  have htype : Reads ⟨.paren :: fs, .wanted⟩ (type.toList ++ ')' :: '(' :: (cs ++ ')' :: rest))
      ⟨fs, .complete (.paren (.operand type))⟩ ('(' :: (cs ++ ')' :: rest)) := (spells_path ht).whole.paren
  have hcast : Reads ⟨fs, .complete (.paren (.operand type))⟩ (['('] ++ (cs ++ ')' :: rest))
      ⟨.paren :: .cast type :: fs, .wanted⟩ (cs ++ ')' :: rest) := .token (by simp) rfl (step_cast hfs hname)
  simpa [castFrames] using (hopen.trans htype).trans (hcast.trans h.paren)

lemma Spells.binary {f g : TargetForm} {op : BinOp} {ds : List Char} (hf : Spells f cs) (hg : Spells g ds) :
    Whole (.binary f.tree op g.tree) (cs ++ ' ' :: op.text.toList ++ ' ' :: ds) := by
  intro fs rest hfs hrest
  have hspace (r : List Char) : Ends (' ' :: r) := ends_cons (by simp)
  have hleft := hf.reads hfs.free (hspace (op.text.toList ++ ' ' :: (ds ++ rest)))
  have hop : Reads ⟨formFrames f ++ fs, .complete f.core⟩ (op.text.toList ++ ' ' :: (ds ++ rest))
      ⟨.binary f.tree op :: fs, .wanted⟩ (' ' :: (ds ++ rest)) := by
    refine .token ?_ (read?_binary op) ?_
    · cases op <;> simp [BinOp.text]
    · rw [step_binary, close_formFrames, hfs.close]
  have hfree : Free (.binary f.tree op :: fs) := by
    rintro type ⟨⟩
  have hright := hg.reads hfree hrest
  refine ⟨formFrames g ++ .binary f.tree op :: fs, g.core, ?_, ?_⟩
  · simpa using (hleft.trans .space).trans ((hop.trans .space).trans hright)
  · rw [close_formFrames]
    exact hfs.close 0 _

end Operands

end TargetReader

/-- A name, or a member of a module or an enumeration that is named so. -/
def Expr.isPath (k : Scene) : Expr → Bool
  | .name .. => true
  | .member _ object _ symbol => k.isQualified object symbol && object.isPath k
  | _ => false

/-- Literals, names, operations, calls, members, subscripts and conversions, written in words and numbers. -/
inductive Expr.Legible (k : Scene) : Expr → Prop
  | number {l n u} (h : IsNumeral n.text ∨ IsWord n.text.toList) : Legible k (.literal l (.number n u))
  | bool {l b} : Legible k (.literal l (.bool b))
  | str {l s} : Legible k (.literal l (.str s))
  | name {l r} (hw : IsWord r.name.text.toList) (hp : IsPath (k.reference r)) : Legible k (.name l r)
  | binary {l a op b} (ha : Legible k a) (hb : Legible k b) : Legible k (.binary l a op b)
  | unary {l op e} (he : Legible k e) : Legible k (.unary l op e)
  | call {l c args} (hc : Legible k c) (hd : k.isDeviceCall c = false) (hargs : ∀ e ∈ args, Legible k e) :
      Legible k (.call l c args)
  | qualified {l o name} {symbol} (hq : k.isQualified o symbol) (ho : o.isPath k)
      (hp : IsPath ((Expr.member l o name symbol).code k)) : Legible k (.member l o name symbol)
  | member {l o name} {symbol} (ho : Legible k o) (hq : k.isQualified o symbol = false) (hw : IsWord name.text.toList) :
      Legible k (.member l o name symbol)
  | subscript {l a i} (ha : Legible k a) (hi : Legible k i) : Legible k (.subscript l a i)
  | convert {l e type} (he : Legible k e) (ht : IsPath type.value.code) : Legible k (.convert l e type)

namespace Expr

open TargetReader

variable {k : Scene} {e : Expr}

/-- The code of the expression is read as its form says. -/
structure ReadsAs (k : Scene) (e : Expr) : Prop where
  operand : Spells (e.wrapForm (e.form k)) (e.operand k).toList
  whole : Whole (e.form k).tree (e.code k).toList

lemma ReadsAs.of_spells (hb : e.isBinary = false) (h : Spells (e.form k) (e.code k).toList) : ReadsAs k e := by
  refine ⟨?_, h.whole⟩
  rw [wrapForm, toList_operand, hb]
  exact h

lemma ReadsAs.of_whole (hb : e.isBinary) (h : Whole (e.form k).tree (e.code k).toList)
    (ht : (TargetTree.paren (e.form k).tree).typeName? = none) : ReadsAs k e := by
  refine ⟨?_, h⟩
  rw [wrapForm, toList_operand, hb]
  exact h.spells_paren ht

lemma ReadsAs.binary {l : Location} {a b : Expr} {op : BinOp} (ha : ReadsAs k a) (hb : ReadsAs k b) :
    ReadsAs k (.binary l a op b) := by
  refine .of_whole rfl ?_ rfl
  rw [toList_binary]
  exact ha.operand.binary hb.operand

lemma ReadsAs.unary {l : Location} {op : UnOp} (h : ReadsAs k e) : ReadsAs k (.unary l op e) := by
  refine .of_spells rfl ?_
  obtain ⟨core, hchars, hbegins, hcore⟩ := h.operand
  refine ⟨core, ?_, hbegins, hcore⟩
  rw [toList_unary, hchars, form, flatMap_cons, append_assoc]

lemma ReadsAs.subscript {l : Location} {a i : Expr} (ha : ReadsAs k a) (hi : ReadsAs k i) :
    ReadsAs k (.subscript l a i) := by
  refine .of_spells rfl ?_
  rw [toList_subscript, append_assoc]
  exact ha.operand.subscript hi.whole

lemma Legible.ne_self (h : Legible k e) (l : Location) : e ≠ .self l := by
  rintro rfl
  cases h

lemma ReadsAs.member {l : Location} {o : Expr} {name : Name} {symbol : Option SymbolId} (ho : ReadsAs k o)
    (hself : ∀ l', o ≠ .self l') (hq : k.isQualified o symbol = false) (hw : IsWord name.text.toList) :
    ReadsAs k (.member l o name symbol) := by
  refine .of_spells rfl ?_
  rw [toList_member hself hq, form, if_neg (by simp [hq])]
  exact ho.operand.member hw

lemma ReadsAs.convert {l : Location} {type : Located TypeName} (h : ReadsAs k e) (ht : IsPath type.value.code) :
    ReadsAs k (.convert l e type) := by
  refine .of_spells rfl ?_
  rw [form, code]
  split
  · have hname : Spells { core := .operand "String" } "String".toList := by
      refine spells_path (isPath_of_isWord ⟨'S', "tring".toList, rfl, rfl, all_eq_true.mp ?_⟩)
      decide
    have hargs : ∀ a ∈ [e], Whole (a.form k).tree (a.code k).toList := forall_mem_singleton.mpr h.whole
    simpa [commaList, exprCodes, formTrees, toString] using hname.call hargs
  · simpa [toString] using h.whole.spells_cast ht

lemma calleeTree_of_not_builtin {c : Expr} (h : k.isBuiltin c = false) (t : TargetTree) : k.calleeTree c t = t := by
  unfold Scene.calleeTree
  split
  · exact if_neg (of_decide_eq_false h)
  · rfl

lemma spells_builtin {text : String} (hw : IsWord text.toList) :
    Spells { core := Builtin.tree text } (Builtin.target text).toList := by
  unfold Builtin.tree
  split
  case isTrue hprint =>
    have hserial : Spells { core := .operand "Serial" } "Serial".toList := by
      refine spells_path (isPath_of_isWord ⟨'S', "erial".toList, rfl, rfl, all_eq_true.mp ?_⟩)
      decide
    have hcode : (Builtin.target text).toList = "Serial".toList ++ '.' :: text.toList := by
      rcases hprint with rfl | rfl <;> decide
    rw [hcode]
    exact hserial.point rfl hw
  case isFalse hprint =>
    rw [not_or] at hprint
    refine spells_path (isPath_of_isWord ?_)
    rw [Builtin.target, if_neg hprint.1, if_neg hprint.2]
    split
    · exact ⟨'d', "elay".toList, rfl, rfl, all_eq_true.mp (by decide)⟩
    · split
      · exact ⟨'d', "elayMicroseconds".toList, rfl, rfl, all_eq_true.mp (by decide)⟩
      · exact hw

lemma Legible.spells_callee {c : Expr} (hc : Legible k c) (h : ReadsAs k c) :
    Spells { c.wrapForm (c.form k) with core := k.calleeTree c (c.wrapForm (c.form k)).core }
      (k.callee c (c.code k)).toList := by
  by_cases hb : k.isBuiltin c
  · unfold Scene.isBuiltin at hb
    split at hb
    · cases hc with
      | name hw hp =>
        simpa [Scene.callee, Scene.calleeTree, of_decide_eq_true hb, wrapForm, isBinary, form] using spells_builtin hw
    · cases hb
  · have hnot : k.isBuiltin c = false := by simpa using hb
    rw [callee_of_not_builtin hnot, calleeTree_of_not_builtin hnot]
    exact h.operand

lemma ReadsAs.call {l : Location} {c : Expr} {args : List Expr} (hc : ReadsAs k c) (hl : Legible k c)
    (hd : k.isDeviceCall c = false) (hargs : ∀ e ∈ args, ReadsAs k e) : ReadsAs k (.call l c args) := by
  refine .of_spells rfl ?_
  rw [toList_call hd]
  exact (hl.spells_callee hc).call fun e he => (hargs e he).whole

lemma Legible.readsAs (h : Legible k e) : ReadsAs k e := by
  induction h with
  | @number l n u h =>
    refine .of_spells rfl ?_
    rcases h with h | h
    · exact spells_numeral h
    · exact spells_path (isPath_of_isWord h)
  | @bool l b =>
    refine .of_spells rfl (spells_path (isPath_of_isWord ?_))
    cases b
    · exact ⟨'f', "alse".toList, rfl, rfl, all_eq_true.mp (by decide)⟩
    · exact ⟨'t', "rue".toList, rfl, rfl, all_eq_true.mp (by decide)⟩
  | str => exact .of_spells rfl (spells_str _)
  | name _ hp => exact .of_spells rfl (spells_path hp)
  | binary _ _ iha ihb => exact iha.binary ihb
  | unary _ ih => exact ih.unary
  | call hc hd _ ihc ihargs => exact ihc.call hc hd ihargs
  | qualified hq _ hp =>
    refine .of_spells rfl ?_
    rw [form, if_pos hq]
    exact spells_path hp
  | member ho hq hw iho => exact iho.member ho.ne_self hq hw
  | subscript _ _ iha ihi => exact iha.subscript ihi
  | convert _ ht ih => exact ih.convert ht

lemma Legible.read?_code (h : Legible k e) : TargetTree.read? (e.code k) = some (e.form k).tree := by
  have hends : Ends [] := by
    rintro c ⟨⟩
  obtain ⟨fs, t, hreads, hclose⟩ := h.readsAs.whole [] [] trivial hends
  rw [append_nil] at hreads
  rw [hreads.read?, tree?, hclose]

end Expr

end SketchCompiler
