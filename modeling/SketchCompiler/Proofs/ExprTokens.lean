import SketchCompiler.Grammar.Expr
import SketchCompiler.Proofs.TokenRoundTrip

namespace SketchCompiler

open List

variable {name : Name} {cs : List Char} {l : Location}

/-- The token is read right before these characters, and no further. -/
def Token.Stops (t : Token) (cs : List Char) : Prop :=
  ∀ c r, t.spelling.toList ++ cs = c :: r → Lexeme.read false c r = .token t t.spelling.toList.length

/-- The characters up to the end of the line are these tokens, some with a space before them. -/
inductive TokenText : List Token → List Char → Prop
  | done : TokenText [] ['\n']
  | space {ts cs} (h : TokenText ts cs) : TokenText ts (' ' :: cs)
  | token {t} {ts cs} (ht : t.IsPlain) (hl : t.isKeyword .loadKw = false) (hs : t.Stops cs) (h : TokenText ts cs) :
      TokenText (t :: ts) (t.spelling.toList ++ cs)

namespace TokenText

variable {ts : List Token}

lemma return_not_mem (h : TokenText ts cs) : '\r' ∉ cs := by
  induction h with
  | done => decide
  | space _ ih => simpa using ih
  | token ht _ _ _ ih => simp [ih, Token.return_not_mem_spelling ht]

lemma scan (h : TokenText ts cs) (t : SourceText) (p : Position) : ∃ located : List (Located Token),
    t.scan 0 false p cs = located.map .ok ∧ located.map (·.value) = ts ∧
      ∀ x ∈ located, x.loc.start.line = p.line ∧ x.loc.stop.line = p.line := by
  induction h generalizing p with
  | done => exact ⟨[], SourceText.scan_blank_one (Lexeme.read_newline _ _), rfl, forall_mem_nil _⟩
  | space _ ih =>
    obtain ⟨located, hscan, hvalues, hlines⟩ := ih (p.after ' ')
    exact ⟨located, by rw [SourceText.scan_gap, hscan], hvalues, hlines⟩
  | @token v ts cs hv hl hs _ ih =>
    have hne := Token.spelling_ne_nil hv
    obtain ⟨c, r, hc⟩ := exists_cons_of_ne_nil (append_ne_nil_of_left_ne_nil hne cs)
    have hread := hs c r hc
    have hscan := SourceText.scan_token (t := t) (p := p) hc.symm hne hread
    -- There is no line break in the spelling of a token.
    obtain ⟨lexeme, rest, hlexeme, hlen, hspells⟩ := Lexeme.read_eq_token hread
    have hsame : v.spelling.toList = lexeme := (append_inj (hc.trans hlexeme) hlen.symm).1
    have hnewline : '\n' ∉ v.spelling.toList := hsame ▸ hspells.newline_not_mem
    have hline := Position.line_afterAll_of_not_mem (p := p) hnewline
    have hlast : (p.afterAll v.spelling.toList.dropLast).line = p.line :=
      Position.line_afterAll_of_not_mem fun hm => hnewline ((dropLast_sublist _).subset hm)
    obtain ⟨located, hrest, hvalues, hlines⟩ := ih (p.afterAll v.spelling.toList)
    rw [← hc, hl, hrest] at hscan
    refine ⟨_ :: located, hscan, by rw [map_cons, hvalues], forall_mem_cons.mpr ⟨⟨rfl, hlast⟩, ?_⟩⟩
    rw [hline] at hlines
    exact hlines

lemma tokenize {s : String} (h : TokenText ts (s.toList ++ ['\n'])) (name : String) :
    ∃ located : List (Located Token), (SourceText.ofString s name).tokenize = .ok located ∧
      located.map (·.value) = ts ∧ ∀ x ∈ located, x.loc.start.line = 1 ∧ x.loc.stop.line = 1 := by
  have hreturn := h.return_not_mem
  have hchars : (SourceText.ofString s name).chars = s.toList ++ ['\n'] := by
    simp only [SourceText.ofString, append_cancel_right_eq, filter_eq_self, decide_eq_true_eq]
    rintro c hc rfl
    exact hreturn (mem_append_left _ hc)
  obtain ⟨located, hscan, hvalues, hlines⟩ := h.scan (.ofString s name) {}
  refine ⟨located, SourceText.tokenize_eq_ok_iff.mpr ?_, hvalues, hlines⟩
  rw [SourceText.scanned, hchars, hscan]

end TokenText

/-- Words and numbers end before these characters. -/
def EndsWord (cs : List Char) : Prop :=
  ∃ b r, cs = b :: r ∧ isWordChar b = false ∧ (b = '.' → ∀ d ∈ r.head?, d.isDigit = false)

lemma EndsWord.fraction?_eq_none (h : EndsWord cs) : Lexeme.fraction? cs = none := by
  obtain ⟨b, r, rfl, -, hdot⟩ := h
  unfold Lexeme.fraction?
  split
  case h_1 cs' he =>
    obtain ⟨rfl, rfl⟩ := List.cons.inj he
    have hr : r.takeWhile Char.isDigit = [] := by
      cases r with
      | nil => rfl
      | cons d r => exact takeWhile_cons_of_neg (by simp [hdot rfl d rfl])
    simp [hr]
  case h_2 => rfl

lemma EndsWord.unitAt?_eq_none (h : EndsWord cs) : Lexeme.unitAt? cs = none := by
  obtain ⟨b, r, rfl, hb, -⟩ := h
  have halpha : b.isAlpha = false := by
    by_contra hn
    simp [isWordChar, Char.isAlphanum, hn] at hb
  simp [Lexeme.unitAt?, halpha]

namespace Token

lemma stops_word {word} {t : Token} (hw : IsWord word) (ht : Lexeme.ofWord word = t)
    (hs : t.spelling.toList = word) (hcs : EndsWord cs) : t.Stops cs := by
  obtain ⟨b, r, rfl, hb, -⟩ := hcs
  intro c r' hc
  rw [hs] at hc ⊢
  rw [Lexeme.read_word r hw hb hc, ht]

lemma stops_id {name} (h : (id name).IsPlain) (hcs : EndsWord cs) : (id name).Stops cs := by
  have hnone : Keyword.ofText? name = none := by simpa [Keyword.ofText?, Keyword.mem_all] using h.2
  refine stops_word h.1 ?_ rfl hcs
  rw [Lexeme.ofWord, String.ofList_toList]
  simp only [hnone]

lemma stops_keyword (k : Keyword) (hcs : EndsWord cs) : (keyword k).Stops cs := by
  refine stops_word (isWord_keyword k) ?_ rfl hcs
  rw [Lexeme.ofWord, String.ofList_toList]
  simp only [Keyword.ofText?_text]

lemma stops_int {n : Int} (h : (number (.int n) none).IsPlain) (hcs : EndsWord cs) :
    (number (.int n) none).Stops cs := by
  have hfraction := hcs.fraction?_eq_none
  have hunit := hcs.unitAt?_eq_none
  obtain ⟨b, r, rfl, hb, -⟩ := hcs
  obtain ⟨m, rfl⟩ := Int.eq_ofNat_of_zero_le h.1
  have hd : IsRun Char.isDigit (Nat.toDigits 10 m) :=
    ⟨Nat.toDigits_ne_nil, fun c => Nat.isDigit_of_mem_toDigits (by decide) (by decide)⟩
  have hs : (spelling (.number (.int m) none)).toList = Nat.toDigits 10 m := by
    rw [spelling, String.toList_append, toList_text_int]
    simp [suffixChars]
  have hdigit : b.isDigit = false := by
    by_contra hn
    simp [isWordChar, Char.isAlphanum, hn] at hb
  have hhex : b ≠ 'x' ∧ b ≠ 'X' := by
    constructor <;> rintro rfl <;> cases hb
  have hvalue : Lexeme.intValue 10 (Nat.toDigits 10 m) = .ok (.int m) := by
    simp only [Lexeme.intValue, natOfDigits_toDigits, if_pos h.2]
  intro c r' hc
  rw [hs] at hc ⊢
  have hcd : c.isDigit := by
    obtain ⟨d, ds, hds⟩ := exists_cons_of_ne_nil hd.1
    rw [hds, cons_append] at hc
    rw [← (List.cons.inj hc).1]
    exact hd.2 d (by simp [hds])
  rw [Lexeme.read_digit hcd, ← hc]
  simp [Lexeme.number, Lexeme.hexDigits?_eq_none hd hhex, takeWhile_run hd.2 hdigit, hfraction, hvalue,
    Lexeme.withUnit, hunit]

lemma stops_str (value : String) (cs : List Char) : (str value).Stops cs := by
  have hs : (spelling (.str value)).toList = '"' :: value.toList.flatMap escapeTargetChar ++ ['"'] := by
    rw [spelling, Literal.code, String.toList_ofList]
  intro c r hc
  rw [hs, append_assoc, cons_append, List.cons.injEq] at hc
  obtain ⟨rfl, rfl⟩ := hc
  rw [Lexeme.read_quote, singleton_append, Lexeme.string_escaped, hs]
  simp
  omega

lemma stops_punct {p : Punct} (h : Punct.longest? (p.chars ++ cs) = some p) : (punct p).Stops cs := by
  have hs : (spelling (.punct p)).toList = p.chars := by rw [spelling, Punct.text, String.toList_ofList]
  intro c r hc
  rw [hs] at hc ⊢
  rw [Lexeme.read, if_neg (by simp), ← hc, h]

end Token

def BinOp.mark : BinOp → Punct
  | or => .pipePipe
  | and => .ampAmp
  | bitOr => .pipe
  | bitXor => .caret
  | bitAnd => .amp
  | equal => .equal
  | notEqual => .notEqual
  | less => .less
  | lessEqual => .lessEqual
  | greater => .greater
  | greaterEqual => .greaterEqual
  | shiftLeft => .shiftLeft
  | shiftRight => .shiftRight
  | add => .plus
  | sub => .minus
  | mul => .times
  | div => .slash
  | mod => .percent

lemma BinOp.text_mark (op : BinOp) : op.mark.text = op.text := by
  cases op <;> rfl

lemma BinOp.ofToken?_mark (op : BinOp) : ofToken? (.punct op.mark) = some op := by
  cases op <;> rfl

def UnOp.mark : UnOp → Punct
  | negate => .minus
  | not => .bang

lemma UnOp.text_mark (op : UnOp) : op.mark.text = op.text := by
  cases op <;> rfl

lemma UnOp.ofToken?_mark (op : UnOp) : ofToken? (.punct op.mark) = some op := by
  cases op <;> rfl

lemma UnOp.longest?_mark (op : UnOp) {c} (hgt : c ≠ '>') (heq : c ≠ '=') :
    Punct.longest? (op.mark.chars ++ c :: cs) = some op.mark := by
  have hgt' := beq_eq_false_iff_ne.mpr hgt.symm
  have heq' := beq_eq_false_iff_ne.mpr heq.symm
  cases op <;> simp [Punct.longest?, Punct.all, mark, Punct.chars, List.find?, List.isPrefixOf, hgt', heq']

lemma Punct.longest?_period {c} (hc : c ≠ '.') : longest? (period.chars ++ c :: cs) = some period := by
  have hc' := beq_eq_false_iff_ne.mpr hc.symm
  simp [longest?, all, chars, List.find?, List.isPrefixOf, hc']

def Expr.isBinary : Expr → Bool
  | binary .. => true
  | _ => false

def Expr.wrapTokens (e : Expr) (ts : List Token) : List Token :=
  if e.isBinary then .punct .openParen :: ts ++ [.punct .closeParen] else ts

def commaTokens : List (List Token) → List Token
  | [] => []
  | ts :: tss => ts ++ tss.flatMap (.punct .comma :: ·)

mutual

def Expr.tokens : Expr → List Token
  | .literal _ (.number n _) => [.number n none]
  | .literal _ (.str s) => [.str s]
  | .literal _ (.bool b) => [.keyword (if b then .trueKw else .falseKw)]
  | .name _ r => [.id r.name.text]
  | .binary _ a op b => a.wrapTokens a.tokens ++ .punct op.mark :: b.wrapTokens b.tokens
  | .unary _ op e => .punct op.mark :: e.wrapTokens e.tokens
  | .call _ c args =>
    c.wrapTokens c.tokens ++ .punct .openParen :: commaTokens (exprTokens args) ++ [.punct .closeParen]
  | .member _ o name _ => o.wrapTokens o.tokens ++ [.punct .period, .id name.text]
  | .subscript _ a i => a.wrapTokens a.tokens ++ .punct .openSquare :: i.tokens ++ [.punct .closeSquare]
  | _ => []

def exprTokens : List Expr → List (List Token)
  | [] => []
  | e :: es => e.tokens :: exprTokens es

end

/-- The reference is resolved to a local that is no device. -/
structure Scene.IsLocal (k : Scene) (r : Reference) : Prop where
  spelled : (Token.id r.name.text).IsPlain
  resolved : ∃ id, r.symbol = some id ∧ k.table.kind id ∈ [.var, .constant, .param] ∧ k.table.isGlobal id = false ∧
    k.plan.instance? id = none

/-- A call, a subscript or a member can follow the expression without parentheses of its own. -/
def Expr.IsBase : Expr → Bool
  | .name .. | .literal .. | .binary .. | .call .. | .subscript .. | .member .. => true
  | _ => false

/-- The expressions that both languages have, over whole numbers, truth values, strings and locals. -/
inductive Expr.Common (k : Scene) : Expr → Prop
  | int {l n} (h : 0 ≤ n ∧ n ≤ Number.maxInt) : Common k (.literal l (.number (.int n) none))
  | bool {l b} : Common k (.literal l (.bool b))
  | str {l s} : Common k (.literal l (.str s))
  | name {l r} (h : k.IsLocal r) : Common k (.name l r)
  | binary {l a op b} (ha : Common k a) (hb : Common k b) : Common k (.binary l a op b)
  | unary {l op e} (he : Common k e) : Common k (.unary l op e)
  | call {l c args} (hc : Common k c) (hbase : c.IsBase) (hargs : ∀ e ∈ args, Common k e) : Common k (.call l c args)
  | subscript {l a i} (ha : Common k a) (hbase : a.IsBase) (hi : Common k i) : Common k (.subscript l a i)
  | member {l o name} (ho : Common k o) (hbase : o.IsBase) (hname : (Token.id name.text).IsPlain) :
      Common k (.member l o name none)

namespace Scene

def isQualified (k : Scene) (object : Expr) (symbol : Option SymbolId) : Bool :=
  match object.symbol?.map k.table.kind, symbol with
  | some .moduleAlias, some _ | some .enumType, _ => true
  | _, _ => false

def isBuiltin (k : Scene) : Expr → Bool
  | .name _ ⟨_, some id⟩ => k.table.kind id = .builtin
  | _ => false

def isDeviceCall (k : Scene) : Expr → Bool
  | .member _ object name _ => (k.deviceMethod? object name.text).isSome
  | _ => false

end Scene

namespace Expr

section Codes

variable (k : Scene)

lemma toList_operand (e : Expr) : (e.operand k).toList =
    if e.isBinary then '(' :: (e.code k).toList ++ [')'] else (e.code k).toList := by
  cases e <;> simp [operand, wrap, isBinary, String.toList_append, toString]

-- The equations of `code` are derived here, once for all lemmas of the section.
attribute [local simp] code

lemma toList_binary (l : Location) (a : Expr) (op : BinOp) (b : Expr) : ((binary l a op b).code k).toList =
    (a.operand k).toList ++ ' ' :: op.text.toList ++ ' ' :: (b.operand k).toList := by
  simp [operand, toString]

lemma toList_unary (l : Location) (op : UnOp) (e : Expr) : ((unary l op e).code k).toList =
    op.text.toList ++ (e.operand k).toList := by
  simp [operand]

lemma toList_subscript (l : Location) (a i : Expr) : ((subscript l a i).code k).toList =
    (a.operand k).toList ++ '[' :: (i.code k).toList ++ [']'] := by
  simp [operand, toString]

variable {k}

lemma toList_member {o : Expr} {symbol} (ho : ∀ l', o ≠ .self l') (hq : k.isQualified o symbol = false) :
    ((Expr.member l o name symbol).code k).toList = (o.operand k).toList ++ '.' :: name.text.toList := by
  have hcode : k.member o (o.code k) name.text symbol = o.operand k ++ "." ++ name.text := by
    unfold Scene.member
    split
    · exact absurd rfl (ho _)
    · split
      · rename_i hkind
        simp [Scene.isQualified, hkind] at hq
      · rename_i hkind
        simp [Scene.isQualified, hkind] at hq
      · rfl
  simp [hcode]

lemma toList_call {c : Expr} {args} (hd : k.isDeviceCall c = false) : ((Expr.call l c args).code k).toList =
      (k.callee c (c.code k)).toList ++ ('(' :: (commaList (exprCodes k args)).toList ++ [')']) := by
  cases c with
  | member l o name symbol =>
    have hnone : k.deviceMethod? o name.text = none := by simpa [Scene.isDeviceCall] using hd
    simp [hnone, toString]
  | _ => simp [toString]

lemma callee_of_not_builtin {c : Expr} (h : k.isBuiltin c = false) : k.callee c (c.code k) = c.operand k := by
  unfold Scene.callee
  split
  · exact if_neg (of_decide_eq_false h)
  · rfl

end Codes

end Expr

lemma toList_commaList (code : String) (codes : List String) : (commaList (code :: codes)).toList =
    code.toList ++ codes.flatMap fun c => ',' :: ' ' :: c.toList :=
  toList_intercalate_cons ", " code codes

namespace Expr.Common

variable {k : Scene} {e : Expr}

lemma symbol (h : Common k e) {id} (hs : e.symbol? = some id) :
    k.table.kind id ∈ [.var, .constant, .param] ∧ k.plan.instance? id = none := by
  cases h with
  | name hr =>
    obtain ⟨id', hid, hkind, -, hi⟩ := hr.resolved
    cases hid.symm.trans hs
    exact ⟨hkind, hi⟩
  | _ => cases hs

lemma instanceOf? (h : Common k e) : k.plan.instanceOf? e = none := by
  cases hs : e.symbol? with
  | none => simp [HardwarePlan.instanceOf?, hs]
  | some id => simp [HardwarePlan.instanceOf?, hs, (h.symbol hs).2]

lemma code_name {r : Reference} (h : k.IsLocal r) : (Expr.name l r).code k = r.name.text := by
  obtain ⟨id, hid, -, hg, -⟩ := h.resolved
  simp [code, Scene.reference, hid, hg]

lemma not_isDeviceCall (h : Common k e) : k.isDeviceCall e = false := by
  cases h with
  | member ho => simp [Scene.isDeviceCall, Scene.deviceMethod?, ho.instanceOf?]
  | _ => rfl

lemma not_isBuiltin (h : Common k e) : k.isBuiltin e = false := by
  by_contra hb
  unfold Scene.isBuiltin at hb
  split at hb
  case h_1 id =>
    have hkind := (h.symbol rfl).1
    simp_all
  case h_2 => exact hb rfl

lemma not_isQualified (h : Common k e) : k.isQualified e none = false := by
  unfold Scene.isQualified
  split
  case h_1 hnone => cases hnone
  case h_2 hkind =>
    obtain ⟨id, hs, hid⟩ := Option.map_eq_some_iff.mp hkind
    simpa [hid] using (h.symbol hs).1
  case h_3 => rfl

lemma toList_call {c : Expr} {args} (hc : Common k c) : ((Expr.call l c args).code k).toList =
      (c.operand k).toList ++ '(' :: (commaList (exprCodes k args)).toList ++ [')'] := by
  rw [Expr.toList_call hc.not_isDeviceCall, callee_of_not_builtin hc.not_isBuiltin, append_assoc]

lemma toList_member {o : Expr} (ho : Common k o) :
    ((Expr.member l o name none).code k).toList = (o.operand k).toList ++ '.' :: name.text.toList := by
  refine Expr.toList_member (fun l' hself => ?_) ho.not_isQualified
  subst hself
  cases ho

/-- The characters do not begin like the rest of a mark. -/
def Begins (cs : List Char) : Prop := ∃ c r, cs = c :: r ∧ c ≠ '>' ∧ c ≠ '='

lemma begins_operand (h : Begins (e.code k).toList) (rest : List Char) : Begins ((e.operand k).toList ++ rest) := by
  obtain ⟨c, r, hc, hne⟩ := h
  rw [toList_operand]
  split
  · exact ⟨_, _, rfl, by decide⟩
  · exact ⟨c, r ++ rest, by rw [hc, cons_append], hne⟩

lemma begins (h : Common k e) : Begins (e.code k).toList := by
  induction h with
  | int h =>
    obtain ⟨m, rfl⟩ := Int.eq_ofNat_of_zero_le h.1
    obtain ⟨c, r, hc⟩ := exists_cons_of_ne_nil (Nat.toDigits_ne_nil (b := 10) (n := m))
    have hd : c.isDigit := Nat.isDigit_of_mem_toDigits (b := 10) (n := m) (by decide) (by decide) (by simp [hc])
    refine ⟨c, r, (Token.toList_text_int m).trans hc, ?_, ?_⟩ <;> rintro rfl <;> cases hd
  | @bool l b =>
    cases b
    · exact ⟨'f', ['a', 'l', 's', 'e'], by simp [code, Literal.code]⟩
    · exact ⟨'t', ['r', 'u', 'e'], by simp [code, Literal.code]⟩
  | str => exact ⟨_, _, String.toList_ofList, by decide⟩
  | name hr =>
    obtain ⟨c, r, hc, hw, -⟩ := hr.spelled.1
    refine ⟨c, r, by rw [code_name hr, hc], ?_, ?_⟩ <;> rintro rfl <;> cases hw
  | binary _ _ iha _ =>
    rw [toList_binary, append_assoc]
    exact begins_operand iha _
  | @unary l op e _ _ => cases op <;> exact ⟨_, _, toList_unary k l _ e, by decide⟩
  | call hc _ _ ihc _ =>
    rw [hc.toList_call, append_assoc]
    exact begins_operand ihc _
  | subscript _ _ _ iha _ =>
    rw [toList_subscript, append_assoc]
    exact begins_operand iha _
  | member ho hbase _ iho =>
    rw [ho.toList_member]
    exact begins_operand iho _

section Texts

variable {ts : List Token}

lemma endsWord_cons {b} {r} (hb : isWordChar b = false) (hd : b ≠ '.') : EndsWord (b :: r) :=
  ⟨b, r, rfl, hb, fun h => absurd h hd⟩

lemma tokenText_mark {p : Punct} (hp : Punct.longest? (p.chars ++ cs) = some p) (h : TokenText ts cs) :
    TokenText (.punct p :: ts) (p.chars ++ cs) := by
  have ht := TokenText.token (t := .punct p) trivial rfl (Token.stops_punct hp) h
  rwa [Token.spelling, Punct.text, String.toList_ofList] at ht

/-- The code of the expression is read as its tokens, wherever words end behind it. -/
def ReadsAs (k : Scene) (e : Expr) : Prop :=
  ∀ ts cs, TokenText ts cs → EndsWord cs → TokenText (e.tokens ++ ts) ((e.code k).toList ++ cs)

lemma ReadsAs.operand (h : ReadsAs k e) (ht : TokenText ts cs) (hcs : EndsWord cs) :
    TokenText (e.wrapTokens e.tokens ++ ts) ((e.operand k).toList ++ cs) := by
  rw [wrapTokens, toList_operand]
  split
  · have hclose : TokenText (.punct .closeParen :: ts) (')' :: cs) := tokenText_mark rfl ht
    have hbody := h _ _ hclose (endsWord_cons (by decide) (by decide))
    have hopen : TokenText (.punct .openParen :: _) ('(' :: _) := tokenText_mark rfl hbody
    simpa using hopen
  · exact h _ _ ht hcs

lemma tokenText_tail {es} (h : ∀ e ∈ es, ReadsAs k e) (ht : TokenText ts cs) (hcs : EndsWord cs) :
    TokenText ((exprTokens es).flatMap (.punct .comma :: ·) ++ ts)
      ((exprCodes k es).flatMap (fun c => ',' :: ' ' :: c.toList) ++ cs) ∧
    EndsWord ((exprCodes k es).flatMap (fun c => ',' :: ' ' :: c.toList) ++ cs) := by
  induction es with
  | nil => exact ⟨ht, hcs⟩
  | cons e es ih =>
    obtain ⟨hts, hends⟩ := ih fun e he => h e (mem_cons_of_mem _ he)
    have he := h e mem_cons_self _ _ hts hends
    have hcomma : TokenText (.punct .comma :: _) (',' :: _) := tokenText_mark rfl (.space he)
    refine ⟨?_, endsWord_cons (by decide) (by decide)⟩
    simpa [exprTokens, exprCodes] using hcomma

lemma tokenText_args {es} (h : ∀ e ∈ es, ReadsAs k e) (ht : TokenText ts cs) (hcs : EndsWord cs) :
    TokenText (commaTokens (exprTokens es) ++ ts) ((commaList (exprCodes k es)).toList ++ cs) := by
  cases es with
  | nil => exact ht
  | cons e es =>
    obtain ⟨hts, hends⟩ := tokenText_tail (fun e he => h e (mem_cons_of_mem _ he)) ht hcs
    have he := h e mem_cons_self _ _ hts hends
    rw [exprCodes, toList_commaList]
    simpa [exprTokens, commaTokens] using he

lemma readsAs_single {t : Token} (he : e.tokens = [t]) (hs : t.spelling = e.code k) (ht : t.IsPlain)
    (hl : t.isKeyword .loadKw = false) (hstops : ∀ cs, EndsWord cs → t.Stops cs) : ReadsAs k e := by
  intro ts cs hts hcs
  rw [he, ← hs]
  exact .token ht hl (hstops cs hcs) hts

end Texts

lemma readsAs (h : Common k e) : ReadsAs k e := by
  induction h with
  | @int l n h =>
    refine readsAs_single (t := .number (.int n) none) rfl ?_ h rfl fun cs => Token.stops_int h
    simp [Token.spelling, code, Literal.code, suffixChars]
  | @bool l b =>
    cases b
    · exact readsAs_single (t := .keyword .falseKw) rfl rfl trivial rfl fun cs => Token.stops_keyword _
    · exact readsAs_single (t := .keyword .trueKw) rfl rfl trivial rfl fun cs => Token.stops_keyword _
  | @str l s => exact readsAs_single (t := .str s) rfl rfl trivial rfl fun cs _ => Token.stops_str s cs
  | @name l r hr =>
    exact readsAs_single (t := .id r.name.text) rfl (code_name hr).symm hr.spelled rfl fun cs =>
      Token.stops_id hr.spelled
  | @binary l a op b _ _ iha ihb =>
    intro ts cs hts hcs
    have hb := TokenText.space (ihb.operand hts hcs)
    have hop : TokenText (.punct op.mark :: _) (op.mark.chars ++ _) :=
      tokenText_mark (Punct.longest?_chars op.mark _ (.inl rfl)) hb
    have ha := iha.operand hop.space (endsWord_cons (by decide) (by decide))
    have htext : op.text.toList = op.mark.chars := by rw [← op.text_mark, Punct.text, String.toList_ofList]
    rw [toList_binary, htext]
    simpa [tokens] using ha
  | @unary l op e he ih =>
    intro ts cs hts hcs
    obtain ⟨c, r, hc, hgt, heq⟩ := begins_operand he.begins cs
    have hlongest : Punct.longest? (op.mark.chars ++ ((e.operand k).toList ++ cs)) = some op.mark := by
      rw [hc]
      exact op.longest?_mark hgt heq
    have hop := tokenText_mark hlongest (ih.operand hts hcs)
    have htext : op.text.toList = op.mark.chars := by rw [← op.text_mark, Punct.text, String.toList_ofList]
    rw [toList_unary, htext]
    simpa [tokens] using hop
  | call hc hbase hargs ihc ihargs =>
    intro ts cs hts hcs
    have hclose : TokenText (.punct .closeParen :: ts) (')' :: cs) := tokenText_mark rfl hts
    have hargs := tokenText_args ihargs hclose (endsWord_cons (by decide) (by decide))
    have hopen : TokenText (.punct .openParen :: _) ('(' :: _) := tokenText_mark rfl hargs
    have hcallee := ihc.operand hopen (endsWord_cons (by decide) (by decide))
    rw [hc.toList_call]
    simpa [tokens] using hcallee
  | subscript _ _ _ iha ihi =>
    intro ts cs hts hcs
    have hclose : TokenText (.punct .closeSquare :: ts) (']' :: cs) := tokenText_mark rfl hts
    have hindex := ihi _ _ hclose (endsWord_cons (by decide) (by decide))
    have hopen : TokenText (.punct .openSquare :: _) ('[' :: _) := tokenText_mark rfl hindex
    have harray := iha.operand hopen (endsWord_cons (by decide) (by decide))
    rw [toList_subscript]
    simpa [tokens] using harray
  | @member l o name ho hbase hname iho =>
    intro ts cs hts hcs
    have hid : TokenText (.id name.text :: ts) (name.text.toList ++ cs) :=
      .token (t := .id name.text) hname rfl (Token.stops_id hname hcs) hts
    obtain ⟨c, r, hc, hw, -⟩ := hname.1
    rw [hc, cons_append] at hid
    have hdot := tokenText_mark (p := .period) (Punct.longest?_period (by rintro rfl; cases hw)) hid
    have hends : EndsWord ('.' :: c :: (r ++ cs)) := by
      refine ⟨_, _, rfl, by decide, fun _ d hd => ?_⟩
      cases hd
      exact not_isDigit_of_isWordStart hw
    have hobject := iho.operand hdot hends
    rw [ho.toList_member, hc]
    simpa [tokens, Punct.chars] using hobject

end Expr.Common

end SketchCompiler
