import SketchCompiler.Proofs.ExprTokens
import SketchCompiler.Proofs.Layout
import SketchCompiler.Proofs.Sample
import SketchCompiler.Proofs.TokenUse

namespace SketchCompiler

open List

variable {t : Token} {l : Location}

mutual

/-- The expression without places and symbols, as far as both languages have it. -/
def Expr.unplaced : Expr → Expr
  | .literal _ v => .literal default v
  | .name _ r => .name default { name := ⟨r.name.text, default⟩ }
  | .binary _ a op b => .binary default a.unplaced op b.unplaced
  | .unary _ op e => .unary default op e.unplaced
  | .call _ c args => .call default c.unplaced (unplacedExprs args)
  | .member _ o name _ => .member default o.unplaced ⟨name.text, default⟩ none
  | .subscript _ a i => .subscript default a.unplaced i.unplaced
  | e => e.relocate default

def unplacedExprs : List Expr → List Expr
  | [] => []
  | e :: es => e.unplaced :: unplacedExprs es

end

lemma Expr.loc_unplaced (e : Expr) : e.unplaced.loc = default := by
  cases e <;> rfl

lemma Expr.relocate_unplaced (e : Expr) : e.unplaced.relocate default = e.unplaced := by
  cases e <;> rfl

/-- The next token does not continue the expression before it as a part of it. -/
def NoSuffix (ts : List Token) : Prop :=
  ∀ t ∈ ts.head?, t ∉ [.punct .openParen, .punct .openSquare, .punct .period, .punct .openCurly, .keyword .asKw]

/-- The next token does not continue the expression before it. -/
def NoOperator (ts : List Token) : Prop := NoSuffix ts ∧ ∀ t ∈ ts.head?, BinOp.ofToken? t = none

/-- The operator ahead on the line, and what is behind it. -/
def Cursor.operator? (s : Cursor) : Option (BinOp × Cursor) :=
  match s.rest with
  | [] => none
  | t :: ts => if t.loc.line = s.last.stop.line then (BinOp.ofToken? t.value).map (·, ⟨ts, t.loc⟩) else none

/-- The tokens are ahead, all at one place. -/
def Cursor.plain (ts : List Token) : Cursor := ⟨ts.map (⟨·, default⟩), default⟩

namespace Parser

variable {α β : Type} {p : Parser α} {s s' : Cursor} {a : α} {b b' : β}
  {step : β → Parser (Step β)} {ts : List Token}

lemma run_strict (h : p s = .ok (a, s')) : strict p s = .ok (a, s') := by
  simp [strict, h]

lemma run_peek : peek (.plain (t :: ts)) = .ok (some t, .plain (t :: ts)) := rfl

lemma run_onSameLine (t : Located Token) (ts : List (Located Token)) (last : Location) :
    onSameLine ⟨t :: ts, last⟩ = .ok (decide (t.loc.line = last.stop.line), ⟨t :: ts, last⟩) := rfl

lemma onSameLine_plain : onSameLine (.plain (t :: ts)) = .ok (true, .plain (t :: ts)) := run_onSameLine _ _ _

lemma run_next : next (.plain (t :: ts)) = .ok (⟨t, default⟩, .plain ts) := rfl

lemma run_skip : skip (.plain (t :: ts)) = .ok ((), .plain ts) := rfl

lemma run_expect {mark} : expect mark (.plain (.punct mark :: ts)) = .ok ((), .plain ts) := by
  simp [expect, expectToken, Token.isPunct, Cursor.plain]

lemma rounds_again (h : step b s = .ok (.again b', s')) (n : Nat) : rounds step (n + 1) b s = rounds step n b' s' := by
  rw [rounds, run_bind h]

lemma rounds_done (h : step b s = .ok (.done b', s')) (n : Nat) : rounds step (n + 1) b s = .ok (b', s') := by
  rw [rounds, run_bind h]
  rfl

end Parser

namespace Grammar

open SketchCompiler.Parser

variable {g : Grammar} {e : Expr} {args es : List Expr} {rest ts tokens : List Token} {level : Nat} {op : BinOp}
  {rule : Parser Expr}

lemma suffix_done (h : NoSuffix rest) : suffix g false e (.plain rest) = .ok (.done e, .plain rest) := by
  cases rest with
  | nil => rfl
  | cons v ts =>
    have hv : v ∉ _ := h _ rfl
    cases v with
    | punct p => cases p <;> first | rfl | simp at hv
    | keyword k => cases k <;> first | rfl | simp at hv
    | _ => rfl

lemma suffix_call (h : arguments g .closeParen (.plain ts) = .ok (args, .plain rest)) :
    suffix g false e.unplaced (.plain (.punct .openParen :: ts)) =
      .ok (.again (.call default e.unplaced args), .plain rest) := by
  unfold suffix
  rw [run_bind run_peek, run_bind onSameLine_plain]
  dsimp only
  rw [run_bind run_skip, run_bind h, e.loc_unplaced]
  rfl

lemma suffix_subscript {index}
    (h : g.binary false lowestLevel (.plain ts) = .ok (index, .plain (.punct .closeSquare :: rest))) :
    suffix g false e.unplaced (.plain (.punct .openSquare :: ts)) =
      .ok (.again (.subscript default e.unplaced index), .plain rest) := by
  unfold suffix
  rw [run_bind run_peek, run_bind onSameLine_plain]
  dsimp only
  rw [run_bind run_skip, run_bind (run_strict h), run_bind run_expect, e.loc_unplaced]
  rfl

lemma suffix_member {name} : suffix g false e.unplaced (.plain (.punct .period :: .id name :: rest)) =
    .ok (.again (.member default e.unplaced ⟨name, default⟩ none), .plain rest) := by
  have h : suffix g false e.unplaced (.plain (.punct .period :: .id name :: rest)) = .ok (.again
      (.member (e.unplaced.loc.through default) e.unplaced ⟨name, default⟩ none), .plain rest) := rfl
  rw [h, e.loc_unplaced]
  rfl

lemma primary_paren
    (h : g.binary false lowestLevel (.plain ts) = .ok (e.unplaced, .plain (.punct .closeParen :: rest))) :
    primary g (.plain (.punct .openParen :: ts)) = .ok (e.unplaced, .plain rest) := by
  unfold primary
  rw [run_bind run_next]
  dsimp only
  rw [run_bind (run_strict h), run_bind run_expect]
  exact congrArg (fun e => Except.ok (e, _)) e.relocate_unplaced

lemma ofToken?_of_primary {r} (h : primary g (.plain (t :: ts)) = .ok r) : UnOp.ofToken? t = none := by
  cases t with
  | punct p => cases p <;> first | rfl | cases h
  | keyword k => cases k <;> first | rfl | cases h
  | _ => rfl

/-- The rule reads the tokens as the expression, wherever what follows has the property. -/
def Parses (rule : Parser Expr) (tokens : List Token) (e : Expr) (P : List Token → Prop) : Prop :=
  ∀ rest, P rest → rule (.plain (tokens ++ rest)) = .ok (e.unplaced, .plain rest)

/-- A primary expression and what follows as a part of it are read as the expression, up to the next such part. -/
def Chains (g : Grammar) (tokens : List Token) (e : Expr) : Prop :=
  ∀ rest, ∃ e0 s0 m, primary g (.plain (tokens ++ rest)) = .ok (e0, s0) ∧ m + rest.length ≤ s0.rest.length ∧
    ∀ j, rounds (suffix g false) (m + j) e0 s0 = rounds (suffix g false) j e.unplaced (.plain rest)

lemma Chains.suffixed (h : Chains g tokens e) : Parses (suffixed g false) tokens e NoSuffix := by
  intro rest hstop
  obtain ⟨e0, s0, m, hprimary, hlen, hrounds⟩ := h rest
  obtain ⟨j, hj⟩ : ∃ j, s0.rest.length + 1 = m + (j + 1) := ⟨s0.rest.length - m, by omega⟩
  rw [Grammar.suffixed, run_bind hprimary]
  change rounds (suffix g false) (s0.rest.length + 1) e0 s0 = _
  rw [hj, hrounds, rounds_done (suffix_done hstop)]

lemma Chains.unary (h : Chains g tokens e) : Parses (unaryRule g false) tokens e NoSuffix := by
  intro rest hstop
  obtain ⟨_, _, _, hprimary, -⟩ := h rest
  have hsuffixed := h.suffixed rest hstop
  cases hts : tokens ++ rest with
  | nil =>
    rw [hts] at hprimary
    cases hprimary
  | cons t ts =>
    rw [hts] at hprimary hsuffixed
    rw [unaryRule, run_bind run_peek, Option.bind_some, ofToken?_of_primary hprimary]
    exact hsuffixed

section Operations

variable {restricted : Bool} {left : Expr} {s s₁ s₂ : Cursor}

lemma run_peekOnLine (s : Cursor) : ∃ t, peekOnLine s = .ok (t, s) ∧ t.bind BinOp.ofToken? = s.operator?.map (·.1) := by
  obtain ⟨_ | ⟨t, ts⟩, last⟩ := s
  · exact ⟨none, rfl, rfl⟩
  · have hline := run_onSameLine t ts last
    by_cases h : t.loc.line = last.stop.line
    · rw [decide_eq_true h] at hline
      refine ⟨some t.value, ?_, by simp [Cursor.operator?, h, Function.comp_def]⟩
      rw [peekOnLine, run_bind hline]
      rfl
    · rw [decide_eq_false h] at hline
      refine ⟨none, ?_, by simp [Cursor.operator?, h]⟩
      rw [peekOnLine, run_bind hline]
      rfl

lemma run_skip_operator (h : s.operator? = some (op, s₁)) : skip s = .ok ((), s₁) ∧ s₁.rest.length < s.rest.length := by
  obtain ⟨_ | ⟨t, ts⟩, last⟩ := s
  · cases h
  · unfold Cursor.operator? at h
    dsimp only at h
    split at h
    · obtain ⟨_, -, h⟩ := Option.map_eq_some_iff.mp h
      cases h
      exact ⟨rfl, Nat.lt_succ_self _⟩
    · cases h

lemma operation_done (h : ∀ x ∈ s.operator?, x.1.level < level) :
    operation g restricted level left s = .ok (.done left, s) := by
  obtain ⟨t, ht, hop⟩ := run_peekOnLine s
  rw [operation, run_bind ht, hop]
  cases hs : s.operator? with
  | none => rfl
  | some x => simp [not_le.mpr (h x hs), pure, StateT.pure, Except.pure]

lemma operation_again {right : Expr} (h : s.operator? = some (op, s₁)) (hl : level ≤ op.level)
    (hr : g.binary restricted (op.level + 1) s₁ = .ok (right, s₂)) :
    operation g restricted level left s = .ok (.again (.binary (left.loc.through right.loc) left op right), s₂) := by
  obtain ⟨t, ht, hop⟩ := run_peekOnLine s
  rw [operation, run_bind ht, hop, h]
  simp only [Option.map_some, if_pos hl]
  rw [run_bind (run_skip_operator h).1, run_bind (run_strict hr)]
  rfl

end Operations

lemma operator?_plain : (Cursor.plain (t :: ts)).operator? = (BinOp.ofToken? t).map (·, .plain ts) := rfl

lemma operation_done_plain (h : NoOperator rest) :
    operation g false level e (.plain rest) = .ok (.done e, .plain rest) := by
  refine operation_done fun x hx => ?_
  cases rest with
  | nil => cases hx
  | cons t ts =>
    rw [operator?_plain, h.2 t rfl] at hx
    cases hx

lemma operation_again_plain {right : Expr} (hlevel : level ≤ op.level)
    (hr : g.binary false (op.level + 1) (.plain ts) = .ok (right.unplaced, .plain rest)) :
    operation g false level e.unplaced (.plain (.punct op.mark :: ts)) =
      .ok (.again (.binary default e.unplaced op right.unplaced), .plain rest) := by
  have hoperator : (Cursor.plain (.punct op.mark :: ts)).operator? = some (op, .plain ts) := by
    rw [operator?_plain, op.ofToken?_mark]
    rfl
  rw [operation_again hoperator hlevel hr, e.loc_unplaced, right.loc_unplaced]
  rfl

lemma noSuffix_mark {op : BinOp} : NoSuffix (.punct op.mark :: ts) := by
  rintro t ⟨⟩
  cases op <;> simp [BinOp.mark]

lemma Parses.binaryRule (h : Parses (unaryRule g false) tokens e NoSuffix) (level : Nat) :
    Parses (binaryRule g false level) tokens e NoOperator := by
  intro rest hstop
  rw [Grammar.binaryRule, run_bind (h rest hstop.1)]
  exact rounds_done (operation_done_plain hstop) _

lemma Parses.unary {op : UnOp} (h : Parses (g.unary false) tokens e NoSuffix) :
    Parses (unaryRule g false) (.punct op.mark :: tokens) (.unary l op e) NoSuffix := by
  intro rest hstop
  rw [cons_append, unaryRule, run_bind run_peek, Option.bind_some, op.ofToken?_mark]
  dsimp only
  rw [run_bind run_next, run_bind (run_strict (h rest hstop)), e.loc_unplaced]
  rfl

lemma Parses.binary {a b} {left right}
    (ha : Parses (unaryRule g false) left a NoSuffix) (hb : Parses (g.binary false (op.level + 1)) right b NoOperator) :
    Parses (Grammar.binaryRule g false lowestLevel) (left ++ .punct op.mark :: right) (.binary l a op b)
      NoOperator := by
  intro rest hstop
  have hlevel : lowestLevel ≤ op.level := by cases op <;> decide
  rw [append_assoc, cons_append, Grammar.binaryRule, run_bind (ha _ noSuffix_mark)]
  change rounds _ (((right ++ rest).map _).length + 1 + 1) _ _ = _
  rw [rounds_again (operation_again_plain hlevel (hb rest hstop)), rounds_done (operation_done_plain hstop)]
  rfl

lemma commaStep_again (h : rule (.plain ts) = .ok (e, .plain rest)) :
    commaStep rule es (.plain (.punct .comma :: ts)) = .ok (.again (es ++ [e]), .plain rest) := by
  have ha : accept .comma (.plain (.punct .comma :: ts)) = .ok (true, .plain ts) := rfl
  rw [commaStep, run_bind ha, if_pos rfl, run_bind (run_strict h)]
  rfl

lemma noOperator_punct {p} (hp : p ∈ [.comma, .closeParen, .closeSquare]) : NoOperator (.punct p :: ts) := by
  simp only [mem_cons, not_mem_nil, or_false] at hp
  constructor <;> rintro t ⟨⟩ <;> rcases hp with rfl | rfl | rfl <;> first | rfl | simp

section Arguments

variable {rule : Parser Expr}

lemma noOperator_tail (es : List Expr) (rest : List Token) :
    NoOperator ((exprTokens es).flatMap (.punct .comma :: ·) ++ .punct .closeParen :: rest) := by
  cases es with
  | nil => exact noOperator_punct (by simp)
  | cons e es => exact noOperator_punct (by simp)

lemma rounds_commaStep (h : ∀ e ∈ es, Parses rule e.tokens e NoOperator) (as : List Expr) (j : Nat) :
    rounds (commaStep rule) (((exprTokens es).flatMap (.punct .comma :: ·)).length + 1 + j) as
      (.plain ((exprTokens es).flatMap (.punct .comma :: ·) ++ .punct .closeParen :: rest)) =
        .ok (as ++ unplacedExprs es, .plain (.punct .closeParen :: rest)) := by
  induction es generalizing as j with
  | nil =>
    have hdone : commaStep rule as (.plain (.punct .closeParen :: rest)) =
      .ok (.done as, .plain (.punct .closeParen :: rest)) := rfl
    rw [exprTokens, flatMap_nil, length_nil, Nat.zero_add, Nat.add_comm 1]
    simpa [unplacedExprs] using rounds_done hdone j
  | cons e es ih =>
    have he := h e mem_cons_self _ (noOperator_tail es rest)
    have hcount : ((exprTokens (e :: es)).flatMap (.punct .comma :: ·)).length + 1 + j =
        ((exprTokens es).flatMap (.punct .comma :: ·)).length + 1 + (j + e.tokens.length) + 1 := by
      simp only [exprTokens, flatMap_cons, length_append, length_cons]
      omega
    rw [hcount, exprTokens, flatMap_cons, append_assoc, cons_append, rounds_again (commaStep_again he),
      ih fun e he => h e (mem_cons_of_mem _ he)]
    simp [unplacedExprs]

lemma arguments_of_parses (hg : ∀ e ∈ es, Parses (g.binary false lowestLevel) e.tokens e NoOperator)
    (hnone : ∀ ts, commaSeparated (g.binary false lowestLevel) (.plain (.punct .closeParen :: ts)) =
      .ok ([], .plain (.punct .closeParen :: ts))) :
    arguments g .closeParen (.plain (commaTokens (exprTokens es) ++ .punct .closeParen :: rest)) =
      .ok (unplacedExprs es, .plain rest) := by
  cases es with
  | nil =>
    rw [exprTokens, commaTokens, nil_append, arguments, run_bind (hnone _), run_bind run_expect]
    rfl
  | cons e es =>
    have he := hg e mem_cons_self _ (noOperator_tail es rest)
    have hlist : commaSeparated (g.binary false lowestLevel)
        (.plain (commaTokens (exprTokens (e :: es)) ++ .punct .closeParen :: rest)) =
          .ok (unplacedExprs (e :: es), .plain (.punct .closeParen :: rest)) := by
      rw [exprTokens, commaTokens, append_assoc, commaSeparated_eq he]
      have hcount : ((exprTokens es).flatMap (.punct .comma :: ·) ++ Token.punct .closeParen :: rest).length + 1 =
          ((exprTokens es).flatMap (.punct .comma :: ·)).length + 1 + (rest.length + 1) := by
        simp only [length_append, length_cons]
        omega
      change rounds _ ((List.map _ _).length + 1) [e.unplaced] _ = _
      rw [length_map, hcount, rounds_commaStep fun e he => hg e (mem_cons_of_mem _ he)]
      rfl
    rw [arguments, run_bind hlist, run_bind run_expect]
    rfl

end Arguments

section Chains

lemma Chains.single (h : ∀ rest, primary g (.plain (t :: rest)) = .ok (e.unplaced, .plain rest)) :
    Chains g [t] e := fun rest =>
  ⟨_, _, 0, h rest, by simp [Cursor.plain], fun j => by rw [Nat.zero_add]⟩

lemma Chains.paren (h : Parses (g.binary false lowestLevel) tokens e NoOperator) :
    Chains g (.punct .openParen :: tokens ++ [.punct .closeParen]) e := by
  intro rest
  refine ⟨_, _, 0, ?_, ?_, fun j => by rw [Nat.zero_add]⟩
  · rw [append_assoc, cons_append]
    exact primary_paren (h _ (noOperator_punct (by simp)))
  · simp [Cursor.plain]

variable (h : Chains g tokens e)

include h

lemma Chains.extend {e2 : Expr} {behind} (hb : behind ≠ [])
    (hs : ∀ rest, suffix g false e.unplaced (.plain (behind ++ rest)) = .ok (.again e2.unplaced, .plain rest)) :
    Chains g (tokens ++ behind) e2 := by
  intro rest
  obtain ⟨e0, s0, m, hprimary, hlen, hrounds⟩ := h (behind ++ rest)
  have hpos := length_pos_iff.mpr hb
  rw [length_append] at hlen
  refine ⟨e0, s0, m + 1, by rwa [append_assoc], by omega, fun j => ?_⟩
  rw [Nat.add_assoc, hrounds, Nat.add_comm 1, rounds_again (hs rest)]

lemma Chains.call (hargs : ∀ e ∈ args, Parses (g.binary false lowestLevel) e.tokens e NoOperator)
    (hnone : ∀ ts, commaSeparated (g.binary false lowestLevel) (.plain (.punct .closeParen :: ts)) =
      .ok ([], .plain (.punct .closeParen :: ts))) :
    Chains g (tokens ++ (.punct .openParen :: commaTokens (exprTokens args) ++ [.punct .closeParen]))
      (.call l e args) := by
  refine h.extend (by simp) fun rest => ?_
  rw [append_assoc, cons_append]
  exact suffix_call (arguments_of_parses hargs hnone)

lemma Chains.subscript {index} {inner} (hi : Parses (g.binary false lowestLevel) inner index NoOperator) :
    Chains g (tokens ++ (.punct .openSquare :: inner ++ [.punct .closeSquare])) (.subscript l e index) := by
  refine h.extend (by simp) fun rest => ?_
  rw [append_assoc, cons_append]
  exact suffix_subscript (hi _ (noOperator_punct (by simp)))

lemma Chains.member {name : Name} : Chains g (tokens ++ [.punct .period, .id name.text]) (.member l e name none) :=
  h.extend (by simp) fun _ => suffix_member

end Chains

end Grammar

/-- Where the places of tokens do not matter. -/
def Correspondence.any : Correspondence := ⟨fun _ _ => True, fun _ => True, fun _ _ => trivial⟩

lemma twin_plain {ts : List (Located Token)} {n : Nat}
    (h : ∀ x ∈ ts, x.loc.start.line = n ∧ x.loc.stop.line = n) (hl : l.stop.line = n) :
    Cursor.Twin .any (.plain (ts.map (·.value))) ⟨ts, l⟩ := by
  induction ts generalizing l with
  | nil => exact .nil trivial
  | cons t ts ih =>
    obtain ⟨ht, hts⟩ := forall_mem_cons.mp h
    exact .cons trivial trivial (iff_of_true rfl (ht.1.trans hl.symm)) (ih hts ht.2)

lemma Grammar.forgets_expr (g : Grammar) : Parser.Forgets g.expr := by
  refine .strict (.bind (.peek fun v => ?_))
  split
  · exact .bind .next
  · exact .bind (.bind .next)

lemma length_tokens_le {e : Expr} {es} (he : e ∈ es) : e.tokens.length ≤ (commaTokens (exprTokens es)).length := by
  have hmem : e.tokens ∈ exprTokens es := by
    induction es with
    | nil => cases he
    | cons a es ih => cases he with
      | head => exact mem_cons_self
      | tail _ h => exact mem_cons_of_mem _ (ih h)
  cases hes : exprTokens es with
  | nil => simp [hes] at hmem
  | cons ts tss =>
    rw [hes] at hmem
    rw [commaTokens, length_append]
    cases hmem with
    | head => omega
    | tail _ h =>
      have hsub := (sublist_flatten_of_mem (mem_map_of_mem (f := (Token.punct .comma :: ·)) h)).length_le
      rw [← flatMap_def, length_cons] at hsub
      omega

namespace Expr

open Grammar

structure ReadsBack (e : Expr) : Prop where
  chains : e.IsBase → ∀ d, (e.wrapTokens e.tokens).length ≤ d → Chains (.ofDepth d) (e.wrapTokens e.tokens) e
  operand : ∀ d, (e.wrapTokens e.tokens).length ≤ d →
    Parses (unaryRule (.ofDepth d) false) (e.wrapTokens e.tokens) e NoSuffix
  whole : ∀ d, e.tokens.length ≤ d → Parses (binaryRule (.ofDepth d) false lowestLevel) e.tokens e NoOperator

namespace ReadsBack

variable {e : Expr}

lemma of_operand (hb : e.isBinary = false) (hbase : e.IsBase = false) (h : ∀ d, e.tokens.length ≤ d →
    Parses (unaryRule (.ofDepth d) false) e.tokens e NoSuffix) : e.ReadsBack := by
  have hwrap : e.wrapTokens e.tokens = e.tokens := by rw [wrapTokens, hb, if_neg Bool.false_ne_true]
  refine ⟨fun h => absurd (hbase.symm.trans h) Bool.false_ne_true, ?_, fun d hd => (h d hd).binaryRule _⟩
  rw [hwrap]
  exact h

lemma of_chains (hb : e.isBinary = false)
    (h : ∀ d, e.tokens.length ≤ d → Chains (.ofDepth d) e.tokens e) : e.ReadsBack := by
  have hwrap : e.wrapTokens e.tokens = e.tokens := by rw [wrapTokens, hb, if_neg Bool.false_ne_true]
  refine ⟨fun _ => ?_, ?_, fun d hd => (h d hd).unary.binaryRule _⟩
  · rw [hwrap]
    exact h
  · rw [hwrap]
    exact fun d hd => (h d hd).unary

lemma of_whole (hb : e.isBinary) (h : ∀ d, e.tokens.length ≤ d →
    Parses (binaryRule (.ofDepth d) false lowestLevel) e.tokens e NoOperator) : e.ReadsBack := by
  have hwrap : e.wrapTokens e.tokens = .punct .openParen :: e.tokens ++ [.punct .closeParen] := by
    rw [wrapTokens, hb, if_pos rfl]
  have hchains : ∀ d, (e.wrapTokens e.tokens).length ≤ d → Chains (.ofDepth d) (e.wrapTokens e.tokens) e := by
    intro d hd
    rw [hwrap] at hd ⊢
    simp only [length_append, length_cons, length_nil] at hd
    obtain ⟨d, rfl⟩ := Nat.exists_eq_succ_of_ne_zero (by omega : d ≠ 0)
    exact .paren (h d (by omega))
  exact ⟨fun _ => hchains, fun d hd => (hchains d hd).unary, h⟩

end ReadsBack

lemma Common.readsBack {k} {e : Expr} (h : Common k e) : e.ReadsBack := by
  induction h with
  | int | str | name => exact .of_chains rfl fun d _ => .single fun rest => rfl
  | @bool l b => cases b <;> exact .of_chains rfl fun d _ => .single fun rest => rfl
  | @binary l a op b _ _ iha ihb =>
    refine .of_whole rfl fun d hd => ?_
    rw [tokens, length_append, length_cons] at hd
    obtain ⟨d, rfl⟩ := Nat.exists_eq_succ_of_ne_zero (by omega : d ≠ 0)
    exact .binary (iha.operand _ (by omega)) ((ihb.operand d (by omega)).binaryRule _)
  | @unary l op e _ ih =>
    refine .of_operand rfl rfl fun d hd => ?_
    rw [tokens, length_cons] at hd
    obtain ⟨d, rfl⟩ := Nat.exists_eq_succ_of_ne_zero (by omega : d ≠ 0)
    exact .unary (ih.operand d (by omega))
  | @call l c args _ hbase _ ihc ihargs =>
    refine .of_chains rfl fun d hd => ?_
    rw [tokens, append_assoc] at hd ⊢
    simp only [length_append, length_cons, length_nil] at hd
    obtain ⟨d, rfl⟩ := Nat.exists_eq_succ_of_ne_zero (by omega : d ≠ 0)
    refine (ihc.chains hbase _ (by omega)).call (fun e he => (ihargs e he).whole d ?_) fun ts => rfl
    have hle := length_tokens_le he
    omega
  | @subscript l a i _ hbase _ iha ihi =>
    refine .of_chains rfl fun d hd => ?_
    rw [tokens, append_assoc] at hd ⊢
    simp only [length_append, length_cons, length_nil] at hd
    obtain ⟨d, rfl⟩ := Nat.exists_eq_succ_of_ne_zero (by omega : d ≠ 0)
    exact (iha.chains hbase _ (by omega)).subscript (ihi.whole d (by omega))
  | @member l o name _ hbase _ iho =>
    refine .of_chains rfl fun d hd => ?_
    rw [tokens, length_append] at hd
    exact (iho.chains hbase d (by omega)).member

lemma Common.unplaced_of_twin {k} {e e' : Expr} {c} (h : Common k e)
    (ht : e.unplaced.Twin c e') : e'.unplaced = e.unplaced := by
  induction h generalizing e' with
  | int | bool | str =>
    cases ht
    rfl
  | name =>
    cases ht with
    | name _ hx =>
      simp only [unplaced, hx.text]
  | binary _ _ iha ihb =>
    cases ht with
    | binary _ ha hb => rw [unplaced, unplaced, iha ha, ihb hb]
  | unary _ ih =>
    cases ht with
    | unary _ he => rw [unplaced, unplaced, ih he]
  | @call l f args _ _ hall ihf ihargs =>
    clear hall
    cases ht with
    | @call _ _ _ _ _ args' _ hf hargs =>
      have hsame : unplacedExprs args' = unplacedExprs args := by
        induction args generalizing args' with
        | nil =>
          cases hargs
          rfl
        | cons a as ih =>
          cases hargs with
          | cons ha has =>
            rw [unplacedExprs, unplacedExprs, ihargs a mem_cons_self ha,
              ih (fun e he => ihargs e (mem_cons_of_mem _ he)) has]
      rw [unplaced, unplaced, ihf hf, hsame]
  | subscript _ _ _ iha ihi =>
    cases ht with
    | subscript _ ha hi => rw [unplaced, unplaced, iha ha, ihi hi]
  | member _ _ _ iho =>
    cases ht with
    | member _ ho hx => rw [unplaced, unplaced, iho ho, hx.text]

/-- The code of an expression that both languages have is read back as this expression, to its end. -/
theorem Common.expr_code {k : Scene} {e : Expr} (h : Common k e) (name : String) : ∃ tokens,
    (SourceText.ofString (e.code k) name).tokenize = .ok tokens ∧ ∀ depth start, tokens.length ≤ depth →
      ∃ e' stop, (Grammar.ofDepth depth).expr ⟨tokens, start⟩ = .ok (e', ⟨[], stop⟩) ∧ e'.unplaced = e.unplaced := by
  have htext := h.readsAs [] ['\n'] .done ⟨'\n', [], rfl, by decide, by decide⟩
  rw [append_nil] at htext
  obtain ⟨tokens, hread, hvalues, hline⟩ := htext.tokenize name
  refine ⟨tokens, hread, fun depth start hdepth => ?_⟩
  have hnone : NoOperator [] := ⟨by rintro t ⟨⟩, by rintro t ⟨⟩⟩
  rw [← length_map (·.value), hvalues] at hdepth
  have hplain := Parser.run_strict (h.readsBack.whole depth hdepth [] hnone)
  rw [append_nil, ← hvalues] at hplain
  cases tokens with
  | nil => cases hplain
  | cons t ts =>
    -- The place before the first token does not matter, so that it may be taken to stand on the line.
    rw [forgets_expr (.ofDepth depth) t ts start t.loc]
    have hrun := (readsTwins_ofDepth .any depth).expr _ _ (twin_plain hline (hline t mem_cons_self).2)
    rw [show Grammar.expr (.ofDepth depth) (.plain _) = _ from hplain] at hrun
    generalize (Grammar.ofDepth depth).expr ⟨t :: ts, t.loc⟩ = r at hrun
    cases hrun with
    | ok htwin hs =>
      cases hs with
      | nil => exact ⟨_, _, rfl, h.unplaced_of_twin htwin⟩

end Expr

namespace Sample

def localScene : Scene where
  table := ⟨#[{ kind := .builtins }, { kind := .function }],
    #[{ name := "x", kind := .param, scope := 1 }, { name := "rows", kind := .param, scope := 1 }]⟩
  volatile := {}
  plan := { family := .avr }
  config := {}

def localUse (text : String) (id : SymbolId) : Expr := .name default ⟨name text, some id⟩

def mixedOperations : Expr :=
  let x := localUse "x" 0
  let one := Expr.literal default (.number (.int 1) none)
  let row := Expr.subscript default (localUse "rows" 1) (.binary default x .add one)
  .binary default (.binary default x .sub (.unary default .negate (.unary default .negate x))) .mul
    (.call default (.member default row (name "at") none)
      [.literal default (.str "a\"b"), .literal default (.bool true)])

lemma isPlain_id {text : String} {c} {r : List Char} (ht : text.toList = c :: r)
    (hw : isWordStart c ∧ r.all isWordChar) (hk : Keyword.ofText? text = none) : (Token.id text).IsPlain :=
  ⟨⟨c, r, ht, hw.1, all_eq_true.mp hw.2⟩, Keyword.ofText?_eq_none hk⟩

lemma isLocal_x : localScene.IsLocal ⟨name "x", some 0⟩ :=
  ⟨isPlain_id rfl (by decide) (by decide), 0, rfl, by decide, rfl, rfl⟩

lemma isLocal_rows : localScene.IsLocal ⟨name "rows", some 1⟩ :=
  ⟨isPlain_id rfl (by decide) (by decide), 1, rfl, by decide, rfl, rfl⟩

lemma common_mixedOperations : mixedOperations.Common localScene := by
  have hx : (localUse "x" 0).Common localScene := .name isLocal_x
  have hindex : (Expr.binary default (localUse "x" 0) .add (.literal default (.number (.int 1) none))).Common
      localScene := .binary hx (.int (by decide))
  have hrow := Expr.Common.subscript (l := default) (.name (l := default) isLocal_rows) rfl hindex
  refine .binary (.binary hx (.unary (.unary hx))) (.call (.member hrow rfl ?_) rfl ?_)
  · exact isPlain_id rfl (by decide) (by decide)
  · exact forall_mem_cons.mpr ⟨.str, forall_mem_singleton.mpr .bool⟩

theorem mixedOperations_read_back :
    mixedOperations.code localScene = "(x - --x) * rows[x + 1].at(\"a\\\"b\", true)" ∧
      mixedOperations.Common localScene ∧ ∃ tokens,
        (SourceText.ofString (mixedOperations.code localScene) "main").tokenize = .ok tokens ∧
          ∀ depth start, tokens.length ≤ depth → ∃ e stop,
            (Grammar.ofDepth depth).expr ⟨tokens, start⟩ = .ok (e, ⟨[], stop⟩) ∧
              e.unplaced = mixedOperations.unplaced :=
  ⟨by decide +kernel, common_mixedOperations, common_mixedOperations.expr_code "main"⟩

end Sample

end SketchCompiler
