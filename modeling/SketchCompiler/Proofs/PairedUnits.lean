import SketchCompiler.Proofs.PairedRuns

namespace SketchCompiler

open Node Resolve List

namespace Node

/-- The numbers that the node itself holds: those of what it declares, and of the name or member it uses. -/
def ids : Node → List (Option SymbolId)
  | expr (.member _ _ _ symbol) => [symbol]
  | n => n.numbers

/-- No number is written at the node or below it. -/
def Blank (n : Node) : Prop := ∀ m ∈ n.nodes, ∀ symbol ∈ m.ids, symbol = none

/-- At each place that both trees have, the numbers are related. -/
def Corresponds (R : SymbolId → SymbolId → Prop) (n m : Node) : Prop :=
  ∀ a x y, n.at? a = some x → m.at? a = some y → List.Forall₂ (Option.Rel R) x.ids y.ids

variable {n m c : Node} {R : SymbolId → SymbolId → Prop}

lemma Blank.own (h : n.Blank) : ∀ symbol ∈ n.ids, symbol = none := h n mem_nodes_self

lemma Blank.child (h : n.Blank) (hc : c ∈ n.children) : c.Blank :=
  fun m hm => h m (mem_nodes_iff.mpr (.inr ⟨c, hc, hm⟩))

lemma Blank.item_at {u : Program} {j : Nat} {i : Item} (h : (unit u).Blank) (hj : u.items[j]? = some i) :
    (item i).Blank :=
  h.child (mem_map_of_mem (mem_of_getElem? hj))

lemma Blank.of_children (h : ∀ symbol ∈ n.ids, symbol = none) (hc : ∀ c ∈ n.children, c.Blank) : n.Blank := by
  intro m hm
  rcases mem_nodes_iff.mp hm with rfl | ⟨c, hc', hm⟩
  · exact h
  · exact hc c hc' m hm

lemma Corresponds.of_children (h : List.Forall₂ (Option.Rel R) n.ids m.ids)
    (hc : List.Forall₂ (Corresponds R) n.children m.children) : n.Corresponds R m := by
  intro a x y hx hy
  cases a with
  | nil =>
    cases hx
    cases hy
    exact h
  | cons i a =>
    obtain ⟨x', hx', hx⟩ := Option.bind_eq_some_iff.mp hx
    obtain ⟨y', hy', hy⟩ := Option.bind_eq_some_iff.mp hy
    obtain ⟨hi, rfl⟩ := List.getElem?_eq_some_iff.mp hx'
    obtain ⟨hj, rfl⟩ := List.getElem?_eq_some_iff.mp hy'
    exact hc.get hi hj a x y hx hy

lemma Blank.corresponds (h : n.Blank) : n.Corresponds R n := by
  intro a x y hx hy
  cases hx.symm.trans hy
  refine forall₂_same.mpr fun symbol hs => ?_
  rw [h x (mem_nodes.mpr ⟨a, hx⟩) symbol hs]
  exact .none

end Node

namespace Pairing

def SameNode (k : Pairing) (t : SymbolTable) (n m : Node) : Prop := n.Corresponds (k.SameId t) m

/-- Parts of a tree, seen as the nodes they bring. -/
def SameParts {α : Type} (k : Pairing) (view : α → List Node) (t : SymbolTable) (x y : α) : Prop :=
  List.Forall₂ (k.SameNode t) (view x) (view y)

structure SameExpr (k : Pairing) (t : SymbolTable) (e e' : Expr) : Prop extends k.SameHead t e e' where
  node : k.SameNode t (expr e) (expr e')

structure SameFields (k : Pairing) (t : SymbolTable) (fs fs' : List FieldValue) : Prop where
  names : List.Forall₂ (fun f f' => f.name = f'.name) fs fs'
  nodes : List.Forall₂ (k.SameNode t) (fs.map fun f => expr f.value) (fs'.map fun f => expr f.value)

variable {k : Pairing} {t : SymbolTable}

lemma sameId_of_own {a b} (h : Option.Rel (k.Own t) a b) : Option.Rel (k.SameId t) a b := by
  cases h with
  | none => exact .none
  | some h => exact .some (.own h)

end Pairing

/-- The parts of a node make the node. -/
lemma Resolve.Together.node {α β : Type} {k : Pairing} {xs : ScopePairs} {b : Bool} {js : List (Located NameError)}
    {P : SymbolTable → α → β → Prop} {m : Resolve α} {m' : Resolve β} {n : Node} (hm : Together k xs js P m m')
    (h : (if b then [] else n.jumpError?.toList) ++ n.visits.flatMap (fun c => c.strays (b || n.loopsOver c)) = js) :
    Together k xs (n.strays b) P m m' :=
  hm.of_eq ((strays_eq b n).trans h)

open Pairing

variable {k : Pairing}

section

attribute [local simp] visits children ofBlock ofBlock? ofExpr? ofStmt? ofRange? ofBranch ofArm ofPattern loopsOver
  isStmt jumpError? ScopeKind.loops flatMap_map flatMap_assoc

mutual

lemma Expr.pairs (hc : k.SameSite xs b c c') (e : Expr) (he : (expr e).Blank) :
    Together k xs ((expr e).strays b) k.SameExpr (e.resolve c) (e.resolve c') := by
  cases e with
  | literal l v => exact .node (.pure ⟨⟨.none, rfl, rfl⟩, .of_children .nil .nil⟩) (by simp)
  | name l x =>
    refine .node (.bind (.reference hc (he.own x.symbol (.head _))) fun _ => .pure fun hy => ?_) (by simp)
    exact ⟨⟨hy.symbol, rfl, rfl⟩, .of_children (.cons hy.symbol .nil) .nil⟩
  | self l =>
    have plain {w : SymbolTable} : k.SameExpr w (.self l) (.self l) := ⟨⟨.none, rfl, rfl⟩, .of_children .nil .nil⟩
    have ho : c'.owner.isNone = c.owner.isNone := by
      obtain ⟨t, ho⟩ := hc.owner
      generalize c.owner = a, c'.owner = b at ho ⊢
      cases ho <;> rfl
    rw [Expr.resolve, Expr.resolve, ho]
    split
    · exact .node (.andThen (.report (.same _) l) fun _ _ => .pure plain) (by simp)
    · exact .node (.pure plain) (by simp)
  | binary l a _ b | subscript l a b =>
    refine .node (.step (a.pairs hc (he.child (.head _))) fun _ =>
      .step (b.pairs hc (he.child (.tail _ (.head _)))) fun _ => .pure fun hb ha => ?_) (by simp)
    exact ⟨⟨.none, rfl, rfl⟩, .of_children .nil (.cons ha.node (.cons hb.node .nil))⟩
  | unary l op e =>
    refine .node (.step (e.pairs hc (he.child (.head _))) fun _ => .pure fun he => ?_) (by simp)
    exact ⟨⟨.none, rfl, rfl⟩, .of_children .nil (.cons he.node .nil)⟩
  | call l callee args =>
    refine .node (.step (callee.pairs hc (he.child (.head _))) fun _ =>
      .step (pairs_exprs hc args fun n hn => he.child (.tail _ hn)) fun _ => .pure fun ha hf => ?_) (by simp)
    exact ⟨⟨.none, rfl, rfl⟩, .of_children .nil (.cons hf.node ha)⟩
  | member l object name symbol =>
    refine .node (.step (object.pairs hc (he.child (.head _))) fun ho =>
      .bind (.member hc ho.toSameHead name) fun _ => .pure fun hs ho => ?_) (by simp)
    exact ⟨⟨hs, rfl, rfl⟩, .of_children (.cons hs .nil) (.cons ho.node .nil)⟩
  | new l type args =>
    refine .node (.andThen (.checkType hc type) fun _ _ =>
      .step (pairs_exprs hc args fun n hn => he.child hn) fun _ => .pure fun ha => ?_) (by simp)
    exact ⟨⟨.none, rfl, rfl⟩, .of_children .nil ha⟩
  | array l es =>
    refine .node (.step (pairs_exprs hc es fun n hn => he.child hn) fun _ => .pure fun ha => ?_) (by simp)
    exact ⟨⟨.none, rfl, rfl⟩, .of_children .nil ha⟩
  | convert l e type =>
    refine .node (.step (e.pairs hc (he.child (.head _))) fun _ => .andThen (.checkType hc type) fun _ _ =>
      .pure fun he => ?_) (by simp)
    exact ⟨⟨.none, rfl, rfl⟩, .of_children .nil (.cons he.node .nil)⟩
  | guarded l e handler =>
    refine .node (.step (e.pairs hc (he.child (.head _))) fun _ => .enter hc .block fun hc =>
      .step (pairs_block hc handler fun n hn => he.child (.tail _ hn)) fun _ => .pure fun hb ha => ?_) (by simp)
    exact ⟨⟨.none, rfl, rfl⟩, .of_children .nil (.cons ha.node hb)⟩
  | struct l type fields =>
    refine .node (.step (pairs_fields hc fields fun n hn => he.child hn) fun hf =>
      .andThen (.checkStruct hc type hf.names) fun _ _ => .pure fun hf => ?_) (by simp)
    exact ⟨⟨.none, rfl, rfl⟩, .of_children .nil hf.nodes⟩
  | clamp l e min max =>
    refine .node (.step (e.pairs hc (he.child (.head _))) fun _ =>
      .step (min.pairs hc (he.child (.tail _ (.head _)))) fun _ =>
      .step (max.pairs hc (he.child (.tail _ (.tail _ (.head _))))) fun _ => .pure fun hd hb ha => ?_) (by simp)
    exact ⟨⟨.none, rfl, rfl⟩, .of_children .nil (.cons ha.node (.cons hb.node (.cons hd.node .nil)))⟩

lemma pairs_exprs (hc : k.SameSite xs b c c') (es : List Expr) (he : ∀ n ∈ es.map expr, n.Blank) :
    Together k xs (es.flatMap fun e => (expr e).strays b) (k.SameParts (·.map expr)) (resolveExprs c es)
      (resolveExprs c' es) := by
  cases es with
  | nil => exact .pure .nil
  | cons e es =>
    refine .of_eq (.step (e.pairs hc (he _ (.head _))) fun _ =>
      .step (pairs_exprs hc es fun n hn => he n (.tail _ hn)) fun _ => .pure fun hb ha => ?_) (by simp)
    exact .cons ha.node hb

lemma pairs_fields (hc : k.SameSite xs b c c') (fs : List FieldValue)
    (hf : ∀ n ∈ fs.map fun f => expr f.value, n.Blank) :
    Together k xs (fs.flatMap fun f => (expr f.value).strays b) k.SameFields (resolveFields c fs)
      (resolveFields c' fs) := by
  cases fs with
  | nil => exact .pure ⟨.nil, .nil⟩
  | cons f fs =>
    obtain ⟨name, e⟩ := f
    refine .of_eq (.step (e.pairs hc (hf _ (.head _))) fun _ =>
      .step (pairs_fields hc fs fun n hn => hf n (.tail _ hn)) fun _ => .pure fun hb ha => ?_) (by simp)
    exact ⟨.cons rfl hb.names, .cons ha.node hb.nodes⟩

lemma pairs_expr? (hc : k.SameSite xs b c c') (e : Option Expr) (he : ∀ n ∈ ofExpr? e, n.Blank) :
    Together k xs ((ofExpr? e).flatMap (strays b)) (k.SameParts ofExpr?) (resolveExpr? c e) (resolveExpr? c' e) := by
  cases e with
  | none => exact .pure .nil
  | some e =>
    exact .of_eq (.step (e.pairs hc (he _ (.head _))) fun _ => .pure fun ha => .cons ha.node .nil) (by simp)

lemma pairs_range? (hc : k.SameSite xs b c c') (x : Option Range) (hx : ∀ n ∈ ofRange? x, n.Blank) :
    Together k xs ((ofRange? x).flatMap (strays b)) (k.SameParts ofRange?) (resolveRange? c x)
      (resolveRange? c' x) := by
  rcases x with _ | ⟨min, max⟩
  · exact .pure .nil
  · refine .of_eq (.step (min.pairs hc (hx _ (.head _))) fun _ =>
      .step (max.pairs hc (hx _ (.tail _ (.head _)))) fun _ => .pure fun hb ha => ?_) (by simp)
    exact .cons ha.node (.cons hb.node .nil)

lemma VarDecl.pairs (hc : k.SameSite xs b c c') (d : VarDecl) (hd : (var d).Blank) :
    Together k xs ((var d).strays b) (fun w d d' => k.SameNode w (var d) (var d')) (d.resolve c) (d.resolve c') := by
  obtain ⟨qualifier, type, name, initializer, range, symbol⟩ := d
  have hinit : ∀ n ∈ ofExpr? initializer, n.Blank := fun n hn => hd.child (mem_append_right _ hn)
  have inner := hc.declares name.text
  rw [VarDecl.resolve, VarDecl.resolve]
  refine .node (.andThen (.checkType hc type) fun _ _ =>
    .step (pairs_range? hc range fun n hn => hd.child (mem_append_left _ hn)) fun {range1 range2 _} _ =>
    (?_ : Together k xs ((ofExpr? initializer).flatMap (strays b)) _ _ _)) (by simp)
  -- All declarations but those with a handler take this way.
  have plain : Together k xs ((ofExpr? initializer).flatMap (strays b))
      (fun w d d' => k.SameParts ofRange? w range1 range2 → k.SameNode w (var d) (var d')) (do
      let initializer ← resolveExpr? { c with declaring := some name.text } initializer
      let symbol ← declareIn c.scope name (if qualifier.isMutable then .var else .constant) (some type.value)
      return VarDecl.mk qualifier type name initializer range1 symbol) (do
      let initializer ← resolveExpr? { c' with declaring := some name.text } initializer
      let symbol ← declareIn c'.scope name (if qualifier.isMutable then .var else .constant) (some type.value)
      return VarDecl.mk qualifier type name initializer range2 symbol) := by
    refine .of_eq (.step (pairs_expr? inner initializer hinit) fun _ =>
      .bind (.declareIn hc.scope name _ _) fun _ => .pure fun hs he hr => ?_) (append_nil _).symm
    exact .of_children (.cons (sameId_of_own hs) .nil) (rel_append hr he)
  cases initializer with
  | none => exact plain
  | some e =>
    cases e with
    | guarded l e handler =>
      have he : (expr (.guarded l e handler)).Blank := hinit _ (.head _)
      refine .of_eq (.step (e.pairs inner (he.child (.head _))) fun _ =>
        .bind (.declareIn hc.scope name _ _) fun _ => .enter hc .block fun hc =>
        .step (pairs_block hc handler fun n hn => he.child (.tail _ hn)) fun _ =>
        .pure fun hb hs ha hr => .of_children (.cons (sameId_of_own hs) .nil) ?_)
        (by simp [strays_eq b (expr (.guarded ..))])
      exact rel_append hr (.cons (.of_children .nil (.cons ha.node hb)) .nil)
    | _ => exact plain

lemma Stmt.pairs (hc : k.SameSite xs b c c') (s : Stmt) (hs : (stmt s).Blank) :
    Together k xs ((stmt s).strays b) (fun w s s' => k.SameNode w (stmt s) (stmt s')) (s.resolve c) (s.resolve c') := by
  cases s with
  | var l d =>
    exact .node (.step (d.pairs hc (hs.child (.head _))) fun _ => .pure fun hd => .of_children .nil (.cons hd .nil))
      (by simp)
  | assign l target e =>
    refine .node (.step (target.pairs hc (hs.child (.head _))) fun ht =>
      .step (e.pairs hc (hs.child (.tail _ (.head _)))) fun _ =>
      .andThen (.checkAssignable ht.toSameHead) fun _ _ => .pure fun he ht => ?_) (by simp)
    exact .of_children .nil (.cons ht.node (.cons he.node .nil))
  | expr l e =>
    exact .node (.step (e.pairs hc (hs.child (.head _))) fun _ => .pure fun he =>
      .of_children .nil (.cons he.node .nil)) (by simp)
  | cond l branches otherwise =>
    exact .node (.step (pairs_branches hc branches fun n hn => hs.child (mem_append_left _ hn)) fun _ =>
      .step (pairs_block? hc otherwise fun n hn => hs.child (mem_append_right _ hn)) fun _ =>
      .pure fun ho hb => .of_children .nil (rel_append hb ho)) (by simp)
  | whileLoop l e body | repeatLoop l e body =>
    refine .node (.step (e.pairs hc (hs.child (.head _))) fun _ => .enter hc .loop fun hc =>
      .step (pairs_block hc body fun n hn => hs.child (.tail _ hn)) fun _ => .pure fun hb he => ?_) (by simp)
    exact .of_children .nil (.cons he.node hb)
  | forLoop l init e update body =>
    have hs (n : Node) (hn : n ∈ ofStmt? init ++ ofExpr? e ++ ofStmt? update ++ ofBlock body) : n.Blank := hs.child hn
    simp only [mem_append, or_imp, forall_and] at hs
    obtain ⟨⟨⟨hinit, hcond⟩, hupdate⟩, hbody⟩ := hs
    refine .node (.enter hc .loop fun hc => .step (pairs_stmt? hc init hinit) fun _ =>
      .step (pairs_expr? hc e hcond) fun _ => .step (pairs_stmt? hc update hupdate) fun _ =>
      .enter hc .block fun hc => .step (pairs_block hc body hbody) fun _ =>
      .pure fun hb hu he hi => .of_children .nil ?_) (by simp)
    exact rel_append (rel_append (rel_append hi he) hu) hb
  | choose l e arms =>
    refine .node (.step (e.pairs hc (hs.child (.head _))) fun _ =>
      .step (pairs_arms hc arms fun n hn => hs.child (.tail _ hn)) fun _ => .pure fun ha he => ?_) (by simp)
    exact .of_children .nil (.cons he.node ha)
  | switch l e cases otherwise =>
    refine .node (.step (e.pairs hc (hs.child (.head _))) fun _ =>
      .step (pairs_branches hc cases fun n hn => hs.child (.tail _ (mem_append_left _ hn))) fun _ =>
      .step (pairs_block? hc otherwise fun n hn => hs.child (.tail _ (mem_append_right _ hn))) fun _ =>
      .pure fun ho hb he => ?_) (by simp)
    exact .of_children .nil (.cons he.node (rel_append hb ho))
  | atomic l body =>
    exact .node (.enter hc .block fun hc => .step (pairs_block hc body fun n hn => hs.child hn) fun _ =>
      .pure fun hb => .of_children .nil hb) (by simp)
  | emit l x =>
    refine .node (.bind (.signal hc (hs.own x.symbol (.head _))) fun _ => .pure fun hy => ?_) (by simp)
    exact .of_children (.cons hy.symbol .nil) .nil
  | ret l e =>
    exact .node (.step (pairs_expr? hc e fun n hn => hs.child hn) fun _ => .pure fun he => .of_children .nil he)
      (by simp)
  | breakLoop l =>
    exact .node (.step (.checkInLoop hc "break" l) fun _ => .pure fun _ => .of_children .nil .nil) (by simp)
  | continueLoop l =>
    exact .node (.step (.checkInLoop hc "continue" l) fun _ => .pure fun _ => .of_children .nil .nil) (by simp)
  | native l text => exact .node (.pure (.of_children .nil .nil)) (by simp)

lemma pairs_stmt? (hc : k.SameSite xs b c c') (s : Option Stmt) (hs : ∀ n ∈ ofStmt? s, n.Blank) :
    Together k xs ((ofStmt? s).flatMap (strays b)) (k.SameParts ofStmt?) (resolveStmt? c s) (resolveStmt? c' s) := by
  cases s with
  | none => exact .pure .nil
  | some s => exact .of_eq (.step (s.pairs hc (hs _ (.head _))) fun _ => .pure fun ha => .cons ha .nil) (by simp)

lemma pairs_block (hc : k.SameSite xs b c c') (body : List Stmt) (hb : ∀ n ∈ ofBlock body, n.Blank) :
    Together k xs (body.flatMap fun s => (stmt s).strays b) (k.SameParts ofBlock) (resolveBlock c body)
      (resolveBlock c' body) := by
  cases body with
  | nil => exact .pure .nil
  | cons s ss =>
    exact .of_eq (.step (s.pairs hc (hb _ (.head _))) fun _ =>
      .step (pairs_block hc ss fun n hn => hb n (.tail _ hn)) fun _ => .pure fun hss hs => .cons hs hss) (by simp)

lemma pairs_block? (hc : k.SameSite xs b c c') (body : Option (List Stmt)) (hb : ∀ n ∈ ofBlock? body, n.Blank) :
    Together k xs ((ofBlock? body).flatMap (strays b)) (k.SameParts ofBlock?) (resolveBlock? c body)
      (resolveBlock? c' body) := by
  cases body with
  | none => exact .pure .nil
  | some body =>
    exact .of_eq (.enter hc .block fun hc => .step (pairs_block hc body hb) fun _ => .pure fun hb => hb) (by simp)

lemma pairs_branches (hc : k.SameSite xs b c c') (bs : List Branch) (hb : ∀ n ∈ bs.flatMap ofBranch, n.Blank) :
    Together k xs ((bs.flatMap ofBranch).flatMap (strays b)) (k.SameParts (·.flatMap ofBranch)) (resolveBranches c bs)
      (resolveBranches c' bs) := by
  rcases bs with _ | ⟨⟨e, body⟩, bs⟩
  · exact .pure .nil
  · refine .of_eq (.step (e.pairs hc (hb _ (.head _))) fun _ => .enter hc .block fun {x _ _} hc' =>
      .step (pairs_block hc' body fun n hn => hb n (.tail _ (mem_append_left _ hn))) fun _ =>
      .step (pairs_branches (hc.inside x) bs fun n hn => hb n (mem_append_right _ hn)) fun _ =>
      .pure fun hbs hbody he => ?_) (by simp)
    exact .cons he.node (rel_append hbody hbs)

lemma pairs_arms (hc : k.SameSite xs b c c') (as : List Arm) (ha : ∀ n ∈ as.flatMap ofArm, n.Blank) :
    Together k xs ((as.flatMap ofArm).flatMap (strays b)) (k.SameParts (·.flatMap ofArm)) (resolveArms c as)
      (resolveArms c' as) := by
  rcases as with _ | ⟨⟨patterns, body⟩, as⟩
  · exact .pure .nil
  · refine .of_eq (.step (pairs_patterns hc patterns fun n hn =>
      ha n (mem_append_left _ (mem_append_left _ hn))) fun _ => .enter hc .block fun {x _ _} hc' =>
      .step (pairs_block hc' body fun n hn => ha n (mem_append_left _ (mem_append_right _ hn))) fun _ =>
      .step (pairs_arms (hc.inside x) as fun n hn => ha n (mem_append_right _ hn)) fun _ =>
      .pure fun has hbody hp => ?_) (by simp)
    exact rel_append (rel_append hp hbody) has

lemma pairs_patterns (hc : k.SameSite xs b c c') (ps : List Pattern) (hp : ∀ n ∈ ps.flatMap ofPattern, n.Blank) :
    Together k xs ((ps.flatMap ofPattern).flatMap (strays b)) (k.SameParts (·.flatMap ofPattern)) (resolvePatterns c ps)
      (resolvePatterns c' ps) := by
  rcases ps with _ | ⟨p, ps⟩
  · exact .pure .nil
  · cases p with
    | wildcard l =>
      exact .of_eq (.step (pairs_patterns hc ps fun n hn => hp n hn) fun _ => .pure fun hps => hps) (by simp)
    | value l e =>
      exact .of_eq (.step (e.pairs hc (hp _ (.head _))) fun _ =>
        .step (pairs_patterns hc ps fun n hn => hp n (.tail _ hn)) fun _ => .pure fun hps he => .cons he.node hps)
        (by simp)

end

namespace Pairing

/-- The numbers that parts of a declaration hold. -/
def SameIds (k : Pairing) (t : SymbolTable) : List (Option SymbolId) → List (Option SymbolId) → Prop :=
  List.Forall₂ (Option.Rel (k.SameId t))

structure SameCallable (k : Pairing) (t : SymbolTable) (x y : List Param × List Stmt) : Prop where
  params : k.SameIds t (x.1.map (·.symbol)) (y.1.map (·.symbol))
  body : k.SameParts ofBlock t x.2 y.2

/-- A variable or function that was declared on both sides, and not yet resolved: only its number may differ. -/
structure DeclaredField (k : Pairing) (t : SymbolTable) (d d' : VarDecl) : Prop where
  rest_eq : { d with symbol := none } = { d' with symbol := none }
  blank : ∀ n ∈ (var d).children, n.Blank
  symbol : Option.Rel (k.SameId t) d.symbol d'.symbol

structure DeclaredFunction (k : Pairing) (t : SymbolTable) (d d' : FunctionDecl) : Prop where
  rest_eq : { d with symbol := none } = { d' with symbol := none }
  blank : ∀ n ∈ ofBlock d.body, n.Blank
  symbol : Option.Rel (k.SameId t) d.symbol d'.symbol

structure DeclaredClass (k : Pairing) (t : SymbolTable) (d d' : ClassDecl) : Prop where
  fields : List.Forall₂ (fun f f' => k.DeclaredField t f.value f'.value) d.fields d'.fields
  constructor_eq : d.constructor = d'.constructor
  blank : ∀ n ∈ ofConstructor? d.constructor, n.Blank
  methods : List.Forall₂ (fun m m' => k.DeclaredFunction t m.value m'.value) d.methods d'.methods
  symbol : Option.Rel (k.SameId t) d.symbol d'.symbol

end Pairing

section

variable {xs : ScopePairs} {b : Bool} {t : SymbolTable} {c c' : Site}

lemma pairs_params (hc : k.SameSite xs b c c') (params : List Param) :
    Together k xs [] (fun w ps ps' => k.SameIds w (ps.map (·.symbol)) (ps'.map (·.symbol)))
      (params.mapM (·.resolve c)) (params.mapM (·.resolve c')) := by
  refine (Together.mapM_self (P := fun w p p' => Option.Rel (k.SameId w) p.symbol p'.symbol) params fun p _ => ?_).imp
    fun hps => List.forall₂_map_left_iff.mpr (List.forall₂_map_right_iff.mpr hps)
  exact .andThen (.checkType hc p.type) fun _ _ => .bind (.declareIn hc.scope p.name _ _) fun _ => .pure sameId_of_own

lemma pairs_callable (hc : k.SameSite xs b c c') (kind : ScopeKind) (returnType : Option (Located TypeName))
    (params : List Param) (body : List Stmt) (hb : ∀ n ∈ ofBlock body, n.Blank) :
    Together k xs (body.flatMap fun s => (stmt s).strays (kind.loops b)) k.SameCallable
      (resolveCallable c kind returnType params body) (resolveCallable c' kind returnType params body) := by
  cases returnType
  on_goal 2 => refine .andThen (.checkType hc _) fun _ _ => ?_
  all_goals
    refine .enter hc kind fun hc => .bind (pairs_params hc params) fun _ => ?_
    exact .last (pairs_block hc body hb) fun hb hp => ⟨hp, hb⟩

structure Pairing.SameFunction (k : Pairing) (t : SymbolTable) (d d' : FunctionDecl) : Prop where
  ids : k.SameIds t (d.symbol :: d.params.map (·.symbol)) (d'.symbol :: d'.params.map (·.symbol))
  body : k.SameParts ofBlock t d.body d'.body

lemma FunctionDecl.pairs (hc : k.SameSite xs b c c') (kind : ScopeKind) {d d' : FunctionDecl}
    (hd : k.DeclaredFunction t d d') : Together k xs (d.body.flatMap fun s => (stmt s).strays (kind.loops b))
      (fun w x y => k.DeclaredFunction w d d' → k.SameFunction w x y) (d.resolve c kind) (d'.resolve c' kind) := by
  obtain ⟨name, params, returnType, body, symbol⟩ := d
  obtain ⟨name', params', returnType', body', symbol'⟩ := d'
  obtain ⟨he, hb, -⟩ := hd
  cases he
  exact .last (pairs_callable hc kind returnType params body hb) fun hx hd => ⟨.cons hd.symbol hx.params, hx.body⟩

lemma pairs_field (hc : k.SameSite xs b c c') {d d'} (hd : k.DeclaredField t d d') :
    Together k xs ((ofExpr? d.initializer).flatMap (strays b))
      (fun w x y => k.DeclaredField w d d' → k.SameNode w (var x) (var y)) (resolveField c d) (resolveField c' d') := by
  obtain ⟨qualifier, type, name, initializer, range, symbol⟩ := d
  obtain ⟨qualifier', type', name', initializer', range', symbol'⟩ := d'
  obtain ⟨he, hb, -⟩ := hd
  cases he
  refine .andThen (.checkType hc type) fun _ _ => ?_
  refine .last (pairs_expr? (hc.declares name.text) initializer fun n hn => hb n (mem_append_right _ hn))
    fun he hd => .of_children (.cons hd.symbol .nil) (rel_append ?_ he)
  exact List.forall₂_same.mpr fun n hn => (hb n (mem_append_left _ hn)).corresponds

structure Pairing.SameConstructor? (k : Pairing) (t : SymbolTable) (x y : Option Constructor) : Prop where
  params : k.SameIds t (((x.map (·.params)).getD []).map (·.symbol)) (((y.map (·.params)).getD []).map (·.symbol))
  body : k.SameParts ofConstructor? t x y

lemma ClassDecl.pairs (hc : k.SameSite xs false c c') {d d' : ClassDecl} (hd : k.DeclaredClass t d d')
    (l : Location) : Together k xs ((item (.classDecl l d)).strays false)
      (fun w x y => k.DeclaredClass w d d' → k.SameNode w (item (.classDecl l x)) (item (.classDecl l y)))
      (d.resolve c) (d'.resolve c') := by
  obtain ⟨name, fields, constructor, methods, symbol⟩ := d
  obtain ⟨name', fields', constructor', methods', symbol'⟩ := d'
  obtain ⟨hf, rfl, hb, hm, hs⟩ := hd
  have inner : k.SameSite xs false { c with owner := symbol } { c' with owner := symbol' } :=
    ⟨hc.scope, hc.same, ⟨t, hs⟩, hc.declaring_eq⟩
  refine .node (.step (.mapM (P := fun w (f f' : Located VarDecl) => k.SameNode w (var f.value) (var f'.value)) hf
    fun hxy => .last (pairs_field hc hxy) fun h => h) fun _ =>
    .step (?_ : Together k xs ((ofConstructor? constructor).flatMap (strays false)) k.SameConstructor? _ _) fun _ =>
    .step (.mapM (P := fun w (m m' : Located FunctionDecl) => k.SameFunction w m.value m'.value) hm
    fun hxy => .last (FunctionDecl.pairs inner .method hxy) fun h => h) fun _ =>
    .pure fun hms hx hfs hd => .of_children ?_ ?_) (by simp)
  · cases constructor with
    | none => exact .pure ⟨.nil, .nil⟩
    | some x =>
      refine .of_eq (.last (.last (Q := fun w x y => k.SameConstructor? w (some x) (some y))
        (pairs_callable inner .method none x.params x.body hb) fun hx => ?_) fun hx => hx) (by simp [ofConstructor?])
      exact ⟨hx.params, hx.body⟩
  · exact rel_append (.cons hd.symbol hx.params) (rel_flatMap (hms hd.methods) fun _ _ hm => hm.ids)
  · refine rel_append (rel_append ?_ hx.body) (rel_flatMap (hms hd.methods) fun _ _ hm => hm.body)
    exact List.forall₂_map_left_iff.mpr (List.forall₂_map_right_iff.mpr (hfs hd.fields))

lemma ClassDecl.pairs_declare (hc : k.SameSite xs b c c') {d : ClassDecl} {l}
    (hd : (item (.classDecl l d)).Blank) : Together k xs [] k.DeclaredClass (d.declare c) (d.declare c') := by
  refine .bind (.declareIn hc.scope d.name _ _) fun hs => .enter hc .members fun hm => ?_
  refine .bind (.mapM_self (P := fun w (f f' : Located VarDecl) => k.DeclaredField w f.value f'.value) d.fields
    fun f hf => ?_) fun _ => ?_
  · have hb : (var f.value).Blank := hd.child (mem_append_left _ (mem_append_left _ (mem_map_of_mem hf)))
    refine .bind (.declareIn hm.scope f.value.name _ _) fun _ => .pure fun hs => ?_
    exact ⟨rfl, fun n hn => hb.child hn, sameId_of_own hs⟩
  refine .bind (.mapM_self (P := fun w (m m' : Located FunctionDecl) => k.DeclaredFunction w m.value m'.value) d.methods
    fun f hf => ?_) fun _ => ?_
  · have hb : ∀ n ∈ ofBlock f.value.body, n.Blank := fun n hn =>
      hd.child (mem_append_right _ (mem_flatMap.mpr ⟨f, hf, hn⟩))
    exact .bind (.declareIn hm.scope f.value.name _ _) fun _ => .pure fun hs => ⟨rfl, hb, sameId_of_own hs⟩
  refine .andThen (.setMembers hs hm.same) fun _ _ => .pure fun hms hfs hs => ?_
  exact ⟨hfs, rfl, fun n hn => hd.child (mem_append_left _ (mem_append_right _ hn)), hms, sameId_of_own hs⟩

lemma EnumDecl.pairs_declare (hc : k.SameSite xs b c c') (d : EnumDecl) :
    Together k xs [] (fun w d1 d2 => Option.Rel (k.SameId w) d1.symbol d2.symbol) (d.declare c) (d.declare c') := by
  refine .bind (.declareIn hc.scope d.name _ _) fun hs => .enter hc .members fun {x _ _} hm => ?_
  refine .andThen (.forM d.variants fun v => ?_) fun _ _ => ?_
  · refine .bind (.declareIn hm.scope v _ _) fun _ => ?_
    exact .bind (.declareIn (hc.inside x).scope v _ _) fun _ => .pure fun _ _ => trivial
  exact .andThen (.setMembers hs hm.same) fun _ _ => .pure sameId_of_own

lemma StructDecl.pairs_declare (hc : k.SameSite xs b c c') (d : StructDecl) :
    Together k xs [] (fun w d1 d2 => d1.fields = d.fields ∧ d2.fields = d.fields ∧
      Option.Rel (k.SameId w) d1.symbol d2.symbol) (d.declare c) (d.declare c') := by
  refine .bind (.declareIn hc.scope d.name _ _) fun hs => .enter hc .members fun hm => ?_
  refine .andThen (.forM d.fields fun f => ?_) fun _ _ => ?_
  · exact .bind (.declareIn hm.scope f.name _ _) fun _ => .pure fun _ => trivial
  exact .andThen (.setMembers hs hm.same) fun _ _ => .pure fun hs => ⟨rfl, rfl, sameId_of_own hs⟩

end

/-- What is declared before any body is read. -/
def Item.isHoisted : Item → Bool
  | .function .. | .classDecl .. | .enumDecl .. | .structDecl .. | .signal .. | .task .. | .module .. => true
  | _ => false

/-- Items that were declared on both sides. Modules are resolved by then, the bodies of all others are not. -/
inductive Pairing.DeclaredItem (k : Pairing) (t : SymbolTable) : Item → Item → Prop
  | same {i : Item} (hi : i.isHoisted = false) (hb : (item i).Blank) : DeclaredItem k t i i
  | function {d d'} (l : Location) (hd : k.DeclaredFunction t d d') : DeclaredItem k t (.function l d) (.function l d')
  | classDecl {d d'} (l : Location) (hd : k.DeclaredClass t d d') : DeclaredItem k t (.classDecl l d) (.classDecl l d')
  | enumDecl {d d'} (l : Location) (hs : Option.Rel (k.SameId t) d.symbol d'.symbol) :
      DeclaredItem k t (.enumDecl l d) (.enumDecl l d')
  | structDecl {d d'} (l : Location) (hf : d.fields = d'.fields) (hs : Option.Rel (k.SameId t) d.symbol d'.symbol) :
      DeclaredItem k t (.structDecl l d) (.structDecl l d')
  | signal {s s'} (l : Location) (name : Name) (hs : Option.Rel (k.SameId t) s s') :
      DeclaredItem k t (.signal l name s) (.signal l name s')
  | task {d d'} (l : Location) (he : { d with symbol := none } = { d' with symbol := none })
      (hb : ∀ n ∈ (item (.task l d)).children, n.Blank) (hs : Option.Rel (k.SameId t) d.symbol d'.symbol) :
      DeclaredItem k t (.task l d) (.task l d')
  | module {s s' p p'} (l : Location) (aliasName : Name) (path : String) (hs : Option.Rel (k.SameId t) s s')
      (hp : k.SameNode t (unit p) (unit p')) : DeclaredItem k t (.module l aliasName path s p)
      (.module l aliasName path s' p')

def Pairing.SameItem (k : Pairing) (t : SymbolTable) (i i' : Item) : Prop := k.SameNode t (item i) (item i')

/-- Modules are resolved where they are declared. -/
lemma Item.pairs (hc : k.SameSite xs false c c') {i i' : Item} (hi : k.DeclaredItem t i i') :
    Together k xs (if (item i).isModule = false then (item i).strays false else [])
      (fun w x y => k.DeclaredItem w i i' → k.SameItem w x y) (i.resolve c) (i'.resolve c') := by
  cases hi with
  | function l hd =>
    refine .node (.step (FunctionDecl.pairs hc .function hd) fun _ => .pure fun h hi => ?_) (by simp)
    cases hi with
    | function _ hd => exact .of_children (h hd).ids (h hd).body
    | same hi => cases hi
  | classDecl l hd =>
    refine .last (ClassDecl.pairs hc hd l) fun h hi => ?_
    cases hi with
    | classDecl _ hd => exact h hd
    | same hi => cases hi
  | enumDecl l hs =>
    refine .node (.pure fun hi => ?_) (by simp)
    cases hi with
    | enumDecl _ hs => exact .of_children (.cons hs .nil) .nil
    | same hi => cases hi
  | @structDecl d d' l hf hs =>
    rw [Item.resolve, Item.resolve, hf]
    refine .node (.andThen (.forM d'.fields fun _ => .checkType hc _) fun _ _ => .pure fun hi => ?_) (by simp)
    cases hi with
    | structDecl _ _ hs => exact .of_children (.cons hs .nil) .nil
    | same hi => cases hi
  | signal l name hs =>
    refine .node (.pure fun hi => ?_) (by simp)
    cases hi with
    | signal _ _ hs => exact .of_children (.cons hs .nil) .nil
    | same hi => cases hi
  | @task d d' l he hb hs =>
    obtain ⟨name, period, body, symbol⟩ := d
    obtain ⟨name', period', body', symbol'⟩ := d'
    cases he
    refine .node (.step (pairs_expr? hc period fun n hn => hb n (mem_append_left _ hn)) fun _ =>
      .enter hc .function fun hc => .step (pairs_block hc body fun n hn => hb n (mem_append_right _ hn)) fun _ =>
      .pure fun hbody he hi => ?_) (by simp)
    cases hi with
    | task _ _ _ hs => exact .of_children (.cons hs .nil) (rel_append he hbody)
    | same hi => cases hi
  | module l aliasName path hs hp =>
    refine .pure fun hi => ?_
    cases hi with
    | module _ _ _ hs hp => exact .of_children (.cons hs .nil) (.cons hp .nil)
    | same hi => cases hi
  | same hi hb =>
    refine Together.imp (P := k.SameItem) ?_ fun h _ => h
    cases i with
    | var l d =>
      exact .node (.step (d.pairs hc (hb.child (.head _))) fun _ => .pure fun hd => .of_children .nil (.cons hd .nil))
        (by simp)
    | aliasDecl l name e symbol =>
      refine .node (.step (e.pairs hc (hb.child (.head _))) fun _ =>
        .bind (.declareIn hc.scope name _ _) fun _ => .pure fun hs he => ?_) (by simp)
      exact .of_children (.cons (sameId_of_own hs) .nil) (.cons he.node .nil)
    | event l kind body =>
      -- Only the handler of a signal has a number of its own.
      have rest (kind1 kind2 : Event) : Together k xs ((item (.event l kind body)).strays false)
          (fun w x y => k.SameIds w (item (.event l kind1 [])).ids (item (.event l kind2 [])).ids → k.SameItem w x y)
          (do return Item.event l kind1 (← resolveBlock (← enter c .function) body))
          (do return Item.event l kind2 (← resolveBlock (← enter c' .function) body)) := by
        refine .node (.enter hc .function fun hc =>
          .step (pairs_block hc body fun n hn => hb.child hn) fun _ => .pure fun hbody hk => ?_) (by simp)
        refine .of_children ?_ hbody
        cases kind1 <;> cases kind2 <;> exact hk
      cases kind with
      | signal x =>
        refine .bind (P := fun w kind1 kind2 =>
          k.SameIds w (item (.event l kind1 [])).ids (item (.event l kind2 [])).ids) ?_ fun _ => rest _ _
        exact .last (.signal hc (hb.own x.symbol (.head _))) fun hy => .cons hy.symbol .nil
      | start => exact (rest .start .start).imp fun h => h .nil
      | loop => exact (rest .loop .loop).imp fun h => h .nil
    | interrupt l d =>
      refine .node (.step (d.pin.pairs hc (hb.child (.head _))) fun _ => .enter hc .function fun hc =>
        .step (pairs_block hc d.body fun n hn => hb.child (.tail _ hn)) fun _ => .pure fun hbody he => ?_) (by simp)
      exact .of_children .nil (.cons he.node hbody)
    | config | load | nativeInclude | native => exact .node (.pure hb.corresponds) (by simp)
    | _ => cases hi

lemma flatMap_filter {α β : Type} (p : α → Bool) (f : α → List β) (as : List α) :
    (as.filter p).flatMap f = as.flatMap fun a => if p a then f a else [] := by
  induction as with
  | nil => rfl
  | cons a as ih => cases h : p a <;> simp [h, ih]

mutual

lemma Item.pairs_declare (hc : k.SameSite xs false c c') (i : Item) (hi : (item i).Blank) :
    Together k xs (if (item i).isModule then (item i).strays false else []) k.DeclaredItem (i.declare c)
      (i.declare c') := by
  cases i with
  | function l d =>
    refine .bind (.declareIn hc.scope d.name _ _) fun _ => .pure fun hs => ?_
    exact .function l ⟨rfl, fun n hn => hi.child hn, sameId_of_own hs⟩
  | classDecl l d => exact .bind (ClassDecl.pairs_declare hc hi) fun _ => .pure (.classDecl l)
  | enumDecl l d => exact .bind (d.pairs_declare hc) fun _ => .pure (.enumDecl l)
  | structDecl l d =>
    exact .bind (d.pairs_declare hc) fun _ => .pure fun hd => .structDecl l (hd.1.trans hd.2.1.symm) hd.2.2
  | signal l name symbol =>
    exact .bind (.declareIn hc.scope name _ _) fun _ => .pure fun hs => .signal l name (sameId_of_own hs)
  | task l d =>
    refine .bind (.declareIn hc.scope d.name _ _) fun _ => .pure fun hs => ?_
    exact .task l rfl (fun n hn => hi.child hn) (sameId_of_own hs)
  | module l aliasName path symbol program =>
    refine .node (.openModule hc aliasName.text (fun c scope => do
      let program ← program.resolveUnit { c with scope }
      let symbol ← declareIn c.scope aliasName .moduleAlias none
      setMembers symbol scope
      return Item.module l aliasName path symbol program) fun hm =>
      .step (program.pairs_unit hm (hi.child (.head _))) fun _ =>
      .bind (.declareIn (hc.inside _).scope aliasName _ _) fun hs =>
      .andThen (.setMembers hs hm.same) fun _ _ => .pure fun hs hp => ?_) (by simp)
    exact .module l aliasName path (sameId_of_own hs) hp
  | _ => exact .pure (.same rfl hi)

lemma pairs_declareItems (hc : k.SameSite xs false c c') (items : List Item) (hi : ∀ i ∈ items, (item i).Blank) :
    Together k xs (items.flatMap fun i => if (item i).isModule then (item i).strays false else [])
      (fun w => List.Forall₂ (k.DeclaredItem w)) (declareItems c items) (declareItems c' items) := by
  cases items with
  | nil => exact .pure .nil
  | cons i is =>
    exact .of_eq (.step (i.pairs_declare hc (hi i (.head _))) fun _ =>
      .step (pairs_declareItems hc is fun j hj => hi j (.tail _ hj)) fun _ => .pure fun hds hd => .cons hd hds)
      (by simp)

lemma Program.pairs_unit (hc : k.SameSite xs false c c') (p : Program) (hp : (unit p).Blank) :
    Together k xs ((unit p).strays false) (fun w q q' => k.SameNode w (unit q) (unit q')) (p.resolveUnit c)
      (p.resolveUnit c') := by
  obtain ⟨_, _, items⟩ := p
  -- What is reported below a declaration does not depend on the numbers.
  have herase (is : List Item) : is.flatMap (fun i => if (item i).isModule = false then (item i).strays false else []) =
      (eraseItems is).flatMap fun i => if (item i).isModule = false then (item i).strays false else [] := by
    rw [eraseItems_eq, flatMap_map]
    refine flatMap_congr fun i _ => ?_
    rw [← isModule_erase, ← strays_erase]
    rfl
  refine .node (.step (.and (R := fun is => eraseItems is = eraseItems items)
    (pairs_declareItems hc items fun i hi => hp.child (mem_map_of_mem hi)) (erase_declareItems c items)) fun hd =>
    .step (.of_eq (.mapM (P := k.SameItem) hd.1 fun hi => Item.pairs hc hi)
    ((herase items).trans (hd.2 ▸ (herase _).symm))) fun _ => .pure fun his hd => ?_) (by simp [flatMap_filter])
  exact .of_children .nil (List.forall₂_map_left_iff.mpr (List.forall₂_map_right_iff.mpr (his hd.1)))

end

end

end SketchCompiler
