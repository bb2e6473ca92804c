import Mathlib.Data.List.FinRange
import Mathlib.Data.List.Forall2
import SketchCompiler.Tree.Program

namespace SketchCompiler

open List

lemma lt_of_getElem? {α : Type} {l : List α} {i : Nat} {a : α} (h : l[i]? = some a) : i < l.length :=
  (List.getElem?_eq_some_iff.mp h).1

section Entries

variable {α : Type} {xs : List (SymbolId × α)} {id key : SymbolId} {a b : α}

lemma lookup_filter_ne : (xs.filter (·.1 ≠ key)).lookup id = if id = key then none else xs.lookup id := by
  induction xs with
  | nil => simp
  | cons x xs ih =>
    obtain ⟨key', b⟩ := x
    by_cases hk : key' = key
    · rw [filter_cons_of_neg (by simpa using hk), ih, lookup_cons]
      grind
    · rw [filter_cons_of_pos (by simpa using hk), lookup_cons, lookup_cons, ih]
      grind

lemma lookup_replaced :
    (xs.filter (·.1 ≠ key) ++ [(key, a)]).lookup id = if id = key then some a else xs.lookup id := by
  rw [lookup_append, lookup_filter_ne, lookup_cons]
  by_cases h : id = key
  · simp [h]
  · simp [h, beq_eq_false_iff_ne.mpr h]

end Entries

lemma exists_mem_of_forall₂ {α β : Type} {R : α → β → Prop} {as : List α} {bs : List β} (h : List.Forall₂ R as bs)
    {a : α} (ha : a ∈ as) : ∃ b ∈ bs, R a b := by
  induction h with
  | nil => cases ha
  | cons hr _ ih =>
    rcases mem_cons.mp ha with rfl | ha
    · exact ⟨_, mem_cons_self, hr⟩
    · obtain ⟨b, hb, hr⟩ := ih ha
      exact ⟨b, mem_cons_of_mem _ hb, hr⟩

inductive Node where
  | unit (p : Program)
  | item (i : Item)
  | var (d : VarDecl)
  | stmt (s : Stmt)
  | expr (e : Expr)

namespace Node

def ofBlock (body : List Stmt) : List Node := body.map stmt

def ofBlock? : Option (List Stmt) → List Node
  | none => []
  | some body => ofBlock body

def ofExpr? : Option Expr → List Node
  | none => []
  | some e => [expr e]

def ofStmt? : Option Stmt → List Node
  | none => []
  | some s => [stmt s]

def ofRange? : Option Range → List Node
  | none => []
  | some r => [expr r.min, expr r.max]

def ofBranch (b : Branch) : List Node := expr b.test :: ofBlock b.body

def ofPattern : Pattern → List Node
  | .wildcard _ => []
  | .value _ e => [expr e]

def ofArm (a : Arm) : List Node := a.patterns.flatMap ofPattern ++ ofBlock a.body

def ofConstructor? : Option Constructor → List Node
  | none => []
  | some k => ofBlock k.body

/-- A default stands behind all cases, wherever it is written, and a range before the initializer. -/
def children : Node → List Node
  | unit p => p.items.map item
  | item (.config _ entries) => entries.map fun f => expr f.value
  | item (.module _ _ _ _ program) => [unit program]
  | item (.var _ d) => [var d]
  | item (.aliasDecl _ _ e _) => [expr e]
  | item (.function _ d) => ofBlock d.body
  | item (.classDecl _ d) => d.fields.map (fun f => var f.value) ++ ofConstructor? d.constructor ++
      d.methods.flatMap fun m => ofBlock m.value.body
  | item (.event _ _ body) => ofBlock body
  | item (.interrupt _ d) => expr d.pin :: ofBlock d.body
  | item (.task _ d) => ofExpr? d.period ++ ofBlock d.body
  | item (.load ..) | item (.nativeInclude ..) | item (.enumDecl ..) | item (.structDecl ..) | item (.signal ..)
  | item (.native ..) => []
  | var d => ofRange? d.range ++ ofExpr? d.initializer
  | stmt (.var _ d) => [var d]
  | stmt (.assign _ target e) => [expr target, expr e]
  | stmt (.expr _ e) => [expr e]
  | stmt (.cond _ branches otherwise) => branches.flatMap ofBranch ++ ofBlock? otherwise
  | stmt (.whileLoop _ e body) => expr e :: ofBlock body
  | stmt (.forLoop _ init e update body) => ofStmt? init ++ ofExpr? e ++ ofStmt? update ++ ofBlock body
  | stmt (.repeatLoop _ e body) => expr e :: ofBlock body
  | stmt (.choose _ e arms) => expr e :: arms.flatMap ofArm
  | stmt (.switch _ e cases otherwise) => expr e :: (cases.flatMap ofBranch ++ ofBlock? otherwise)
  | stmt (.atomic _ body) => ofBlock body
  | stmt (.ret _ e) => ofExpr? e
  | stmt (.emit ..) | stmt (.breakLoop _) | stmt (.continueLoop _) | stmt (.native ..) => []
  | expr (.binary _ a _ b) => [expr a, expr b]
  | expr (.unary _ _ e) => [expr e]
  | expr (.call _ callee args) => expr callee :: args.map expr
  | expr (.member _ object _ _) => [expr object]
  | expr (.new _ _ args) => args.map expr
  | expr (.array _ es) => es.map expr
  | expr (.subscript _ a i) => [expr a, expr i]
  | expr (.convert _ e _) => [expr e]
  | expr (.guarded _ e handler) => expr e :: ofBlock handler
  | expr (.struct _ _ fields) => fields.map fun f => expr f.value
  | expr (.clamp _ e min max) => [expr e, expr min, expr max]
  | expr (.literal ..) | expr (.name ..) | expr (.self _) => []

lemma mem_ofBlock {body} {c} : c ∈ ofBlock body ↔ ∃ s ∈ body, c = stmt s := by
  simp [ofBlock, eq_comm]

lemma mem_ofBlock? {body} {c} : c ∈ ofBlock? body ↔ ∃ b, body = some b ∧ ∃ s ∈ b, c = stmt s := by
  cases body <;> simp [ofBlock?, mem_ofBlock]

lemma mem_ofExpr? {e} {c} : c ∈ ofExpr? e ↔ ∃ x, e = some x ∧ c = expr x := by
  cases e <;> simp [ofExpr?]

lemma mem_ofStmt? {s} {c} : c ∈ ofStmt? s ↔ ∃ x, s = some x ∧ c = stmt x := by
  cases s <;> simp [ofStmt?]

lemma mem_ofRange? {r} {c} : c ∈ ofRange? r ↔ ∃ x, r = some x ∧ (c = expr x.min ∨ c = expr x.max) := by
  cases r <;> simp [ofRange?]

lemma mem_ofPattern {p} {c} : c ∈ ofPattern p ↔ ∃ l e, p = .value l e ∧ c = expr e := by
  cases p <;> simp [ofPattern]

lemma mem_ofConstructor? {k} {c} : c ∈ ofConstructor? k ↔ ∃ x, k = some x ∧ ∃ s ∈ x.body, c = stmt s := by
  cases k <;> simp [ofConstructor?, mem_ofBlock]

-- Each of the next four lemmas names the children of one kind of node, and compares sizes.

lemma sizeOf_lt_of_mem_item {i} {c} (h : c ∈ (item i).children) : sizeOf c < sizeOf (item i) := by
  cases i <;> simp only [children, mem_ofBlock, mem_ofExpr?, mem_ofConstructor?, mem_append, mem_cons,
    mem_map, mem_flatMap, not_mem_nil, or_false] at h <;> simp
  all_goals grind [→ sizeOf_lt_of_mem, expr.sizeOf_spec, stmt.sizeOf_spec, var.sizeOf_spec, unit.sizeOf_spec,
    Option.some.sizeOf_spec, FieldValue.mk.sizeOf_spec, Located.mk.sizeOf_spec, FunctionDecl.mk.sizeOf_spec,
    ClassDecl.mk.sizeOf_spec, Constructor.mk.sizeOf_spec, InterruptDecl.mk.sizeOf_spec, TaskDecl.mk.sizeOf_spec,
    cases FieldValue, cases FunctionDecl, cases ClassDecl, cases Constructor, cases Located, cases InterruptDecl,
    cases TaskDecl]

lemma sizeOf_lt_of_mem_var {d} {c} (h : c ∈ (var d).children) : sizeOf c < sizeOf (var d) := by
  cases d
  simp only [children, mem_ofRange?, mem_ofExpr?, mem_append] at h
  grind [expr.sizeOf_spec, var.sizeOf_spec, Option.some.sizeOf_spec, Range.mk.sizeOf_spec, VarDecl.mk.sizeOf_spec,
    cases Range]

lemma sizeOf_lt_of_mem_stmt {s} {c} (h : c ∈ (stmt s).children) : sizeOf c < sizeOf (stmt s) := by
  cases s <;> simp only [children, ofBranch, ofArm, mem_ofBlock, mem_ofBlock?, mem_ofExpr?, mem_ofStmt?,
    mem_ofPattern, mem_append, mem_cons, mem_flatMap, not_mem_nil, or_false] at h <;> simp
  all_goals grind [→ sizeOf_lt_of_mem, expr.sizeOf_spec, stmt.sizeOf_spec, Option.some.sizeOf_spec,
    Branch.mk.sizeOf_spec, Arm.mk.sizeOf_spec, Pattern.value.sizeOf_spec, cases Branch, cases Arm]

lemma sizeOf_lt_of_mem_expr {e} {c} (h : c ∈ (expr e).children) : sizeOf c < sizeOf (expr e) := by
  cases e <;> simp only [children, mem_ofBlock, mem_cons, mem_map, not_mem_nil, or_false] at h <;> simp
  all_goals grind [→ sizeOf_lt_of_mem, expr.sizeOf_spec, stmt.sizeOf_spec, FieldValue.mk.sizeOf_spec, cases FieldValue]

lemma sizeOf_lt_of_mem_children {n c : Node} (h : c ∈ n.children) : sizeOf c < sizeOf n := by
  cases n with
  | unit p =>
    obtain ⟨_, _, items⟩ := p
    obtain ⟨i, hi, rfl⟩ := mem_map.mp h
    have hlt : sizeOf i < sizeOf items := sizeOf_lt_of_mem hi
    simp only [unit.sizeOf_spec, Program.mk.sizeOf_spec, item.sizeOf_spec]
    omega
  | item i => exact sizeOf_lt_of_mem_item h
  | var d => exact sizeOf_lt_of_mem_var h
  | stmt s => exact sizeOf_lt_of_mem_stmt h
  | expr e => exact sizeOf_lt_of_mem_expr h

lemma induct {P : Node → Prop} (h : ∀ n, (∀ c ∈ n.children, P c) → P n) (n : Node) : P n := h n fun c _ => induct h c
termination_by sizeOf n
decreasing_by exact sizeOf_lt_of_mem_children ‹_›

/-- Whether the node stands inside a declaration. -/
def isInner : Node → Bool
  | unit _ | item _ => false
  | var _ | stmt _ | expr _ => true

lemma isInner_of_mem_children {n c : Node} (hn : n.isInner) (h : c ∈ n.children) : c.isInner := by
  cases n with
  | unit p => simp [isInner] at hn
  | item i => simp [isInner] at hn
  | var d =>
    simp only [children, mem_ofRange?, mem_ofExpr?, mem_append] at h
    grind [isInner]
  | stmt s =>
    cases s <;> simp only [children, ofBranch, ofArm, mem_ofBlock, mem_ofBlock?, mem_ofExpr?, mem_ofStmt?,
      mem_ofPattern, mem_append, mem_cons, mem_flatMap, not_mem_nil, or_false] at h
    all_goals grind [isInner]
  | expr e =>
    cases e <;> simp only [children, mem_ofBlock, mem_cons, mem_map, not_mem_nil, or_false] at h
    all_goals grind [isInner]

/-- Whether a declaration is neither an interrupt nor a module. -/
def isPlain : Item → Bool
  | .interrupt .. | .module .. => false
  | _ => true

lemma isInner_of_mem_item {i} {c : Node} (hi : isPlain i) (h : c ∈ (item i).children) : c.isInner := by
  cases i <;> simp only [children, mem_ofBlock, mem_ofExpr?, mem_ofConstructor?, mem_append, mem_cons,
    mem_map, mem_flatMap, not_mem_nil, or_false] at h
  all_goals grind [isInner, isPlain]

/-- A unit, or a module, which holds one. -/
def isGroup : Node → Bool
  | unit _ | item (.module ..) => true
  | _ => false

variable {n c : Node}

lemma ne_interrupt_of_isGroup (hn : n.isGroup) (l : Location) (d : InterruptDecl) : n ≠ item (.interrupt l d) := by
  rintro rfl
  cases hn

lemma not_isInner_of_isGroup (hn : n.isGroup) (hc : c ∈ n.children) : ¬ c.isInner := by
  cases n with
  | unit p =>
    obtain ⟨i, -, rfl⟩ := mem_map.mp hc
    exact nofun
  | item i =>
    cases i with
    | module l aliasName path symbol program =>
      rw [mem_singleton.mp hc]
      exact nofun
    | _ => cases hn
  | _ => cases hn

lemma outerInduct {P : Node → Prop} (inner : ∀ n, n.isInner → P n) (plain : ∀ i, isPlain i → P (item i))
    (interrupt : ∀ l d, P (item (.interrupt l d))) (group : ∀ n, n.isGroup → (∀ c ∈ n.children, P c) → P n)
    (n : Node) : P n := by
  induction n using induct with
  | h n ih =>
    cases n with
    | unit p => exact group _ rfl ih
    | item i =>
      cases i with
      | interrupt l d => exact interrupt l d
      | module l aliasName path symbol program => exact group _ rfl ih
      | _ => exact plain _ rfl
    | _ => exact inner _ rfl

end Node

end SketchCompiler
