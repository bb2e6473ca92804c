import SketchCompiler.Proofs.BareNodes
import SketchCompiler.Proofs.Volatile
import SketchCompiler.Tree.Transform

namespace SketchCompiler

open List

variable {n : Node}

section Lists

variable (f : Transform)

lemma transformExprs_eq (es : List Expr) : transformExprs f es = es.map (Expr.transform f) :=
  eq_map rfl (fun _ _ => rfl) es

lemma transformFields_eq (fs : List FieldValue) :
    transformFields f fs = fs.map fun x => { x with value := x.value.transform f } :=
  eq_map rfl (fun ⟨_, _⟩ _ => rfl) fs

lemma transformBlock_eq (body : List Stmt) : transformBlock f body = body.map (Stmt.transform f) :=
  eq_map rfl (fun _ _ => rfl) body

lemma transformItems_eq (items : List Item) : transformItems f items = items.map (Item.transform f) :=
  eq_map rfl (fun _ _ => rfl) items

end Lists

namespace Node

def transform (f : Transform) : Node → Node
  | unit p => unit (p.transform f)
  | item i => item (i.transform f)
  | var d => var (d.transform f)
  | stmt s => stmt (s.transform f)
  | expr e => expr (e.transform f)

/-- The value that a node stores, and the symbol that it is stored into. -/
def store? : Node → Option (Option SymbolId × Expr)
  | var d => d.initializer.map (d.symbol, ·)
  | stmt (.assign _ target e) => some (target.symbol?, e)
  | _ => none

variable (f : Transform)

lemma symbol?_transform (e : Expr) : (e.transform f).symbol? = e.symbol? := by
  cases e <;> rfl

attribute [local simp] transform Function.comp_def children

lemma ofBlock_transform (body : List Stmt) : ofBlock (transformBlock f body) = (ofBlock body).map (transform f) := by
  simp [transformBlock_eq, ofBlock]

lemma ofBranches_transform (bs : List Branch) :
    (transformBranches f bs).flatMap ofBranch = (bs.flatMap ofBranch).map (transform f) := by
  induction bs with
  | nil => rfl
  | cons b bs ih =>
    obtain ⟨e, body⟩ := b
    simp [transformBranches, ofBranch, ofBlock_transform, ih]

lemma ofPatterns_transform (ps : List Pattern) :
    (transformPatterns f ps).flatMap ofPattern = (ps.flatMap ofPattern).map (transform f) := by
  induction ps with
  | nil => rfl
  | cons p ps ih => cases p <;> simp [transformPatterns, ofPattern, ih]

lemma ofArms_transform (as : List Arm) : (transformArms f as).flatMap ofArm = (as.flatMap ofArm).map (transform f) := by
  induction as with
  | nil => rfl
  | cons a as ih =>
    obtain ⟨patterns, body⟩ := a
    simp [transformArms, ofArm, ofBlock_transform, ofPatterns_transform, ih]

lemma ofBlock?_transform (body : Option (List Stmt)) :
    ofBlock? (transformBlock? f body) = (ofBlock? body).map (transform f) := by
  cases body with
  | none => rfl
  | some body => exact ofBlock_transform f body

lemma ofExpr?_transform (e : Option Expr) : ofExpr? (transformExpr? f e) = (ofExpr? e).map (transform f) := by
  cases e <;> rfl

lemma ofStmt?_transform (s : Option Stmt) : ofStmt? (transformStmt? f s) = (ofStmt? s).map (transform f) := by
  cases s <;> rfl

lemma ofRange?_transform (r : Option Range) : ofRange? (transformRange? f r) = (ofRange? r).map (transform f) := by
  rcases r with _ | ⟨min, max⟩ <;> rfl

lemma children_transform (hn : n.store? = none) :
    (n.transform f).children = n.children.map (transform f) := by
  cases n with
  | unit p =>
    cases p
    simp [Program.transform, transformItems_eq]
  | item i =>
    cases i with
    | classDecl l d =>
      obtain ⟨_, _, constructor, _, _⟩ := d
      cases constructor <;> simp [Item.transform, ClassDecl.transform, FunctionDecl.transform, ofConstructor?,
        ofBlock_transform, flatMap_map, map_flatMap]
    | _ => simp [Item.transform, FunctionDecl.transform, transformFields_eq, ofBlock_transform, ofExpr?_transform]
  | var d =>
    obtain ⟨_, _, _, initializer, _, _⟩ := d
    cases initializer with
    | none => simp [VarDecl.transform, ofRange?_transform, ofExpr?, transformExpr?]
    | some e => cases hn
  | stmt s =>
    cases s with
    | assign l target e => cases hn
    | _ => simp [Stmt.transform, ofBlock_transform, ofBlock?_transform, ofBranches_transform,
      ofArms_transform, ofExpr?_transform, ofStmt?_transform]
  | expr e =>
    cases e <;> simp [Expr.transform, ofBlock_transform, transformExprs_eq, transformFields_eq]

lemma children_store {symbol} {e : Expr} (hn : n.store? = some (symbol, e)) :
    ∃ cs, n.children = cs ++ [expr e] ∧
      (n.transform f).children = cs.map (transform f) ++ [expr (f.stored symbol (e.transform f))] := by
  cases n with
  | var d =>
    obtain ⟨qualifier, type, name, initializer, range, symbol'⟩ := d
    cases initializer with
    | none => cases hn
    | some e' =>
      cases hn
      refine ⟨ofRange? range, rfl, ?_⟩
      simp [VarDecl.transform, ofRange?_transform, ofExpr?, transformExpr?]
  | stmt s =>
    cases s with
    | assign l target e' =>
      cases hn
      refine ⟨[expr target], rfl, ?_⟩
      simp [Stmt.transform, symbol?_transform]
    | _ => cases hn
  | _ => cases hn

variable {f} {added : Option SymbolId → Expr → List Node} {m : Node}

/-- The node `m` comes from `k`: it is `k` transformed, or added around the value that `k` stores. -/
def ComesFrom (f : Transform) (added : Option SymbolId → Expr → List Node) (m k : Node) : Prop :=
  m = k.transform f ∨ ∃ symbol e, k.store? = some (symbol, e) ∧ m ∈ added symbol (e.transform f)

lemma isInner_transform (n : Node) : (n.transform f).isInner = n.isInner := by
  cases n <;> rfl

lemma isPlain_transform (i : Item) : isPlain (i.transform f) = isPlain i := by
  cases i <;> rfl

lemma store?_of_isGroup (hn : n.isGroup) : n.store? = none := by
  cases n with
  | unit p => rfl
  | item i => rfl
  | _ => cases hn

lemma transform_ne_interrupt (hn : ∀ l d, n ≠ item (.interrupt l d)) (l : Location) (d : InterruptDecl) :
    n.transform f ≠ item (.interrupt l d) := by
  intro h
  cases n with
  | item i =>
    cases i with
    | interrupt l' d' => exact hn l' d' rfl
    | _ => simp [Item.transform] at h
  | _ => simp at h

section

variable (ha : ∀ symbol e m, m ∈ (expr (f.stored symbol e)).nodes ↔ m ∈ (expr e).nodes ∨ m ∈ added symbol e)

include ha

lemma exists_child_transform_iff : (∃ c ∈ (n.transform f).children, c.Outside m) ↔
    (∃ c ∈ n.children, (c.transform f).Outside m) ∨
      ∃ symbol e, n.store? = some (symbol, e) ∧ m ∈ added symbol (e.transform f) := by
  cases hs : n.store? with
  | none => simp [-transform, -children, children_transform f hs]
  | some x =>
    obtain ⟨symbol, e⟩ := x
    obtain ⟨cs, hc, ht⟩ := children_store f hs
    have he : (expr (f.stored symbol (e.transform f))).Outside m ↔
        ((expr e).transform f).Outside m ∨ m ∈ added symbol (e.transform f) := by
      rw [outside_iff_mem_nodes rfl, ha, ← outside_iff_mem_nodes rfl]
      rfl
    rw [hc, ht]
    simp [he, or_and_right, exists_or, or_assoc]

lemma outside_transform_iff : (n.transform f).Outside m ↔ ∃ k, n.Outside k ∧ ComesFrom f added m k := by
  induction n using induct with
  | h n ih =>
    by_cases hi : ∃ l d, n = item (.interrupt l d)
    · obtain ⟨l, d, rfl⟩ := hi
      -- Below an interrupt no node is outside, so both sides speak of the interrupt itself.
      have ht := outside_interrupt_iff (m := m) (l := l)
        (d := { d with pin := d.pin.transform f, body := transformBlock f d.body })
      simp only [outside_interrupt_iff, exists_eq_left, ComesFrom, store?, reduceCtorEq, false_and, exists_false,
        or_false]
      exact ht
    · have hn : ∀ l d, n ≠ item (.interrupt l d) := fun l d h => hi ⟨l, d, h⟩
      rw [outside_iff (transform_ne_interrupt hn), exists_child_transform_iff ha]
      constructor
      · rintro (rfl | ⟨c, hc, h⟩ | h)
        · exact ⟨n, .refl n, .inl rfl⟩
        · obtain ⟨k, hk, h⟩ := (ih c hc).mp h
          exact ⟨k, .child hn hc hk, h⟩
        · exact ⟨n, .refl n, .inr h⟩
      · rintro ⟨k, hk, h⟩
        rcases (outside_iff hn).mp hk with rfl | ⟨c, hc, hk⟩
        · exact h.imp_right .inr
        · exact .inr (.inl ⟨c, hc, (ih c hc).mpr ⟨k, hk, h⟩⟩)

lemma mem_bodyNodes_transform : m ∈ (n.transform f).bodyNodes ↔ ∃ k ∈ n.bodyNodes, ComesFrom f added m k := by
  induction n using outerInduct with
  | inner n hn =>
    rw [bodyNodes_of_isInner hn, bodyNodes_of_isInner ((isInner_transform n).trans hn)]
    simp
  | plain i hi =>
    rw [transform, bodyNodes_of_isPlain hi, bodyNodes_of_isPlain ((isPlain_transform i).trans hi)]
    simp
  | interrupt l d =>
    rw [transform, Item.transform, bodyNodes_interrupt, bodyNodes_interrupt, ofBlock_transform]
    simp only [mem_flatMap, mem_map, exists_exists_and_eq_and, mem_ofBlock]
    -- In a statement no interrupt stands above any node.
    constructor
    · rintro ⟨_, ⟨s, hs, rfl⟩, h⟩
      obtain ⟨k, hk, h⟩ := (outside_transform_iff ha).mp ((outside_iff_mem_nodes rfl).mpr h)
      exact ⟨k, ⟨_, ⟨s, hs, rfl⟩, (outside_iff_mem_nodes rfl).mp hk⟩, h⟩
    · rintro ⟨k, ⟨_, ⟨s, hs, rfl⟩, hk⟩, h⟩
      refine ⟨_, ⟨s, hs, rfl⟩, (outside_iff_mem_nodes rfl).mp ?_⟩
      exact (outside_transform_iff ha).mpr ⟨k, (outside_iff_mem_nodes rfl).mpr hk, h⟩
  | group n hg ih =>
    rw [bodyNodes_eq (ne_interrupt_of_isGroup hg), bodyNodes_eq (transform_ne_interrupt (ne_interrupt_of_isGroup hg)),
      children_transform f (store?_of_isGroup hg)]
    simp only [mem_flatMap, mem_map, exists_exists_and_eq_and]
    constructor
    · rintro ⟨c, hc, h⟩
      obtain ⟨k, hk, h⟩ := (ih c hc).mp h
      exact ⟨k, ⟨c, hc, hk⟩, h⟩
    · rintro ⟨k, ⟨c, hc, hk⟩, h⟩
      exact ⟨c, hc, (ih c hc).mpr ⟨k, hk, h⟩⟩

end

end Node

end SketchCompiler
