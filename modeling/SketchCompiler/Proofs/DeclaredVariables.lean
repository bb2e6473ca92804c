import SketchCompiler.Proofs.Declarations
import SketchCompiler.Proofs.NumberedNames

namespace SketchCompiler

open List

variable {id : SymbolId}

namespace Node

def declarations : Node → List Declaration
  | unit p => p.declarations
  | item i => i.declarations
  | var d => innerDeclarations (rangeVars? d.range ++ exprVars? d.initializer)
  | stmt s => innerDeclarations s.vars
  | expr e => innerDeclarations e.vars

/-- Whether the variable below the node stands on top of a unit. -/
def isTop : Node → Bool
  | item (.var ..) => true
  | _ => false

variable {n c m : Node} {d : VarDecl} {x : Declaration}

lemma mem_declarations_of_var (h : var d ∈ n.children) (hx : d.declaration? n.isTop = some x) : x ∈ n.declarations := by
  have hmem {e : VarDecl} {ds : List VarDecl} (he : e ∈ ds) (hx : e.declaration? false = some x) :
      x ∈ innerDeclarations ds := mem_filterMap.mpr ⟨e, he, hx⟩
  have hself (e : VarDecl) : e ∈ e.vars := (mem_vars (n := var e)).mpr mem_nodes_self
  rcases parent_of_var h with ⟨l, rfl⟩ | ⟨l, rfl⟩ | ⟨l, k, rfl⟩
  · exact mem_append_left _ (Option.mem_toList.mpr hx)
  · exact hmem (hself d) hx
  · exact hmem ((mem_vars (n := item (.classDecl l k))).mpr (mem_nodes_of_mem_children mem_nodes_self h))
      hx

lemma declarations_subset (h : c ∈ n.children) : c.declarations ⊆ n.declarations := by
  have hvars (hc : c.isInner) : c.declarations ⊆ innerDeclarations c.vars := by
    cases c with
    | unit | item => cases hc
    | var d =>
      rw [vars, ← VarDecl.declarations_false]
      exact subset_append_right _ _
    | stmt | expr => exact List.Subset.refl _
  have inner (hc : c.isInner) (hn : n.declarations = innerDeclarations n.vars) : c.declarations ⊆ n.declarations := by
    rw [hn, n.vars_eq, innerDeclarations_append, innerDeclarations_flatMap]
    exact fun x hx => mem_append_right _ (mem_flatMap.mpr ⟨c, h, hvars hc hx⟩)
  cases n with
  | unit p =>
    cases p
    obtain ⟨i, hi, rfl⟩ := mem_map.mp h
    rw [declarations, declarations, Program.declarations, itemsDeclarations_eq]
    exact fun x hx => mem_flatMap.mpr ⟨i, hi, hx⟩
  | item i =>
    cases i with
    | var l d =>
      cases mem_singleton.mp h
      exact subset_append_right _ _
    | module l aliasName path symbol program =>
      cases mem_singleton.mp h
      exact List.Subset.refl _
    | interrupt l d =>
      refine inner ?_ rfl
      rcases mem_cons.mp h with rfl | h
      · rfl
      · obtain ⟨s, -, rfl⟩ := mem_ofBlock.mp h
        rfl
    | _ => exact inner (isInner_of_mem_item rfl h) rfl
  | var d =>
    rw [declarations, rangeVars?_eq, exprVars?_eq, ← flatMap_append, innerDeclarations_flatMap]
    exact fun x hx => mem_flatMap.mpr ⟨c, h, hvars (isInner_of_mem_children rfl h) hx⟩
  | stmt s => exact inner (isInner_of_mem_children rfl h) rfl
  | expr e => exact inner (isInner_of_mem_children rfl h) rfl

lemma mem_declarations (hm : m ∈ n.nodes) (hd : var d ∈ m.children) (hx : d.declaration? m.isTop = some x) :
    x ∈ n.declarations := by
  induction n using induct with
  | h n ih =>
    rcases mem_nodes_iff.mp hm with rfl | ⟨c, hc, hm⟩
    · exact mem_declarations_of_var hd hx
    · exact declarations_subset hc (ih c hc hm)

end Node

lemma ids_innerDeclarations (ds : List VarDecl) : (innerDeclarations ds).map (·.id) = ds.filterMap (·.symbol) := by
  rw [innerDeclarations, map_filterMap]
  congr 1
  funext d
  cases hs : d.symbol <;> simp [VarDecl.declaration?, hs]

lemma VarDecl.ids_declarations (d : VarDecl) : (d.declarations true).map (·.id) = d.vars.filterMap (·.symbol) := by
  have h := ids_innerDeclarations d.vars
  rw [← VarDecl.declarations_false] at h
  rw [← h, declarations, declarations]
  cases hs : d.symbol <;> simp [declaration?, hs]

mutual

lemma Item.ids_declarations (i : Item) : i.declarations.map (·.id) = i.vars.filterMap (·.symbol) := by
  cases i with
  | var l d => exact d.ids_declarations
  | module l aliasName path symbol program => exact program.ids_declarations
  | _ => exact ids_innerDeclarations _

lemma ids_itemsDeclarations (items : List Item) :
    (itemsDeclarations items).map (·.id) = (itemsVars items).filterMap (·.symbol) := by
  cases items with
  | nil => rfl
  | cons i is =>
    have hi := i.ids_declarations
    have his := ids_itemsDeclarations is
    rw [itemsDeclarations, itemsVars, map_append, filterMap_append, hi, his]

lemma Program.ids_declarations (p : Program) : p.declarations.map (·.id) = p.vars.filterMap (·.symbol) := by
  obtain ⟨_, _, items⟩ := p
  exact ids_itemsDeclarations items

end

namespace Program

/-- The variable is declared on top of the program or of one of its modules. -/
def DeclaresOnTop (p : Program) (d : VarDecl) : Prop := ∃ a l, (Node.unit p).at? a = some (.item (.var l d))

/-- The variable is declared in a statement, or as a field of a class. -/
def DeclaresInside (p : Program) (d : VarDecl) : Prop :=
  ∃ a n, (Node.unit p).at? a = some n ∧ .var d ∈ n.children ∧ n.isTop = false

variable {p q : Program} {t : SymbolTable} {d : VarDecl}

lemma declaresOnTop_or_inside (h : .var d ∈ (Node.unit p).nodes) : p.DeclaresOnTop d ∨ p.DeclaresInside d := by
  rcases Node.exists_parent h with h | ⟨n, hn, hd⟩
  · cases h
  obtain ⟨a, ha⟩ := Node.mem_nodes.mp hn
  by_cases ht : n.isTop
  · left
    cases n with
    | item i =>
      cases i with
      | var l d' =>
        simp only [Node.children, mem_singleton, Node.var.injEq] at hd
        exact ⟨a, l, hd ▸ ha⟩
      | _ => cases ht
    | _ => cases ht
  · exact .inr ⟨a, n, ha, hd, by simpa using ht⟩

lemma DeclaresOnTop.mem_declarations (h : p.DeclaresOnTop d) (hd : d.symbol = some id) :
    ⟨id, true⟩ ∈ p.declarations := by
  obtain ⟨a, l, ha⟩ := h
  refine Node.mem_declarations (n := .unit p) (Node.mem_nodes.mpr ⟨a, ha⟩) (mem_singleton_self _) ?_
  simp [VarDecl.declaration?, hd, Node.isTop]

lemma DeclaresInside.mem_declarations (h : p.DeclaresInside d) (hd : d.symbol = some id) :
    ⟨id, false⟩ ∈ p.declarations := by
  obtain ⟨a, n, ha, hc, ht⟩ := h
  refine Node.mem_declarations (n := .unit p) (Node.mem_nodes.mpr ⟨a, ha⟩) hc ?_
  simp [VarDecl.declaration?, hd, ht]

lemma exists_numbers (hp : ∀ d ∈ p.vars, d.symbol = none) (h : p.resolveNames = (q, .ok t)) :
    ∃ start : SymbolTable, start.Numbers q.declarations t := by
  have hq : q.Silent := by
    intro n hn d hd
    have hunread := p.unread_resolveNames
    rw [h] at hunread
    rw [hunread] at hn
    refine hp d ((Node.mem_vars (n := .unit p)).mpr ?_)
    exact Node.mem_nodes_trans (mem_nodes_of_unread hn) (Node.mem_vars.mp hd)
  obtain ⟨items, t1, hhoist, hwalk, hkept⟩ := run_of_resolveNames h
  generalize SymbolTable.ofBuiltins = builtins at hhoist hwalk
  have hlevel : (builtins.pushScope SymbolTable.root .global).1.Level builtins.scopes.size true := builtins.level_push _
  refine ⟨_, (hhoist.numbers hlevel fun l aliasName file symbol p hi => ?_).unit hlevel hwalk hkept hq⟩
  obtain ⟨i', hi', hk⟩ := exists_mem_of_forall₂ hkept hi
  obtain rfl := hk.module_iff.mpr rfl
  exact hq.of_item hi'

/-- No two variables have the same number. -/
def NumberedOnce (p : Program) : Prop := (p.vars.filterMap (·.symbol)).Nodup

lemma numberedOnce (hp : ∀ d ∈ p.vars, d.symbol = none) (h : p.resolveNames = (q, .ok t)) : q.NumberedOnce := by
  obtain ⟨_, hn⟩ := exists_numbers hp h
  rw [NumberedOnce, ← q.ids_declarations]
  exact hn.nodup

lemma NumberedOnce.var_eq {e : VarDecl} (hp : p.NumberedOnce) (hd : d ∈ p.vars) (he : e ∈ p.vars)
    (hid : d.symbol = some id) (hie : e.symbol = some id) : d = e := by
  rw [NumberedOnce, List.Nodup, pairwise_filterMap] at hp
  have : Std.Symm fun d e : VarDecl => ∀ x, d.symbol = some x → ∀ y, e.symbol = some y → x ≠ y :=
    ⟨fun d e hne x hx y hy => (hne y hy x hx).symm⟩
  by_contra hne
  exact hp.forall hd he hne id hid id hie rfl

end Program

end SketchCompiler
