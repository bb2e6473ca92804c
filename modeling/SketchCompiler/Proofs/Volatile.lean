import Mathlib.Data.List.Induction
import Mathlib.Data.List.Sort
import SketchCompiler.Proofs.InterruptErrors

namespace SketchCompiler

open List Node

variable {p : Program} {t : SymbolTable} {volatile : VolatileSet}

namespace VolatileSet

variable {id x : SymbolId} {xs : List SymbolId}

lemma mem_insertId : x ∈ insertId id xs ↔ x = id ∨ x ∈ xs := by
  induction xs with
  | nil => simp [insertId]
  | cons y ys ih =>
    rw [insertId]
    split
    · exact mem_cons
    · split
      case isTrue h => simp [h]
      case isFalse => simp [ih, or_left_comm]

lemma pairwise_insertId (h : xs.Pairwise (· < ·)) : (insertId id xs).Pairwise (· < ·) := by
  induction xs with
  | nil => simp [insertId]
  | cons y ys ih =>
    obtain ⟨hy, hys⟩ := pairwise_cons.mp h
    rw [insertId]
    split
    case isTrue hlt =>
      refine pairwise_cons.mpr ⟨fun z hz => ?_, h⟩
      rcases mem_cons.mp hz with rfl | hz
      · exact hlt
      · exact hlt.trans (hy z hz)
    case isFalse hge =>
      split
      case isTrue => exact h
      case isFalse hne =>
        refine pairwise_cons.mpr ⟨fun z hz => ?_, ih hys⟩
        rcases mem_insertId.mp hz with rfl | hz
        · exact lt_of_le_of_ne (not_lt.mp hge) (Ne.symm hne)
        · exact hy z hz

lemma ofFindings_concat (fs : List Finding) (f : Finding) : ofFindings (fs ++ [f]) = match f with
    | .volatile id => (ofFindings fs).insert id
    | .error _ => ofFindings fs := by
  rw [ofFindings, foldl_append]
  rfl

lemma mem_ofFindings {fs} : id ∈ (ofFindings fs).ids ↔ .volatile id ∈ fs := by
  induction fs using List.reverseRecOn with
  | nil => simp [ofFindings]
  | append_singleton fs f ih =>
    rw [ofFindings_concat]
    cases f with
    | volatile id' => simp [insert, mem_insertId, ih, or_comm]
    | error e => simp [ih]

lemma pairwise_ofFindings (fs : List Finding) : (ofFindings fs).ids.Pairwise (· < ·) := by
  induction fs using List.reverseRecOn with
  | nil => exact .nil
  | append_singleton fs f ih =>
    rw [ofFindings_concat]
    cases f with
    | volatile id => exact pairwise_insertId ih
    | error e => exact ih

lemma ofFindings_eq_iff {fs gs} : ofFindings fs = ofFindings gs ↔ ∀ id, .volatile id ∈ fs ↔ .volatile id ∈ gs := by
  constructor
  · intro h id
    rw [← mem_ofFindings, h, mem_ofFindings]
  · intro h
    have hids : (ofFindings fs).ids = (ofFindings gs).ids :=
      (pairwise_ofFindings fs).eq_of_mem_iff (pairwise_ofFindings gs) fun id => by
        rw [mem_ofFindings, mem_ofFindings, h]
    exact congrArg mk hids

end VolatileSet

namespace Node

variable {f : Finding} {t : SymbolTable} {id : SymbolId}

/-- A node at or below `n` that is not below an interrupt. -/
inductive Outside : Node → Node → Prop
  | refl (n : Node) : Outside n n
  | child {n c m : Node} (hn : ∀ l d, n ≠ item (.interrupt l d)) (hc : c ∈ n.children) (h : Outside c m) : Outside n m

variable {n m : Node}

lemma outside_iff (hn : ∀ l d, n ≠ item (.interrupt l d)) : n.Outside m ↔ m = n ∨ ∃ c ∈ n.children, c.Outside m := by
  constructor
  · intro h
    cases h with
    | refl => exact .inl rfl
    | child _ hc h => exact .inr ⟨_, hc, h⟩
  · rintro (rfl | ⟨c, hc, h⟩)
    · exact .refl m
    · exact .child hn hc h

lemma outside_iff_mem_nodes (hn : n.isInner) : n.Outside m ↔ m ∈ n.nodes := by
  induction n using induct with
  | h n ih =>
    have hi : ∀ l d, n ≠ item (.interrupt l d) := by
      rintro l d rfl
      simp [isInner] at hn
    rw [outside_iff hi, nodes_eq, mem_cons, mem_flatMap]
    refine or_congr_right (exists_congr fun c => and_congr_right fun hc => ?_)
    exact ih c hc (isInner_of_mem_children hn hc)

lemma outside_item_iff_mem_nodes {i} (hi : isPlain i) : (item i).Outside m ↔ m ∈ (item i).nodes := by
  have hn : ∀ l d, item i ≠ item (.interrupt l d) := by
    rintro l d ⟨⟩
    simp [isPlain] at hi
  rw [outside_iff hn, nodes_eq, mem_cons, mem_flatMap]
  refine or_congr_right (exists_congr fun c => and_congr_right fun hc => ?_)
  exact outside_iff_mem_nodes (isInner_of_mem_item hi hc)

lemma outside_interrupt_iff {l} {d : InterruptDecl} :
    (item (.interrupt l d)).Outside m ↔ m = item (.interrupt l d) := by
  constructor
  · intro h
    cases h with
    | refl => rfl
    | child hn => exact absurd rfl (hn l d)
  · rintro rfl
    exact .refl _

lemma mem_reactiveFindings {vars} :
    f ∈ reactiveFindings vars ↔ ∃ d ∈ vars, d.qualifier = .reactive ∧ d.symbol.map .volatile = some f := by
  simp only [reactiveFindings, mem_filterMap]
  refine exists_congr fun d => and_congr_right fun _ => ?_
  split <;> simp_all

lemma mem_blockFindings {body} : f ∈ blockFindings t body ↔ ∃ m ∈ (ofBlock body).flatMap nodes, f ∈ m.finding t := by
  rw [blockFindings_eq_nodes, mem_flatMap]

lemma mem_outerFindings (hn : ¬ n.isInner) : f ∈ n.outerFindings t ↔ (∃ m ∈ n.bodyNodes, f ∈ m.finding t) ∨
      ∃ d, n.Outside (var d) ∧ d.qualifier = .reactive ∧ d.symbol.map .volatile = some f := by
  induction n using outerInduct with
  | inner n hi => exact absurd hi hn
  | plain i hi =>
    rw [outerFindings_of_isPlain t hi, bodyNodes_of_isPlain hi, mem_reactiveFindings]
    simp only [not_mem_nil, false_and, exists_false, false_or, outside_item_iff_mem_nodes hi, ← mem_vars]
    rfl
  | interrupt l d =>
    rw [bodyNodes_interrupt, ← mem_blockFindings]
    simp only [outside_interrupt_iff, reduceCtorEq, false_and, exists_false, or_false]
    rfl
  | group n hg ih =>
    rw [outerFindings_of_isGroup t hg, bodyNodes_eq (ne_interrupt_of_isGroup hg)]
    simp only [mem_flatMap]
    constructor
    · rintro ⟨c, hc, hf⟩
      rcases (ih c hc (not_isInner_of_isGroup hg hc)).mp hf with ⟨m, hb, hf⟩ | ⟨d, ho, hd⟩
      · exact .inl ⟨m, ⟨c, hc, hb⟩, hf⟩
      · exact .inr ⟨d, .child (ne_interrupt_of_isGroup hg) hc ho, hd⟩
    · rintro (⟨m, ⟨c, hc, hb⟩, hf⟩ | ⟨d, ho, hd⟩)
      · exact ⟨c, hc, (ih c hc (not_isInner_of_isGroup hg hc)).mpr (.inl ⟨m, hb, hf⟩)⟩
      · -- The unit itself is no variable, so the variable is below a child.
        rcases (outside_iff (ne_interrupt_of_isGroup hg)).mp ho with rfl | ⟨c, hc, ho⟩
        · exact absurd rfl hn
        · exact ⟨c, hc, (ih c hc (not_isInner_of_isGroup hg hc)).mpr (.inr ⟨d, ho, hd⟩)⟩

lemma volatile_mem_sharedUse {symbol} :
    .volatile id ∈ t.sharedUse symbol ↔ symbol = some id ∧ t.kind id = .var ∧ t.isGlobal id := by
  cases symbol with
  | none => simp [SymbolTable.sharedUse]
  | some id' =>
    by_cases h : t.kind id' = .var && t.isGlobal id'
    · rw [SymbolTable.sharedUse, if_pos h]
      grind
    · rw [SymbolTable.sharedUse, if_neg h]
      grind

lemma volatile_not_mem_callFindings (callee : Expr) : .volatile id ∉ t.callFindings callee := by
  rw [SymbolTable.callFindings]
  cases t.forbiddenCall? callee <;> simp

lemma volatile_mem_finding : .volatile id ∈ n.finding t ↔ ∃ e, n = expr e ∧ e.symbol? = some id ∧ t.kind id = .var ∧
    t.isGlobal id := by
  fun_cases finding t n with
  | case4 l r => simp [volatile_mem_sharedUse, Expr.symbol?]
  | case5 l object name symbol => simp [volatile_mem_sharedUse, Expr.symbol?]
  | case6 l callee args => simp [volatile_not_mem_callFindings, Expr.symbol?]
  | case7 n _ _ _ hname hmember _ =>
    refine ⟨fun h => absurd h not_mem_nil, ?_⟩
    rintro ⟨e, rfl, he, -⟩
    cases e with
    | name l r => exact absurd rfl (hname l r)
    | member l object name symbol => exact absurd rfl (hmember l object name symbol)
    | _ => cases he
  | _ => simp

end Node

lemma Program.mem_findings {f} : f ∈ p.findings t ↔ (∃ m ∈ (unit p).bodyNodes, f ∈ m.finding t) ∨
      ∃ d, (unit p).Outside (.var d) ∧ d.qualifier = .reactive ∧ d.symbol.map .volatile = some f :=
  mem_outerFindings (n := .unit p) (by simp [isInner])

lemma Program.checkInterrupts_eq_ok_iff : p.checkInterrupts t = .ok volatile ↔ p.interruptErrors t = [] ∧ .ofFindings
    (p.findings t) = volatile := by
  rw [interruptErrors, checkInterrupts_eq]
  cases (p.findings t).filterMap Finding.error? <;> simp

lemma Program.contains_volatile_iff (h : p.checkInterrupts t = .ok volatile) (id : SymbolId) : volatile.contains id ↔
      (∃ d, (unit p).Outside (.var d) ∧ d.qualifier = .reactive ∧ d.symbol = some id) ∨
      (t.kind id = .var ∧ t.isGlobal id ∧ ∃ a e, p.InterruptNodeAt a (.expr e) ∧ e.symbol? = some id) := by
  obtain ⟨-, rfl⟩ := checkInterrupts_eq_ok_iff.mp h
  rw [VolatileSet.contains, contains_iff_mem, VolatileSet.mem_ofFindings]
  rw [mem_findings, or_comm]
  refine or_congr (by simp) ?_
  simp only [volatile_mem_finding, mem_bodyNodes]
  constructor
  · rintro ⟨_, ⟨a, ha⟩, e, rfl, he, hk, hg⟩
    exact ⟨hk, hg, a, e, ha, he⟩
  · rintro ⟨hk, hg, a, e, ha, he⟩
    exact ⟨_, ⟨a, ha⟩, e, rfl, he, hk, hg⟩

end SketchCompiler
