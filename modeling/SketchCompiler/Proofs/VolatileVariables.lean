import Mathlib
import SketchCompiler.Proofs.DeclaredVariables
import SketchCompiler.Proofs.Volatile

namespace SketchCompiler

variable {n m : Node}

namespace Node

lemma Outside.mem_nodes (h : n.Outside m) : m ∈ n.nodes := by
  induction h with
  | refl n => exact mem_nodes_self
  | child _ hc _ ih => exact mem_nodes_iff.mpr (.inr ⟨_, hc, ih⟩)

lemma Outside.trans {k : Node} (h : n.Outside m) (hk : m.Outside k) : n.Outside k := by
  induction h with
  | refl n => exact hk
  | child hn hc _ ih => exact .child hn hc (ih hk)

lemma outside_of_item_mem_nodes {i} (h : item i ∈ n.nodes) : n.Outside (item i) := by
  induction n using induct with
  | h n ih =>
    rcases mem_nodes_iff.mp h with rfl | ⟨c, hc, hi⟩
    · exact .refl _
    · refine .child ?_ hc (ih c hc hi)
      rintro l d rfl
      have hinner : c.isInner := by
        rcases List.mem_cons.mp hc with rfl | hc
        · rfl
        · obtain ⟨s, -, rfl⟩ := mem_ofBlock.mp hc
          rfl
      cases isInner_of_mem_nodes hinner hi

end Node

namespace Program

variable {p q : Program} {t : SymbolTable} {volatile : VolatileSet} {d : VarDecl} {id : SymbolId}

lemma DeclaresOnTop.outside (h : p.DeclaresOnTop d) : (Node.unit p).Outside (.var d) := by
  obtain ⟨a, l, ha⟩ := h
  have hi := Node.outside_of_item_mem_nodes (Node.mem_nodes.mpr ⟨a, ha⟩)
  exact hi.trans (.child (by simp) (List.mem_singleton.mpr rfl) (.refl _))

lemma DeclaresOnTop.isGlobal (h : q.DeclaresOnTop d) (hq : ∀ x ∈ q.declarations, t.Has x) (hd : d.symbol = some id) :
    t.isGlobal id = true :=
  (hq _ (h.mem_declarations hd)).isGlobal_eq

lemma DeclaresInside.isGlobal (h : q.DeclaresInside d) (hq : ∀ x ∈ q.declarations, t.Has x) (hd : d.symbol = some id) :
    t.isGlobal id = false :=
  (hq _ (h.mem_declarations hd)).isGlobal_eq

lemma DeclaresInside.mem_vars (h : p.DeclaresInside d) : d ∈ p.vars := by
  obtain ⟨a, n, ha, hc, -⟩ := h
  exact (Node.mem_vars (n := .unit p)).mpr (Node.mem_nodes_of_mem_children (Node.mem_nodes.mpr ⟨a, ha⟩) hc)

/-- Variables on top of units are volatile if they are reactive or used in the body of an interrupt. Other variables are
volatile only if they are reactive, and parameters never. -/
theorem volatile_iff_reactive_or_shared (hp : ∀ d ∈ p.vars, d.symbol = none) (hr : p.resolveNames = (q, .ok t))
    (hc : q.checkInterrupts t = .ok volatile) :
    (∀ id, t.isGlobal id → (volatile.contains id ↔
      (∃ d, q.DeclaresOnTop d ∧ d.symbol = some id ∧ d.qualifier = .reactive) ∨
      (t.kind id = .var ∧ ∃ a e, q.InterruptNodeAt a (.expr e) ∧ e.symbol? = some id))) ∧
    (∀ id, ¬ t.isGlobal id → volatile.contains id →
      t.kind id ≠ .param ∧ ∃ d, q.DeclaresInside d ∧ d.symbol = some id ∧ d.qualifier = .reactive) ∧
    (∀ d id, q.DeclaresOnTop d → d.symbol = some id → t.isGlobal id) ∧
    ∀ d id, q.DeclaresInside d → d.symbol = some id →
      ¬ t.isGlobal id ∧ (volatile.contains id → d.qualifier = .reactive) := by
  obtain ⟨_, hnumbers⟩ := exists_numbers hp hr
  have hq := hnumbers.has
  -- A use in the body of an interrupt counts only for a symbol on top, so other elements come from declarations.
  have hinside (id : SymbolId) (hg : ¬ t.isGlobal id) (hv : volatile.contains id) :
      ∃ d, q.DeclaresInside d ∧ d.symbol = some id ∧ d.qualifier = .reactive := by
    rcases (contains_volatile_iff hc id).mp hv with ⟨d, ho, hd, hs⟩ | ⟨-, h, -⟩
    · rcases declaresOnTop_or_inside ho.mem_nodes with h | h
      · exact absurd (h.isGlobal hq hs) hg
      · exact ⟨d, h, hs, hd⟩
    · exact absurd h hg
  refine ⟨fun id hg => ?_, fun id hg hv => ?_, fun d id h hs => h.isGlobal hq hs, fun d id h hs => ?_⟩
  · rw [contains_volatile_iff hc id]
    refine or_congr ⟨?_, ?_⟩ (by simp [hg])
    · rintro ⟨d, ho, hd, hs⟩
      rcases declaresOnTop_or_inside ho.mem_nodes with h | h
      · exact ⟨d, h, hs, hd⟩
      · rw [h.isGlobal hq hs] at hg
        cases hg
    · rintro ⟨d, h, hs, hd⟩
      exact ⟨d, h.outside, hd, hs⟩
  · obtain ⟨d, h, hs, hd⟩ := hinside id hg hv
    exact ⟨(hq _ (h.mem_declarations hs)).kind_ne, d, h, hs, hd⟩
  · have hg : ¬ t.isGlobal id := by simp [h.isGlobal hq hs]
    refine ⟨hg, fun hv => ?_⟩
    obtain ⟨e, he, hse, hd⟩ := hinside id hg hv
    rw [(numberedOnce hp hr).var_eq h.mem_vars he.mem_vars hs hse, hd]

end Program

namespace Sample

def flag (qualifier : Qualifier) (symbol : Option SymbolId) : VarDecl :=
  { mutableVar "int" "flag" with qualifier, symbol }

def setFlag (symbol : Option SymbolId) : Stmt :=
  .assign default (.name default ⟨name "flag", symbol⟩) (.literal default (.bool true))

def sharing : Program := unit [
  .var default (flag .mutable none),
  .function default (method "wait" [.var default (flag .reactive none)]).value,
  .function default (method "count" [.var default (flag .mutable none)]).value,
  interrupt [setFlag none]]

lemma sharing_vars : ∀ d ∈ sharing.vars, d.symbol = none := by decide

lemma sharing_isResolved : isResolved sharing = true := by decide +kernel

lemma sharing_passes : sharing.resolveNames.1.checkInterrupts (tableOf sharing) = .ok ⟨[31, 32]⟩ ∧
    sharing.resolveNames.1.items = [ .var default (flag .mutable (some 31)),
      .function default { (method "wait" [.var default (flag .reactive (some 32))]).value with symbol := some 29 },
      .function default { (method "count" [.var default (flag .mutable (some 33))]).value with symbol := some 30 },
      .interrupt default ⟨none, .name default ⟨name "LOW", some 23⟩, .rising, [setFlag (some 31)]⟩] := by cbv

lemma sharing_inside : sharing.resolveNames.1.DeclaresInside (flag .reactive (some 32)) :=
  ⟨[1, 0], .stmt (.var default (flag .reactive (some 32))),
    by simp [Node.at?, Node.children, sharing_passes.2, method, Node.ofBlock], by simp [Node.children], rfl⟩

/-- A reactive local is volatile though it has the name of a variable that an interrupt uses. -/
theorem sharing_reactive_local_volatile : ∃ q t volatile shared inner a e id,
    sharing.resolveNames = (q, .ok t) ∧ q.checkInterrupts t = .ok volatile ∧
    q.DeclaresOnTop shared ∧ q.InterruptNodeAt a (.expr e) ∧ e.symbol? = shared.symbol ∧
    q.DeclaresInside inner ∧ inner.name.text = shared.name.text ∧
    inner.symbol = some id ∧ ¬ t.isGlobal id ∧ volatile.contains id := by
  refine ⟨_, _, _, flag .mutable (some 31), flag .reactive (some 32), [3, 1, 0],
    .name default ⟨name "flag", some 31⟩, 32, resolveNames_eq sharing_isResolved, sharing_passes.1,
    ⟨[0], default, ?_⟩, ⟨?_, ?_⟩, rfl, sharing_inside, rfl, rfl, by decide +kernel, rfl⟩
  · simp [Node.at?, Node.children, sharing_passes.2]
  · simp [Node.at?, Node.children, sharing_passes.2, Node.ofBlock, setFlag]
  · simp [Node.inBody, Node.children, sharing_passes.2]

theorem sharing_volatile_iff : (∀ d ∈ sharing.vars, d.symbol = none) ∧
    sharing.resolveNames = (sharing.resolveNames.1, .ok (tableOf sharing)) ∧
    sharing.resolveNames.1.checkInterrupts (tableOf sharing) = .ok ⟨[31, 32]⟩ ∧
    (tableOf sharing).isGlobal 31 ∧
    ((∃ d, sharing.resolveNames.1.DeclaresOnTop d ∧ d.symbol = some 31 ∧ d.qualifier = .reactive) ∨
      ((tableOf sharing).kind 31 = .var ∧
        ∃ a e, sharing.resolveNames.1.InterruptNodeAt a (.expr e) ∧ e.symbol? = some 31)) ∧
    ¬ (tableOf sharing).isGlobal 32 := by
  have h := Program.volatile_iff_reactive_or_shared sharing_vars (resolveNames_eq sharing_isResolved) sharing_passes.1
  have hg : (tableOf sharing).isGlobal 31 := by decide +kernel
  exact ⟨sharing_vars, resolveNames_eq sharing_isResolved, sharing_passes.1, hg, (h.1 31 hg).mp rfl,
    (h.2.2.2 _ 32 sharing_inside rfl).1⟩

end Sample

end SketchCompiler
