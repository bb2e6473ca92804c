import Mathlib
import SketchCompiler.Clamping
import SketchCompiler.Proofs.TransformedNodes

namespace SketchCompiler

open List Node

section Transform

variable (f : Transform) (t : SymbolTable)

lemma Expr.loc_transform (e : Expr) : (e.transform f).loc = e.loc := by
  cases e <;> rfl

lemma VarDecl.qualifier_transform (d : VarDecl) : (d.transform f).qualifier = d.qualifier := by
  cases d
  rfl

lemma VarDecl.symbol_transform (d : VarDecl) : (d.transform f).symbol = d.symbol := by
  cases d
  rfl

lemma Expr.instance?_transform (e : Expr) : (e.transform f).instance? = e.instance? := by
  fun_induction Expr.instance? e with
  | case3 l a i ih => exact ih
  | case4 e hn hm hs =>
    cases e with
    | name l r => exact absurd rfl (hn l r)
    | member l object name symbol => exact absurd rfl (hm l object name symbol)
    | subscript l a i => exact absurd rfl (hs l a i)
    | _ => rfl
  | _ => rfl

lemma SymbolTable.forbiddenMember?_transform (object : Expr) (method : String) (symbol : Option SymbolId) :
    t.forbiddenMember? (object.transform f) method symbol = t.forbiddenMember? object method symbol := by
  simp only [forbiddenMember?, forbiddenMethod?, Expr.instance?_transform]

lemma SymbolTable.forbiddenCall?_transform (callee : Expr) :
    t.forbiddenCall? (callee.transform f) = t.forbiddenCall? callee := by
  cases callee with
  | member l object name symbol =>
    cases object with
    | name => rfl
    | _ => exact t.forbiddenMember?_transform f _ name.text symbol
  | _ => rfl

lemma finding_transform (n : Node) : (n.transform f).finding t = n.finding t := by
  cases n with
  | stmt s => cases s <;> rfl
  | expr e =>
    cases e with
    | call l callee args =>
      simp only [transform, Expr.transform, finding, SymbolTable.callFindings, SymbolTable.forbiddenCall?_transform,
        Expr.loc_transform]
    | _ => rfl
  | _ => rfl

/-- The variable that a node stores a value into. -/
def Node.storedInto? (n : Node) : Option SymbolId := n.store?.bind (·.1)

lemma storedInto?_transform (n : Node) : (n.transform f).storedInto? = n.storedInto? := by
  cases n with
  | var d =>
    obtain ⟨_, _, _, initializer, _, symbol⟩ := d
    cases initializer <;> rfl
  | stmt s =>
    cases s with
    | assign l target e => exact symbol?_transform f target
    | _ => rfl
  | _ => rfl

variable {f t} {added : Option SymbolId → Expr → List Node}

section

variable (ha : ∀ symbol e m, m ∈ (expr (f.stored symbol e)).nodes ↔ m ∈ (expr e).nodes ∨ m ∈ added symbol e)
  {p : Program} {x : Finding}

include ha

lemma Program.exists_bodyNodes_transform_iff : (∃ m ∈ (unit (p.transform f)).bodyNodes, x ∈ m.finding t) ↔
      (∃ k ∈ (unit p).bodyNodes, x ∈ k.finding t) ∨ ∃ k ∈ (unit p).bodyNodes, ∃ symbol e,
        k.store? = some (symbol, e) ∧ ∃ m ∈ added symbol (e.transform f), x ∈ m.finding t := by
  have hb (m : Node) : m ∈ (unit (p.transform f)).bodyNodes ↔
      ∃ k ∈ (unit p).bodyNodes, Node.ComesFrom f added m k :=
    mem_bodyNodes_transform (n := .unit p) ha
  constructor
  · rintro ⟨m, hm, hx⟩
    obtain ⟨k, hk, rfl | ⟨symbol, e, hs, hm⟩⟩ := (hb m).mp hm
    · rw [finding_transform] at hx
      exact .inl ⟨k, hk, hx⟩
    · exact .inr ⟨k, hk, symbol, e, hs, m, hm, hx⟩
  · rintro (⟨k, hk, hx⟩ | ⟨k, hk, symbol, e, hs, m, hm, hx⟩)
    · refine ⟨k.transform f, (hb _).mpr ⟨k, hk, .inl rfl⟩, ?_⟩
      rwa [finding_transform]
    · exact ⟨m, (hb m).mpr ⟨k, hk, .inr ⟨symbol, e, hs, hm⟩⟩, hx⟩

lemma Program.exists_outside_transform_iff :
    (∃ d, (unit (p.transform f)).Outside (.var d) ∧ d.qualifier = .reactive ∧ d.symbol.map .volatile = some x) ↔
      (∃ d, (unit p).Outside (.var d) ∧ d.qualifier = .reactive ∧ d.symbol.map .volatile = some x) ∨
      ∃ k, (unit p).Outside k ∧ ∃ symbol e, k.store? = some (symbol, e) ∧
        ∃ m ∈ added symbol (e.transform f), ∃ d, m = .var d ∧ d.qualifier = .reactive ∧
          d.symbol.map .volatile = some x := by
  have ho (m : Node) : (unit (p.transform f)).Outside m ↔
      ∃ k, (unit p).Outside k ∧ Node.ComesFrom f added m k :=
    outside_transform_iff (n := .unit p) ha
  constructor
  · rintro ⟨d, hd, hx⟩
    obtain ⟨k, hk, h | ⟨symbol, e, hs, hm⟩⟩ := (ho _).mp hd
    · cases k with
      | var d' =>
        cases h
        rw [VarDecl.qualifier_transform, VarDecl.symbol_transform] at hx
        exact .inl ⟨d', hk, hx⟩
      | _ => cases h
    · exact .inr ⟨k, hk, symbol, e, hs, _, hm, d, rfl, hx⟩
  · rintro (⟨d, hd, hx⟩ | ⟨k, hk, symbol, e, hs, _, hm, d, rfl, hx⟩)
    · refine ⟨d.transform f, (ho _).mpr ⟨_, hd, .inl rfl⟩, ?_⟩
      rwa [VarDecl.qualifier_transform, VarDecl.symbol_transform]
    · exact ⟨d, (ho _).mpr ⟨k, hk, .inr ⟨symbol, e, hs, hm⟩⟩, hx⟩

lemma Program.mem_findings_transform : x ∈ (p.transform f).findings t ↔ x ∈ p.findings t ∨
    (∃ k ∈ (unit p).bodyNodes, ∃ symbol e, k.store? = some (symbol, e) ∧
      ∃ m ∈ added symbol (e.transform f), x ∈ m.finding t) ∨
    ∃ k, (unit p).Outside k ∧ ∃ symbol e, k.store? = some (symbol, e) ∧
      ∃ m ∈ added symbol (e.transform f), ∃ d, m = .var d ∧ d.qualifier = .reactive ∧
        d.symbol.map .volatile = some x := by
  rw [mem_findings, mem_findings, exists_bodyNodes_transform_iff ha, exists_outside_transform_iff ha, or_or_or_comm]

end

end Transform

namespace Node

def boundsOf (ranges : RangeTable) (symbol : Option SymbolId) : List Expr :=
  match symbol.bind (ranges.lookup ·) with
  | some r => [r.min, r.max]
  | none => []

def bounds (ranges : RangeTable) (n : Node) : List Expr := boundsOf ranges n.storedInto?

/-- The nodes that clamping puts around a stored value. -/
def clamping (ranges : RangeTable) (symbol : Option SymbolId) (e : Expr) : List Node :=
  match symbol.bind (ranges.lookup ·) with
  | some r => expr (.clamp e.loc e r.min r.max) :: ((expr r.min).nodes ++ (expr r.max).nodes)
  | none => []

variable {ranges : RangeTable}

lemma bounds_transform (f : Transform) (n : Node) : (n.transform f).bounds ranges = n.bounds ranges := by
  rw [bounds, storedInto?_transform, bounds]

lemma mem_nodes_clampTo (symbol : Option SymbolId) (e : Expr) (m : Node) :
    m ∈ (expr (e.clampTo ranges symbol)).nodes ↔ m ∈ (expr e).nodes ∨ m ∈ clamping ranges symbol e := by
  unfold Expr.clampTo clamping
  cases symbol.bind (ranges.lookup ·) with
  | none => simp
  | some r =>
    rw [nodes_eq]
    simp only [children, flatMap_cons, flatMap_nil, append_nil, mem_cons, mem_append]
    exact or_left_comm

lemma exists_mem_clamping_iff {P : Node → Prop} (hP : ∀ l e min max, ¬ P (expr (.clamp l e min max)))
    (symbol : Option SymbolId) (e : Expr) :
    (∃ m ∈ clamping ranges symbol e, P m) ↔ ∃ b ∈ boundsOf ranges symbol, ∃ m ∈ (expr b).nodes, P m := by
  unfold clamping boundsOf
  cases symbol.bind (ranges.lookup ·) with
  | none => simp
  | some r => simp [hP, or_and_right, exists_or]

lemma exists_store_clamping_iff {P : Node → Prop} (hP : ∀ l e min max, ¬ P (expr (.clamp l e min max)))
    (f : Transform) (n : Node) :
    (∃ symbol e, n.store? = some (symbol, e) ∧ ∃ m ∈ clamping ranges symbol (e.transform f), P m) ↔
      ∃ b ∈ n.bounds ranges, ∃ m ∈ (expr b).nodes, P m := by
  rw [bounds, storedInto?]
  cases hs : n.store? with
  | none => simp [boundsOf]
  | some x =>
    obtain ⟨symbol, e⟩ := x
    simp [exists_mem_clamping_iff hP]

lemma error_mem_finding {t} {n : Node} {e} : .error e ∈ n.finding t ↔ n.Violation t e := by
  have h : e ∈ (n.finding t).filterMap Finding.error? ↔ n.Violation t e := by
    rw [filterMap_error?_finding, Option.mem_toList, ← violation?_eq_some_iff]
  rw [← h, mem_filterMap]
  constructor
  · exact fun h => ⟨_, h, rfl⟩
  · rintro ⟨f, hf, he⟩
    cases f with
    | error e' =>
      cases he
      exact hf
    | volatile id => cases he

end Node

namespace Program

variable {p q q' : Program} {t : SymbolTable} {ranges : RangeTable} {x : Finding} {volatile : VolatileSet}

lemma mem_findings_insertClamps : x ∈ (p.insertClamps ranges).findings t ↔ x ∈ p.findings t ∨
    (∃ k ∈ (unit p).bodyNodes, ∃ b ∈ k.bounds ranges, ∃ m ∈ (expr b).nodes, x ∈ m.finding t) ∨
    ∃ k, (unit p).Outside k ∧ ∃ b ∈ k.bounds ranges,
      ∃ d ∈ b.vars, d.qualifier = .reactive ∧ d.symbol.map .volatile = some x := by
  rw [insertClamps, mem_findings_transform mem_nodes_clampTo]
  -- Both sums range over all that is added; a clamp by itself neither is found nor declares.
  have hv (b : Expr) : (∃ d ∈ b.vars, d.qualifier = .reactive ∧ d.symbol.map Finding.volatile = some x) ↔
      ∃ m ∈ (expr b).nodes, ∃ d, m = .var d ∧ d.qualifier = .reactive ∧ d.symbol.map .volatile = some x := by
    constructor
    · rintro ⟨d, hd, hx⟩
      exact ⟨_, mem_vars.mp hd, d, rfl, hx⟩
    · rintro ⟨_, hm, d, rfl, hx⟩
      exact ⟨d, mem_vars.mpr hm, hx⟩
  simp only [hv]
  refine or_congr_right (or_congr ?_ ?_)
  · refine exists_congr fun k => and_congr_right fun _ => exists_store_clamping_iff ?_ _ k
    exact fun _ _ _ _ => nofun
  · refine exists_congr fun k => and_congr_right fun _ => exists_store_clamping_iff ?_ _ k
    rintro _ _ _ _ ⟨d, ⟨⟩, -⟩

lemma convertUnits_added (symbol : Option SymbolId) (e : Expr) (m : Node) :
    m ∈ (expr (Transform.stored { literal := Literal.inCommonUnit } symbol e)).nodes ↔
      m ∈ (expr e).nodes ∨ m ∈ (fun _ _ => [] : Option SymbolId → Expr → List Node) symbol e := by
  simp

lemma mem_findings_convertUnits : x ∈ p.convertUnits.findings t ↔ x ∈ p.findings t := by
  rw [convertUnits, mem_findings_transform convertUnits_added]
  simp

lemma eq_insertClamps (hr : q.clampRanges = (q', .ok ranges)) : q' = q.convertUnits.insertClamps ranges := by
  unfold clampRanges at hr
  dsimp only at hr
  split at hr
  · cases hr
    rfl
  · cases hr

lemma mem_findings_clampRanges (hr : q.clampRanges = (q', .ok ranges)) : x ∈ q'.findings t ↔ x ∈ q.findings t ∨
    (∃ k ∈ (unit q).bodyNodes, ∃ b ∈ k.bounds ranges, ∃ m ∈ (expr b).nodes, x ∈ m.finding t) ∨
    ∃ k, (unit q).Outside k ∧ ∃ b ∈ k.bounds ranges,
      ∃ d ∈ b.vars, d.qualifier = .reactive ∧ d.symbol.map .volatile = some x := by
  -- Conversion of units moves no node, and a node receives the same bounds after it.
  have hb (k : Node) : k ∈ (unit q.convertUnits).bodyNodes ↔
      ∃ k' ∈ (unit q).bodyNodes, k'.transform { literal := Literal.inCommonUnit } = k := by
    change k ∈ ((unit q).transform _).bodyNodes ↔ _
    rw [mem_bodyNodes_transform convertUnits_added]
    simp [Node.ComesFrom, eq_comm]
  have ho (k : Node) : (unit q.convertUnits).Outside k ↔
      ∃ k', (unit q).Outside k' ∧ k'.transform { literal := Literal.inCommonUnit } = k := by
    change ((unit q).transform _).Outside k ↔ _
    rw [outside_transform_iff convertUnits_added]
    simp [Node.ComesFrom, eq_comm]
  rw [eq_insertClamps hr, mem_findings_insertClamps, mem_findings_convertUnits]
  simp only [hb, ho, exists_exists_and_eq_and, bounds_transform]

lemma error_mem_findings {e} : .error e ∈ p.findings t ↔ e ∈ p.interruptErrors t := by
  rw [mem_findings, interruptErrors_eq, mem_filterMap]
  simp [error_mem_finding, violation?_eq_some_iff]

lemma interruptErrors_eq_nil_iff : p.interruptErrors t = [] ↔ ∀ e, .error e ∉ p.findings t := by
  simp only [error_mem_findings, eq_nil_iff_forall_not_mem]

/-- What clamping copies passes the check and brings no new variables. Reactive variables in the body of an interrupt do
not count, and elsewhere nothing else does. -/
structure BoundsPass (p : Program) (t : SymbolTable) (volatile : VolatileSet) (ranges : RangeTable) : Prop where
  no_violation : ∀ a n, p.InterruptNodeAt a n → ∀ b ∈ n.bounds ranges, ∀ m ∈ (expr b).nodes, ∀ e, ¬ m.Violation t e
  uses : ∀ a n, p.InterruptNodeAt a n → ∀ b ∈ n.bounds ranges, ∀ e, .expr e ∈ (expr b).nodes →
    ∀ id, e.symbol? = some id → t.kind id = .var → t.isGlobal id → volatile.contains id
  declares : ∀ n, (unit p).Outside n → ∀ b ∈ n.bounds ranges, ∀ d ∈ b.vars, d.qualifier = .reactive →
    ∀ id, d.symbol = some id → volatile.contains id

lemma interruptErrors_clampRanges_iff (hq : q.interruptErrors t = []) (hr : q.clampRanges = (q', .ok ranges)) :
    q'.interruptErrors t = [] ↔ ∀ a n, q.InterruptNodeAt a n → ∀ b ∈ n.bounds ranges, ∀ m ∈ (expr b).nodes,
      ∀ e, ¬ m.Violation t e := by
  rw [interruptErrors_eq_nil_iff] at hq ⊢
  simp only [mem_findings_clampRanges hr, hq, error_mem_finding, Option.map_eq_some_iff, reduceCtorEq, and_false,
    exists_false, or_false, false_or, mem_bodyNodes, InterruptNodeAt]
  grind

lemma volatile_clampRanges_iff (hr : q.clampRanges = (q', .ok ranges)) :
    (∀ id, .volatile id ∈ q'.findings t ↔ .volatile id ∈ q.findings t) ↔
      (∀ a n, q.InterruptNodeAt a n → ∀ b ∈ n.bounds ranges, ∀ e, .expr e ∈ (expr b).nodes →
        ∀ id, e.symbol? = some id → t.kind id = .var → t.isGlobal id → .volatile id ∈ q.findings t) ∧
      ∀ n, (unit q).Outside n → ∀ b ∈ n.bounds ranges, ∀ d ∈ b.vars, d.qualifier = .reactive →
        ∀ id, d.symbol = some id → .volatile id ∈ q.findings t := by
  simp only [mem_findings_clampRanges hr, or_iff_left_iff_imp, volatile_mem_finding, Option.map_eq_some_iff,
    Finding.volatile.injEq, exists_eq_right, mem_bodyNodes, InterruptNodeAt]
  grind

/-- The check of the clamped program gives the volatile variables of the program just if the bounds pass. -/
theorem checkInterrupts_clampRanges_iff (hc : q.checkInterrupts t = .ok volatile)
    (hr : q.clampRanges = (q', .ok ranges)) :
    q'.checkInterrupts t = .ok volatile ↔ q.BoundsPass t volatile ranges := by
  obtain ⟨hq, rfl⟩ := checkInterrupts_eq_ok_iff.mp hc
  have hv (id : SymbolId) : (VolatileSet.ofFindings (q.findings t)).contains id ↔ .volatile id ∈ q.findings t := by
    rw [VolatileSet.contains, contains_iff_mem, VolatileSet.mem_ofFindings]
  rw [checkInterrupts_eq_ok_iff, interruptErrors_clampRanges_iff hq hr, VolatileSet.ofFindings_eq_iff,
    volatile_clampRanges_iff hr]
  simp only [← hv]
  constructor
  · rintro ⟨he, hb, ho⟩
    exact ⟨he, hb, ho⟩
  · rintro ⟨he, hb, ho⟩
    exact ⟨he, hb, ho⟩

end Program

namespace Sample

def limited : Program := unit [
  .var default (mutableVar "int" "limit"),
  .var default { mutableVar "int" "speed" with range := some ⟨use "LOW", use "limit"⟩ },
  interrupt [.assign default (use "speed") (use "HIGH")]]

def limitedRanges : RangeTable := [(30, ⟨.name default ⟨name "LOW", some 23⟩, .name default ⟨name "limit", some 29⟩⟩)]

lemma limited_isResolved : isResolved limited = true := by decide +kernel

lemma limited_passes : limited.resolveNames.1.checkInterrupts (tableOf limited) = .ok ⟨[30]⟩ ∧
    limited.resolveNames.1.clampRanges.2 = .ok limitedRanges ∧
    limited.resolveNames.1.clampRanges.1.checkInterrupts (tableOf limited) = .ok ⟨[29, 30]⟩ := by cbv

lemma limited_clampRanges : limited.resolveNames.1.clampRanges =
    (limited.resolveNames.1.clampRanges.1, .ok limitedRanges) := by
  rw [← limited_passes.2.1]

/-- The interrupt of the clamped program uses the limit, which is not volatile. -/
theorem limited_bounds_not_pass : limited.resolveNames = (limited.resolveNames.1, .ok (tableOf limited)) ∧
    limited.resolveNames.1.checkInterrupts (tableOf limited) = .ok ⟨[30]⟩ ∧
    limited.resolveNames.1.clampRanges = (limited.resolveNames.1.clampRanges.1, .ok limitedRanges) ∧
    limited.resolveNames.1.clampRanges.1.checkInterrupts (tableOf limited) = .ok ⟨[29, 30]⟩ ∧
    ¬ limited.resolveNames.1.BoundsPass (tableOf limited) ⟨[30]⟩ limitedRanges := by
  obtain ⟨hc, -, hc'⟩ := limited_passes
  refine ⟨resolveNames_eq limited_isResolved, hc, limited_clampRanges, hc', fun h => ?_⟩
  have := (Program.checkInterrupts_clampRanges_iff hc limited_clampRanges).mpr h
  rw [hc'] at this
  cases this

end Sample

end SketchCompiler
