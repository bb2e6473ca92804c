import SketchCompiler.Proofs.ResolvedReferences

namespace SketchCompiler

open Env Node List

lemma Node.unit_of_item_mem {n : Node} {i} (h : item i ∈ n.children) : ∃ u, n = unit u ∧ i ∈ u.items := by
  cases n with
  | unit u =>
    obtain ⟨i', hi, he⟩ := mem_map.mp h
    cases he
    exact ⟨u, rfl, hi⟩
  | item i' =>
    obtain ⟨j, hj⟩ := getElem?_of_mem h
    have hi : (item i').at? [j] = some (item i) := Option.bind_eq_some_iff.mpr ⟨_, hj, rfl⟩
    obtain ⟨_, _, _, _, _, -, -, hq⟩ := module_of_at?_item hi rfl
    cases hq
  | _ => cases isInner_of_mem_children rfl h

lemma Node.parent_of_var {n : Node} {d} (h : var d ∈ n.children) : (∃ l, n = item (.var l d)) ∨
    (∃ l, n = stmt (.var l d)) ∨ ∃ l k, n = item (.classDecl l k) := by
  cases n with
  | unit u => simp [children] at h
  | item i =>
    cases i with
    | var l d' =>
      cases mem_singleton.mp h
      exact .inl ⟨l, rfl⟩
    | classDecl l k => exact .inr (.inr ⟨l, k, rfl⟩)
    | _ =>
      simp only [children, mem_ofBlock, mem_ofExpr?, mem_append, mem_cons, mem_map, not_mem_nil, or_false] at h <;>
      grind
  | var d =>
    simp only [children, mem_ofRange?, mem_ofExpr?, mem_append] at h
    grind
  | stmt s =>
    cases s with
    | var l d' =>
      cases mem_singleton.mp h
      exact .inr (.inl ⟨l, rfl⟩)
    | _ =>
      simp only [children, ofBranch, ofArm, mem_ofBlock, mem_ofBlock?, mem_ofExpr?, mem_ofStmt?, mem_ofPattern,
        mem_append, mem_cons, mem_flatMap, not_mem_nil, or_false] at h <;>
      grind
  | expr e =>
    cases e <;> simp only [children, mem_ofBlock, mem_cons, mem_map, not_mem_nil, or_false] at h
    all_goals grind

lemma Spot.ne_var_of_slot {x y : Spot} {i : Nat} {ks : List Nat} (h : x.slots[i]? = some (ks, y)) (d : VarDecl) :
    y ≠ node (var d) := by
  rintro rfl
  have hm : (ks, node (var d)) ∈ x.slots := mem_of_getElem? h
  rcases parent_of_var (mem_of_getElem? (child_of_slot h).1) with ⟨l, hx⟩ | ⟨l, hx⟩ | ⟨l, k, hx⟩ <;> cases x <;>
    cases hx <;> simp [slots, before, after, SpotPart.partsSlots, SpotPart.slots] at hm

lemma Declared.symbol_ne_none {F} {t} {b} {xs}
    {z : Binder} (h : Declared F t b xs) (hz : z ∈ xs) (hk : z.kind ≠ .variant) : z.symbol ≠ none := by
  obtain ⟨s, id, -, -, -, -, hs | ⟨hv, -⟩⟩ := h.named hz
  · simp [hs]
  · exact absurd hv hk

namespace Program

variable {p q : Program} {F : List (ScopeId × Block)} {t : SymbolTable} {c : List Nat} {x : Spot} {env : Env}
  {z : Binder} {symbol : Option SymbolId}

namespace Meets

section

variable (h : q.Meets c x env) (hq : (Node.unit q).UnitsResolved F t [])

include h hq

lemma header_numbered {k} (hx : x.isRead) (hz : z ∈ x.toNode.header k) (hk : z.kind ≠ .variant) : z.symbol ≠ none :=
  ((h.resolvedHere hq).heads (Spot.mem_heads_of_header hx (ne_nil_of_mem hz))).symbol_ne_none hz hk

lemma own_numbered (hz : z ∈ x.own) (hk : z.kind ≠ .variant) : z.symbol ≠ none := by
  obtain ⟨e, -, hd, -⟩ := (h.resolvedHere hq).own (ne_nil_of_mem hz)
  exact hd.symbol_ne_none hz hk

lemma params_numbered {ps : List Param} {k : Nat}
    (hx : x.isRead) (hk : x.toNode.header k = ps.map Param.binder) (hs : symbol ∈ ps.map (·.symbol)) :
    symbol ≠ none := by
  obtain ⟨p, hp, rfl⟩ := mem_map.mp hs
  exact h.header_numbered hq hx (hk ▸ mem_map_of_mem hp : p.binder ∈ x.toNode.header k) nofun

end

lemma item_numbered {i : Item} (h : q.Meets c (.node (item i)) env) (hq : (Node.unit q).UnitsResolved F t []) :
    i.MembersNumbered ∧ ∀ z ∈ i.binders, z.kind ≠ .variant → z.symbol ≠ none := by
  obtain ⟨c0, x, env0, j, ks, hx, hs, -, -⟩ := h.parent nofun
  obtain ⟨u, hu, hi⟩ := unit_of_item_mem (mem_of_getElem? (Spot.child_of_slot hs).1)
  have hc0 := hx.at?_eq
  rw [hu] at hc0
  refine ⟨(hq _ _ hc0).members i hi, fun z hz hk => hx.header_numbered hq (Spot.isRead_of_slot hs) (k := 0) ?_ hk⟩
  rw [hu]
  exact mem_flatMap.mpr ⟨i, hi, hz⟩

lemma class_numbered {l} {d} (h : q.Meets c (.node (item (.classDecl l d))) env)
    (hq : (Node.unit q).UnitsResolved F t []) (hs : symbol ∈ (item (.classDecl l d)).numbers) : symbol ≠ none := by
  obtain ⟨⟨-, hmethods⟩, hb⟩ := h.item_numbered hq
  simp only [numbers, cons_append, mem_cons, mem_append, mem_flatMap] at hs
  rcases hs with rfl | hs | ⟨m, hm, rfl | hs⟩
  · exact hb _ (mem_singleton_self _) (by simp)
  · exact h.params_numbered hq rfl (k := 0) rfl hs
  · exact hmethods m hm
  · obtain ⟨k, hk⟩ := getElem?_of_mem hm
    refine h.params_numbered hq rfl (k := k + 1) ?_ hs
    simp [header, hk]

lemma numbered (h : q.Meets c x env) (hq : (Node.unit q).UnitsResolved F t []) (hx : x.isRead)
    (hs : symbol ∈ x.toNode.numbers) : symbol ≠ none := by
  -- A use of a name has been looked up.
  have used {n : Node} (hn : x = .node n) (hs : symbol ∈ n.reference?.toList.map (·.symbol)) : symbol ≠ none := by
    obtain ⟨r, hr, rfl⟩ := mem_map.mp hs
    obtain ⟨s, v, -, -, -, hreads⟩ := (h.resolvedHere hq).reads
    obtain ⟨id, hid, -⟩ := hreads r (hn ▸ Option.mem_toList.mp hr)
    simp [hid]
  cases x with
  | node n =>
    cases n with
    | item i =>
      obtain ⟨-, hb⟩ := h.item_numbered hq
      cases i with
      | function l d =>
        rcases mem_cons.mp hs with rfl | hs
        · exact hb _ (mem_singleton_self _) nofun
        · exact h.params_numbered hq rfl (k := 0) rfl hs
      | classDecl l d => exact h.class_numbered hq hs
      | aliasDecl l name e symbol =>
        obtain rfl := mem_singleton.mp hs
        exact h.own_numbered hq (mem_singleton_self _) nofun
      | enumDecl | structDecl | signal | task | module =>
        obtain rfl := mem_singleton.mp hs
        exact hb _ mem_cons_self nofun
      | _ => exact used rfl hs
    | var d =>
      obtain ⟨_, _, _, _, _, _, hslot, -, -⟩ := h.parent nofun
      exact absurd rfl (Spot.ne_var_of_slot hslot d)
    | _ => exact used rfl hs
  | declared d =>
    obtain rfl := mem_singleton.mp hs
    refine h.own_numbered hq (mem_singleton_self d.binder) ?_
    rw [VarDecl.binder]
    split <;> nofun
  | field d =>
    obtain rfl := mem_singleton.mp hs
    obtain ⟨_, _, _, _, _, hclass, hslot, -, -⟩ := h.parent nofun
    cases Spot.below_of_slot hslot with
    | field hf => exact (hclass.item_numbered hq).1.1 _ (mem_of_getElem? hf)
  | guarded l e handler z => cases hs
  | unread n => cases hx

end Meets

lemma unread_of_unnumbered {a : List Nat} {n : Node} (h : p.resolveNames = (q, .ok t))
    (hn : (Node.unit q).at? a = some n) (hs : none ∈ n.numbers) : q.InConfig a ∨ q.InFieldRange a := by
  obtain ⟨F, -, -, hq⟩ := unitsResolved h
  rcases meets_or_unread hn with ⟨x, env, hx, hr, rfl⟩ | hu
  · exact absurd rfl (hx.numbered hq hr hs)
  · exact hu

/-- In a resolved program exactly the names in settings and in the ranges of fields have no numbers. -/
theorem resolveNames_unnumbered_iff {a : List Nat} {n : Node} (hp : p.Unnumbered) (h : p.resolveNames = (q, .ok t))
    (hn : (Node.unit q).at? a = some n) (hs : symbol ∈ n.numbers) :
    symbol = none ↔ q.InConfig a ∨ q.InFieldRange a := by
  constructor
  · rintro rfl
    exact unread_of_unnumbered h hn hs
  · intro hu
    exact (unnumbered_of_unread hp h hu hn).2 n mem_nodes_self symbol hs

end Program

namespace Sample

def ranged : Program := unit [
  .classDecl default
    { name := name "Gauge"
      fields := [⟨{ mutableVar "int" "level" with range := some ⟨use "LOW", use "ghost"⟩ }, default⟩]
      constructor := none
      methods := [] },
  .var default { mutableVar "int" "speed" with range := some ⟨use "LOW", use "HIGH"⟩ }]

/-- The program is resolved, though `ghost` has no number; the bound of the variable has one. -/
theorem ranged_unnumbered_iff : ranged.Unnumbered ∧ isResolved ranged = true ∧
    (∃ r, ranged.resolveNames.1.UsesAt [0, 0, 1] r ∧ r.name.text = "ghost" ∧ r.symbol = none) ∧
    (ranged.resolveNames.1.InConfig [0, 0, 1] ∨ ranged.resolveNames.1.InFieldRange [0, 0, 1]) ∧
    ¬(ranged.resolveNames.1.InConfig [1, 0, 1] ∨ ranged.resolveNames.1.InFieldRange [1, 0, 1]) := by
  have hp : ranged.Unnumbered := by
    simp [Program.Unnumbered, nodes_eq, children, numbers, ranged, unit, mutableVar, reference?, use, ofExpr?, ofRange?,
      ofConstructor?]
  have hr : isResolved ranged = true := by decide +kernel
  have unnumbered_iff {a : List Nat} {r : Reference} (hr' : ranged.resolveNames.1.UsesAt a r) : r.symbol = none ↔
      ranged.resolveNames.1.InConfig a ∨ ranged.resolveNames.1.InFieldRange a := by
    obtain ⟨n, hn, hr'⟩ := hr'
    exact Program.resolveNames_unnumbered_iff hp (resolveNames_eq hr) hn (symbol_mem_numbers hr')
  obtain ⟨r, hghost, htext, hnone⟩ := exists_usesAt ranged.resolveNames.1 [0, 0, 1] "ghost" none
    (by decide +kernel)
  obtain ⟨r', hhigh, -, hsome⟩ := exists_usesAt ranged.resolveNames.1 [1, 0, 1] "HIGH" (some 22)
    (by decide +kernel)
  refine ⟨hp, hr, ⟨r, hghost, htext, hnone⟩, (unnumbered_iff hghost).mp hnone, fun hu => ?_⟩
  cases hsome.symm.trans ((unnumbered_iff hhigh).mpr hu)

end Sample

end SketchCompiler
