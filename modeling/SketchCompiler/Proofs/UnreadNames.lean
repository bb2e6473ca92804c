import Mathlib.Data.List.Induction
import SketchCompiler.Proofs.Hoisting
import SketchCompiler.Proofs.NamesInForce

namespace SketchCompiler

open Resolve List Node

mutual

/-- The nodes that are not read, apart from what is below them. -/
def Item.unread : Item → List Node
  | .config _ entries => entries.map fun f => .expr f.value
  | .classDecl _ d => d.fields.flatMap fun f => ofRange? f.value.range
  | .module _ _ _ _ program => program.unread
  | _ => []

def itemsUnread : List Item → List Node
  | [] => []
  | i :: is => i.unread ++ itemsUnread is

def Program.unread : Program → List Node
  | ⟨_, _, items⟩ => itemsUnread items

end

lemma itemsUnread_eq (items : List Item) : itemsUnread items = items.flatMap Item.unread := by
  induction items with
  | nil => rfl
  | cons i is ih => rw [itemsUnread, ih, flatMap_cons]

lemma Item.unread_resolve (c : Site) (i : Item) (r : Resolution) : (i.resolve c r).1.unread = i.unread := by
  cases i with
  | classDecl l d =>
    refine Resolve.flatMap_mapM ?_ d.fields _
    exact fun _ _ => rfl
  | event l kind body => cases kind <;> rfl
  | _ => rfl

mutual

lemma Item.unread_declare (c : Site) (i : Item) (r : Resolution) : (i.declare c r).1.unread = i.unread := by
  cases i with
  | classDecl l d =>
    refine Resolve.flatMap_mapM ?_ d.fields _
    exact fun _ _ => rfl
  | module l aliasName path symbol program => exact program.unread_resolveUnit _ _
  | _ => rfl

lemma itemsUnread_declare (c : Site) (items : List Item) (r : Resolution) :
    itemsUnread (declareItems c items r).1 = itemsUnread items := by
  cases items with
  | nil => rfl
  | cons i is =>
    have hi := i.unread_declare c r
    have his := itemsUnread_declare c is (i.declare c r).2
    rw [itemsUnread, ← hi, ← his]
    rfl

lemma Program.unread_resolveUnit (c : Site) (p : Program) (r : Resolution) :
    (p.resolveUnit c r).1.unread = p.unread := by
  obtain ⟨_, _, items⟩ := p
  have hd := itemsUnread_declare c items r
  have hr := Resolve.flatMap_mapM (f := Item.resolve c) (fun i r => i.unread_resolve c r) (declareItems c items r).1
    (declareItems c items r).2
  rw [Program.unread, ← hd, itemsUnread_eq, ← hr, ← itemsUnread_eq]
  rfl

end

mutual

lemma Item.mem_nodes_of_unread {i : Item} {m} (h : m ∈ i.unread) : m ∈ (item i).nodes := by
  cases i with
  | config l entries => exact mem_nodes_iff.mpr (.inr ⟨m, h, mem_nodes_self⟩)
  | classDecl l d =>
    obtain ⟨f, hf, hm⟩ := mem_flatMap.mp h
    refine mem_nodes_iff.mpr (.inr ⟨.var f.value, by simp [children]; exact .inl ⟨f, hf, rfl⟩, ?_⟩)
    refine mem_nodes_iff.mpr (.inr ⟨m, mem_append_left _ hm, mem_nodes_self⟩)
  | module l aliasName path symbol program =>
    exact mem_nodes_iff.mpr (.inr ⟨.unit program, mem_singleton_self _, program.mem_nodes_of_unread h⟩)
  | _ => cases h

lemma mem_nodes_of_itemsUnread {items} {m} (h : m ∈ itemsUnread items) : ∃ i ∈ items, m ∈ (item i).nodes := by
  cases items with
  | nil => cases h
  | cons i is =>
    rcases mem_append.mp h with h | h
    · exact ⟨i, mem_cons_self, i.mem_nodes_of_unread h⟩
    · obtain ⟨i', hi', hm⟩ := mem_nodes_of_itemsUnread h
      exact ⟨i', mem_cons_of_mem i hi', hm⟩

lemma Program.mem_nodes_of_unread {p : Program} {m} (h : m ∈ p.unread) : m ∈ (unit p).nodes := by
  cases p
  obtain ⟨i, hi, hm⟩ := mem_nodes_of_itemsUnread h
  exact mem_nodes_iff.mpr (.inr ⟨.item i, mem_map_of_mem hi, hm⟩)

end

lemma Program.unread_of_item {q : Program} {b : List Nat} {i : Item} (h : (unit q).at? b = some (.item i)) :
    i.unread ⊆ q.unread := by
  match b with
  | [] => cases h
  | j :: b =>
    obtain ⟨name, mainMark, items⟩ := q
    obtain ⟨k, hk, h⟩ := Option.bind_eq_some_iff.mp h
    rw [children, getElem?_map] at hk
    obtain ⟨i', hi', rfl⟩ := Option.map_eq_some_iff.mp hk
    have hsub : i'.unread ⊆ Program.unread ⟨name, mainMark, items⟩ := by
      rw [Program.unread, itemsUnread_eq]
      exact fun m hm => mem_flatMap.mpr ⟨i', mem_of_getElem? hi', hm⟩
    match b with
    | [] =>
      cases h
      exact hsub
    | j' :: b =>
      obtain ⟨l, aliasName, path, symbol, q', rfl, rfl, hq⟩ := module_of_at?_item h rfl
      exact List.Subset.trans (Program.unread_of_item hq) hsub

namespace Program

variable {p q : Program} {a b c : List Nat} {n : Node} {r : Except (List (Located NameError)) SymbolTable}

lemma mem_nodes_unread (ha : q.InConfig a ∨ q.InFieldRange a) (hn : (unit q).at? a = some n) :
    n.isInner ∧ ∃ m ∈ q.unread, n ∈ m.nodes := by
  rcases ha with ⟨b, l, entries, i, c, hb, rfl⟩ | ⟨b, l, d, j, f, i, c, hb, hf, hi, rfl⟩
  · rw [at?_append, hb] at hn
    obtain ⟨m, hm, hn⟩ := Option.bind_eq_some_iff.mp
      (show (item (.config l entries)).at? (i :: c) = some n from hn)
    have hm := mem_of_getElem? hm
    have hn := mem_nodes.mpr ⟨c, hn⟩
    exact ⟨isInner_of_mem_nodes (isInner_of_mem_item rfl hm) hn, m, unread_of_item hb hm, hn⟩
  · rw [at?_append, hb] at hn
    obtain ⟨v, hv, hn⟩ := Option.bind_eq_some_iff.mp
      (show (item (.classDecl l d)).at? (j :: i :: c) = some n from hn)
    obtain ⟨m, hm, hm'⟩ := Option.bind_eq_some_iff.mp hn
    have hj : j < (d.fields.map fun f => var f.value).length := by
      simpa using lt_of_getElem? hf
    rw [children, append_assoc, getElem?_append_left hj, getElem?_map, hf] at hv
    cases hv
    have hn := mem_nodes.mpr ⟨c, hm'⟩
    have hinner := isInner_of_mem_children rfl (mem_of_getElem? hm)
    rw [children, getElem?_append_left hi] at hm
    refine ⟨isInner_of_mem_nodes hinner hn, m, unread_of_item hb ?_, hn⟩
    exact mem_flatMap.mpr ⟨f, mem_of_getElem? hf, mem_of_getElem? hm⟩

lemma unread_resolveNames (p : Program) : p.resolveNames.1.unread = p.unread := by
  unfold resolveNames
  generalize SymbolTable.ofBuiltins = builtins
  exact p.unread_resolveUnit _ _

lemma mem_nodes_of_place (h : p.resolveNames = (q, r)) (ha : q.InConfig a ∨ q.InFieldRange a)
    (hn : (unit q).at? a = some n) {k} (hk : k ∈ n.nodes) : k ∈ (unit p).nodes := by
  obtain ⟨-, m, hm, hnm⟩ := mem_nodes_unread ha hn
  have hq := p.unread_resolveNames
  rw [h] at hq
  rw [hq] at hm
  exact mem_nodes_trans (mem_nodes_of_unread hm) (mem_nodes_trans hnm hk)

lemma unnumbered_of_unread (hp : p.Unnumbered) (h : p.resolveNames = (q, r)) (ha : q.InConfig a ∨ q.InFieldRange a)
    (hn : (unit q).at? a = some n) : n.isInner ∧ ∀ k ∈ n.nodes, ∀ symbol ∈ k.numbers, symbol = none :=
  ⟨(mem_nodes_unread ha hn).1, fun k hk => hp k (mem_nodes_of_place h ha hn hk)⟩

lemma InConfig.append (h : q.InConfig a) (c : List Nat) : q.InConfig (a ++ c) := by
  obtain ⟨b, l, entries, i, d, hb, rfl⟩ := h
  exact ⟨b, l, entries, i, d ++ c, hb, by simp⟩

lemma InFieldRange.append (h : q.InFieldRange a) (c : List Nat) : q.InFieldRange (a ++ c) := by
  obtain ⟨b, l, d, j, f, i, e, hb, hf, hi, rfl⟩ := h
  exact ⟨b, l, d, j, f, i, e ++ c, hb, hf, hi, by simp⟩

lemma meets_or_unread (h : (unit q).at? a = some n) :
    (∃ x env, q.Meets a x env ∧ x.isRead ∧ x.toNode = n) ∨ q.InConfig a ∨ q.InFieldRange a := by
  induction a using List.reverseRecOn generalizing n with
  | nil =>
    cases h
    exact .inl ⟨_, _, .unit rfl, rfl, rfl⟩
  | append_singleton a i ih =>
    have h' := h
    rw [at?_concat] at h'
    obtain ⟨m, hm, hc⟩ := Option.bind_eq_some_iff.mp h'
    rcases ih hm with ⟨x, env, hx, hr, rfl⟩ | ha | ha
    · obtain ⟨ks, y, hs, rfl⟩ := Spot.slot_of_child hr hc
      obtain ⟨env', hy⟩ := Spot.met_of_slot a env hs
      cases Spot.below_of_slot hs with
      | entry hf => exact .inr (.inl ⟨a, _, _, i, [], hm, rfl⟩)
      | module => exact .inl ⟨_, _, .unit h, rfl, rfl⟩
      | bound hi =>
        obtain ⟨b, w, env0, j, ks0, hw, hs0, -, rfl⟩ := hx.parent nofun
        cases Spot.below_of_slot hs0 with
        | field hf =>
          exact .inr (.inr ⟨b, _, _, j, _, i, [], hw.at?_eq, hf, lt_of_getElem? hi, by simp⟩)
      | _ => exact .inl ⟨_, env', hx.step hy, rfl, rfl⟩
    · exact .inr (.inl (ha.append [i]))
    · exact .inr (.inr (ha.append [i]))

end Program

end SketchCompiler
