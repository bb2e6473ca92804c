import SketchCompiler.Proofs.FoundMembers
import SketchCompiler.Proofs.GlobalSymbols

namespace SketchCompiler

open Resolve SpotPart SymbolTable List Node

variable {t : SymbolTable}

section Names

variable {i : Item} {x : Binder} {id : SymbolId}

lemma Item.symbol?_of_binder (hx : x ∈ i.binders ∨ (item i).binder? = some x) (hid : x.symbol = some id) :
    i.symbol? = some id := by
  rcases hx with hx | hx
  · cases i <;> simp only [binders, mem_cons, mem_map, not_mem_nil, or_false] at hx <;>
      grind [symbol?]
  · cases i <;> cases hx <;> exact hid

lemma Item.symbol?_of_stands (hx : x ∈ i.binders ∨ (item i).binder? = some x)
    (hst : x.Stands t id) : t.kind id = .variant ∨ i.symbol? = some id :=
  hst.2.symm.imp (fun hv => hst.1.trans hv.1) (symbol?_of_binder hx)

end Names

section Units

variable {u t1 t2 : SymbolTable} {path : List String} {s : ScopeId} {q : Program} {items : List Item}

lemma RanFrom.names (h : RanFrom u path s q t t1 t2 items) : t2.Sound ∧ t2.Names s
    (q.items.flatMap Item.binders ++ (ofNodes (q.items.map .item)).flatMap SpotPart.own) := by
  obtain ⟨kind, -, hscope⟩ := h.scope_eq
  have hnil : t.Names s [] := ⟨nofun, fun hn => by rw [hscope] at hn; cases hn⟩
  have hd := h.hoist.adds h.sound h.lt
  have hlt := h.lt.trans_le hd.scopes_le
  have hw := h.walk.adds hd.sound hlt
  rw [Item.flatMap_kept Item.Kept.binders_eq h.kept]
  exact ⟨hw.sound, (hnil.adds hd h.sound h.lt).adds hw hd.sound hlt⟩

lemma RanFrom.item_of_name (h : RanFrom u path s q t t1 t2 items) {x : String × SymbolId}
    (hx : x ∈ (u.scope s).names) : u.kind x.2 = .variant ∨ ∃ i ∈ q.items, i.symbol? = some x.2 := by
  obtain ⟨hsound, hnames⟩ := h.names
  obtain ⟨name, id⟩ := x
  have hlt := h.lt.trans_le (h.hoist.keeps.scopes_le.trans h.walk.keeps.scopes_le)
  rw [h.ends.names_eq (Nat.le_refl s) hlt] at hx
  obtain ⟨y, hy, -, hst⟩ := hnames.origin hx
  have item {i : Item} (hi : i ∈ q.items) (hy : y ∈ i.binders ∨ (item i).binder? = some y) :
      u.kind id = .variant ∨ ∃ i ∈ q.items, i.symbol? = some id := by
    rw [h.ends.later.kind_eq (hsound.named_lt hx)]
    exact (Item.symbol?_of_stands hy hst).imp_right fun hs => ⟨i, hi, hs⟩
  rcases mem_append.mp hy with hy | hy
  · obtain ⟨i, hi, hy⟩ := mem_flatMap.mp hy
    exact item hi (.inl hy)
  · simp only [ofNodes, map_map, flatMap_map, mem_flatMap] at hy
    obtain ⟨i, hi, hy⟩ := hy
    exact item hi (.inr (Option.mem_toList.mp hy))

end Units

lemma Program.item_of_module_member {p q v : Program} {b : List Nat} {l} {aliasName}
    {file} {k} {s} {x : String × SymbolId} (h : p.resolveNames = (q, .ok t))
    (hb : (unit q).at? b = some (.item (.module l aliasName file (some k) v)))
    (hs : (t.get k).members = some s) (hx : x ∈ (t.scope s).names) :
    t.kind x.2 = .variant ∨ ∃ i ∈ v.items, i.symbol? = some x.2 := by
  obtain ⟨s0, hran⟩ := unitRan h
  obtain ⟨s', w, hmem, hran⟩ := hran.of_item_at? hb
  cases hran with
  | mk _ _ hmod =>
    cases hmod hmem hs with
    | mk hr _ _ => exact hr.item_of_name hx

end SketchCompiler
