import SketchCompiler.Proofs.TableSteps

namespace SketchCompiler

open Resolve SpotPart SymbolTable List Node

variable {t u : SymbolTable} {id : SymbolId} {t1 : SymbolTable} {xs : List Binder} {i : Item} {s : ScopeId}
  {q : Program}

def Item.symbol? : Item → Option SymbolId
  | .var _ d => d.symbol
  | .function _ d => d.symbol
  | .classDecl _ d => d.symbol
  | .enumDecl _ d => d.symbol
  | .structDecl _ d => d.symbol
  | .task _ d => d.symbol
  | .aliasDecl _ _ _ symbol | .signal _ _ symbol | .module _ _ _ symbol _ => symbol
  | _ => none

/-- The symbol is that of the item, or of a variant, which stands beside its enumeration. -/
inductive Item.Introduces (t : SymbolTable) (id : SymbolId) : Item → Prop
  | own {i : Item} (h : i.symbol? = some id) : Introduces t id i
  | variant {l d e v} (hd : d.symbol = some e) (he : t.kind e = .enumType) (hv : v ∈ d.variants)
      (hk : t.kind id = .variant) (hn : (t.get id).name = v.text) (hs : (t.get id).scope = (t.get e).scope) :
      Introduces t id (.enumDecl l d)

/-- A node below `n`, or `n` itself, is an item that introduces the symbol. -/
def Node.Introduces (t : SymbolTable) (id : SymbolId) (n : Node) : Prop :=
  ∃ a i, n.at? a = some (.item i) ∧ i.Introduces t id

namespace SymbolTable

variable {P Q : SymbolId → Prop} {v : SymbolTable}

/-- The symbols that come from `t` to `u` have scopes, and those at the top of a unit fulfil `P`. -/
structure Brings (P : SymbolId → Prop) (t u : SymbolTable) : Prop extends t.Extends u where
  scope_lt {id : SymbolId} : t.symbols.size ≤ id → id < u.symbols.size → (u.get id).scope < u.scopes.size
  global {id : SymbolId} : t.symbols.size ≤ id → id < u.symbols.size → u.isGlobal id → P id

lemma Extends.isGlobal_eq (h : t.Extends u) (hi : id < t.symbols.size) (hs : (t.get id).scope < t.scopes.size) :
    u.isGlobal id = t.isGlobal id := by
  rw [SymbolTable.isGlobal_eq, SymbolTable.isGlobal_eq, h.scope_eq hi, h.isTop_eq hs]

lemma Extends.name_eq (h : t.Extends u) (hi : id < t.symbols.size) : (u.get id).name = (t.get id).name := by
  rw [h.get_eq hi]

lemma Brings.of_size (h : t.Extends u) (hu : u.symbols.size ≤ t.symbols.size) : t.Brings P u where
  toExtends := h
  scope_lt hi hlt := absurd (hlt.trans_le hu) (not_lt.mpr hi)
  global hi hlt := absurd (hlt.trans_le hu) (not_lt.mpr hi)

lemma Brings.refl (t : SymbolTable) : t.Brings P t := .of_size (.refl t) le_rfl

lemma Brings.mono (h : t.Brings P u) (hP : ∀ id, id < u.symbols.size → P id → Q id) : t.Brings Q u where
  toExtends := h.toExtends
  scope_lt := h.scope_lt
  global hi hlt hg := hP _ hlt (h.global hi hlt hg)

lemma Brings.trans (h : t.Brings P u) (h' : u.Brings P v) : t.Brings P v where
  toExtends := h.toExtends.trans h'.toExtends
  scope_lt {id} hi hlt := by
    rcases Nat.lt_or_ge id u.symbols.size with hu | hu
    · rw [h'.scope_eq hu]
      exact (h.scope_lt hi hu).trans_le h'.scopes_le
    · exact h'.scope_lt hu hlt
  global {id} hi hlt hg := by
    rcases Nat.lt_or_ge id u.symbols.size with hu | hu
    · rw [h'.isGlobal_eq hu (h.scope_lt hi hu)] at hg
      exact h.global hi hu hg
    · exact h'.global hu hlt hg

lemma brings_push (t : SymbolTable) (x : Scope) : t.Brings P { t with scopes := t.scopes.push x } :=
  .of_size (t.extends_push x) le_rfl

lemma brings_setMembers (t : SymbolTable) (id : SymbolId) (m : ScopeId) : t.Brings P (t.setMembers id m) :=
  .of_size (t.extends_setMembers id m) (by simp [setMembers])

lemma brings_declare {x : Symbol} (hd : t.declare x = .ok (u, id)) (hs : x.scope < t.scopes.size)
    (hP : t.isTop x.scope → P id) : t.Brings P u := by
  obtain ⟨he, rfl, hsize, hget⟩ := extends_declare hd
  have hnew {i : SymbolId} (hi : t.symbols.size ≤ i) (hlt : i < u.symbols.size) : i = t.symbols.size :=
    Nat.le_antisymm (Nat.lt_succ_iff.mp (Nat.lt_of_lt_of_eq hlt hsize)) hi
  refine ⟨he, fun hi hlt => ?_, fun hi hlt hg => ?_⟩
  · rw [hnew hi hlt, hget]
    exact hs.trans_le he.scopes_le
  · rw [hnew hi hlt] at hg ⊢
    rw [isGlobal_eq, hget, he.isTop_eq hs] at hg
    exact hP hg

end SymbolTable

section Walks

variable {s : ScopeId}

lemma Binds.brings {xs} (h : Binds s t xs u) (hs : s < t.scopes.size) :
    t.Brings (fun id => t.isTop s ∧ ∃ x ∈ xs, x.symbol = some id) u := by
  induction h with
  | nil => exact .refl _
  | @cons t0 t1 u x xs id type hd hx _ ih =>
    have he := (extends_declare hd).1
    have htail := ih (hs.trans_le he.scopes_le)
    rw [he.isTop_eq hs] at htail
    refine (brings_declare hd hs fun htop => ⟨htop, x, mem_cons_self, hx⟩).trans (htail.mono ?_)
    rintro i - ⟨htop, y, hy, hi⟩
    exact ⟨htop, y, mem_cons_of_mem x hy, hi⟩

lemma Walk.brings {o} {ps : List SpotPart} (h : Walk o s t ps u) (hs : s < t.scopes.size) (hp : ∀ p ∈ ps, p.Inner) :
    t.Brings (fun id => t.isTop s ∧ ∃ x ∈ ps.flatMap own, x.symbol = some id) u := by
  induction h with
  | nil => exact .refl _
  | @child o s t t1 t2 t3 u x ps _ _ hd _ _ ih1 ih2 ih3 =>
    obtain ⟨hx, hps⟩ := forall_mem_cons.mp hp
    have own {v : SymbolTable} {xs : List Binder} (hsub : xs ⊆ x.own ++ ps.flatMap own) (he : t.Extends v)
        {w : SymbolTable} (h : v.Brings (fun id => v.isTop s ∧ ∃ x ∈ xs, x.symbol = some id) w) :
        v.Brings (fun id => t.isTop s ∧ ∃ y ∈ (SpotPart.child x :: ps).flatMap own, y.symbol = some id) w := by
      refine h.mono ?_
      rintro i - ⟨htop, y, hy, hi⟩
      exact ⟨he.isTop_eq hs ▸ htop, y, hsub hy, hi⟩
    have hown := x.own_eq
    have h1 := own (by grind) (.refl t) (ih1 hs (Spot.inner_before (inner_child.mp hx)))
    have h2 := h1.trans (own (by grind) h1.toExtends (hd.brings (hs.trans_le h1.scopes_le)))
    have h3 := h2.trans (own (by grind) h2.toExtends (ih2 (hs.trans_le h2.scopes_le) x.inner_after))
    exact h3.trans (own (by grind) h3.toExtends (ih3 (hs.trans_le h3.scopes_le) hps))
  | @block o s t t1 t2 u number kind header parts ps hd _ _ ih1 ih2 =>
    obtain ⟨hblock, hps⟩ := forall_mem_cons.mp hp
    obtain ⟨hk, hparts⟩ := inner_block.mp hblock
    have hlt : t.scopes.size < (t.pushScope s kind).1.scopes.size := by simp [pushScope]
    have htop : (t.pushScope s kind).1.isTop t.scopes.size = false := by
      rw [isTop, pushScope, scope_push_size]
      cases kind <;> first | rfl | cases hk
    -- Nothing in the block stands at the top of a unit.
    have h1 := (hd.brings hlt).mono (Q := fun _ => False) fun i _ h => by simp [htop] at h
    have h2 := (ih1 (hlt.trans_le h1.scopes_le) hparts).mono (Q := fun _ => False) fun i _ h => by
      simp [h1.isTop_eq hlt, htop] at h
    have h3 := ((t.brings_push _).trans h1).trans h2
    have h4 := ih2 (hs.trans_le h3.scopes_le) hps
    rw [h3.isTop_eq hs] at h4
    exact (h3.mono fun _ _ => False.elim).trans h4

end Walks

/-- The symbol is that of a binder among `xs`, or of a variant, which stands beside one of them. -/
def Introduced (t : SymbolTable) (id : SymbolId) (xs : List Binder) : Prop :=
  (∃ x ∈ xs, x.symbol = some id) ∨ t.kind id = .variant ∧
    (∃ x ∈ xs, x.kind = .variant ∧ (t.get id).name = x.name.text) ∧
    ∃ y ∈ xs, ∃ e, y.symbol = some e ∧ t.kind e = .enumType ∧ (t.get id).scope = (t.get e).scope

lemma Introduced.mono (h : Introduced t id xs) (hu : t.Extends u) (hi : id < t.symbols.size) : Introduced u id xs := by
  refine h.imp_right ?_
  rintro ⟨hk, ⟨x, hx, hxk, hn⟩, y, hy, e, hsym, he, hs⟩
  have hlt : e < t.symbols.size := lt_of_isOuter (by rw [he]; rfl)
  refine ⟨(hu.kind_eq hi).trans hk, ⟨x, hx, hxk, (hu.name_eq hi).trans hn⟩, y, hy, e, hsym, ?_, ?_⟩
  · rw [hu.kind_eq hlt, he]
  · rw [hu.scope_eq hi, hu.scope_eq hlt, hs]

lemma Item.introduces_of_introduced (h : Introduced t id i.binders) : i.Introduces t id := by
  -- All items but enumerations have at most the binder with their own symbol.
  have own (hi : ∀ x ∈ i.binders, x.kind ≠ .variant ∧ x.symbol = i.symbol?) : i.Introduces t id := by
    rcases h with ⟨x, hx, hid⟩ | ⟨-, ⟨x, hx, hxk, -⟩, -⟩
    · exact .own ((hi x hx).2 ▸ hid)
    · exact absurd hxk (hi x hx).1
  cases i with
  | enumDecl l d =>
    rcases h with ⟨x, hx, hid⟩ | ⟨hk, ⟨x, hx, hxk, hn⟩, y, hy, e, hsym, he, hs⟩
    · rcases mem_cons.mp hx with rfl | hx
      · exact .own hid
      · obtain ⟨v, -, rfl⟩ := mem_map.mp hx
        cases hid
    · rcases mem_cons.mp hx with rfl | hx
      · cases hxk
      obtain ⟨v, hv, rfl⟩ := mem_map.mp hx
      rcases mem_cons.mp hy with rfl | hy
      · exact .variant hsym he hv hk hn hs
      · obtain ⟨w, -, rfl⟩ := mem_map.mp hy
        cases hsym
  | _ => exact own (by simp [binders, symbol?])

/-- The symbol is that of a variant, which is named like one of the binders and stands in the scope `s`. -/
structure VariantIn (s : ScopeId) (xs : List Binder) (t : SymbolTable) (id : SymbolId) : Prop where
  kind : t.kind id = .variant
  name : ∃ x ∈ xs, x.kind = .variant ∧ (t.get id).name = x.name.text
  scope : (t.get id).scope = s

lemma VariantIn.mono (h : VariantIn s xs t id) (hu : t.Extends u) (hi : id < t.symbols.size) : VariantIn s xs u id :=
  ⟨(hu.kind_eq hi).trans h.kind, by rw [hu.name_eq hi]; exact h.name, (hu.scope_eq hi).trans h.scope⟩

lemma Declares.brings {m} {xs : List (Bool × Binder)} (h : Declares s m t xs u) (hs : s < t.scopes.size)
    (hm : m < t.scopes.size) (htop : t.isTop m = false) (hx : ∀ x, (true, x) ∈ xs → x.kind = .variant) :
    t.Brings (VariantIn s ((xs.filter (·.1)).map (·.2)) u) u := by
  induction h with
  | nil => exact .refl _
  | @cons t t1 u beside x xs id type hd _ h ih =>
    obtain ⟨he, -, hsize, hget⟩ := extends_declare hd
    have hrest := ih (hs.trans_le he.scopes_le) (hm.trans_le he.scopes_le)
      (by rw [he.isTop_eq hm, htop]) fun y hy => hx y (mem_cons_of_mem _ hy)
    cases beside with
    | false => exact (brings_declare hd hm fun h => by simp [htop] at h).trans hrest
    | true =>
      have hk := hx x mem_cons_self
      have hv : VariantIn s ((((true, x) :: xs).filter (·.1)).map (·.2)) t1 id :=
        ⟨by rw [kind, hget]; exact hk, ⟨x, mem_cons_self, hk, by rw [hget]⟩, by rw [hget]; rfl⟩
      refine (brings_declare hd hs fun _ => hv.mono hrest.toExtends (hsize ▸ Nat.lt_succ_self _)).trans
        (hrest.mono fun i _ hi => ?_)
      obtain ⟨y, hy, hname⟩ := hi.name
      exact ⟨hi.kind, ⟨y, mem_cons_of_mem _ hy, hname⟩, hi.scope⟩

lemma brings_type {t2 : SymbolTable} {x : Binder} (hi : i.type? = some x) (hx : x.symbol = some id)
    (hd : t.declare { name := x.name.text, kind := x.kind, scope := s } = .ok (t1, id))
    (h : Declares s t1.scopes.size (t1.pushScope s .members).1 i.members t2) (hs : s < t.scopes.size) :
    t.Brings (fun k => Introduced (t2.setMembers id t1.scopes.size) k i.binders) (t2.setMembers id t1.scopes.size) := by
  obtain ⟨he, -, hsize, hget⟩ := extends_declare hd
  have hs2 : s < (t1.pushScope s .members).1.scopes.size := by
    rw [size_pushScope]
    exact Nat.lt_succ_of_lt (hs.trans_le he.scopes_le)
  have htop : (t1.pushScope s .members).1.isTop t1.scopes.size = false := by
    rw [isTop, pushScope, scope_push_size]
    rfl
  have h3 := h.brings hs2 (by simp) htop fun y hy => (Item.variant_of_beside hy).1
  have hlast := t2.extends_setMembers id t1.scopes.size
  have hall := (t1.extends_push _).trans (h3.toExtends.trans hlast)
  have hid : id < t1.symbols.size := hsize ▸ (extends_declare hd).2.1 ▸ Nat.lt_succ_self _
  rw [Item.binders_of_type hi]
  refine ((brings_declare hd hs fun _ => .inl ⟨x, mem_cons_self, hx⟩).trans (t1.brings_push _)).trans
    (.trans (h3.mono fun k hk hv => ?_) (t2.brings_setMembers id _))
  have hv := hv.mono hlast hk
  obtain ⟨y, hy, hyk, hn⟩ := hv.name
  refine .inr ⟨hv.kind, ⟨y, mem_cons_of_mem _ hy, hyk, hn⟩, x, mem_cons_self, id, hx, ?_, ?_⟩
  · rw [hall.kind_eq hid, kind, hget]
    cases i with
    | enumDecl l d => cases hi; rfl
    | classDecl | structDecl => simp [Item.members] at hy
    | _ => cases hi
  · rw [hv.scope, hall.scope_eq hid, hget]

lemma Item.Introduces.mono (h : i.Introduces t id) (hu : t.Extends u) (hi : id < t.symbols.size) :
    i.Introduces u id := by
  cases h with
  | own h => exact .own h
  | @variant l d e v hd he hv hk hn hs =>
    have hlt : e < t.symbols.size := lt_of_isOuter (by rw [he]; rfl)
    refine .variant hd ?_ hv ((hu.kind_eq hi).trans hk) ((hu.name_eq hi).trans hn) ?_
    · rw [hu.kind_eq hlt, he]
    · rw [hu.scope_eq hi, hu.scope_eq hlt, hs]

lemma Node.Introduces.mono {n : Node} (h : n.Introduces t id) (hu : t.Extends u)
    (hi : id < t.symbols.size) : n.Introduces u id := by
  obtain ⟨a, i, ha, h⟩ := h
  exact ⟨a, i, ha, h.mono hu hi⟩

/-- The names of the item that may be used before its text, or the unit below it, introduce the symbol. -/
def Item.Hoists (t : SymbolTable) (id : SymbolId) (i : Item) : Prop :=
  Introduced t id i.binders ∨
    ∃ l aliasName path symbol p, i = .module l aliasName path symbol p ∧ (unit p).Introduces t id

lemma Item.Hoists.mono {i : Item} (h : i.Hoists t id) (hu : t.Extends u)
    (hi : id < t.symbols.size) : i.Hoists u id := by
  rcases h with h | ⟨l, aliasName, path, symbol, p, rfl, h⟩
  · exact .inl (h.mono hu hi)
  · exact .inr ⟨l, aliasName, path, symbol, p, rfl, h.mono hu hi⟩

lemma Item.Hoists.introduces (h : i.Hoists t id) : (item i).Introduces t id := by
  rcases h with h | ⟨l, aliasName, path, symbol, p, rfl, a, j, ha, hj⟩
  · exact ⟨[], i, rfl, introduces_of_introduced h⟩
  · exact ⟨0 :: a, j, ha, hj⟩

lemma Item.Hoists.kept {i' : Item} (h : i.Hoists t id) (hk : i.Kept i') : i'.Hoists t id := by
  rcases h with h | ⟨l, aliasName, path, symbol, p, hi, h⟩
  · exact .inl (hk.binders_eq ▸ h)
  · exact .inr ⟨l, aliasName, path, symbol, p, hk.module_iff.mpr hi, h⟩

lemma brings_unit {items} (h : t.Brings (fun id => ∃ i ∈ items, i.Hoists t1 id) t1)
    (hw : Walk none s t1 (ofNodes (q.items.map .item)) u) (hk : Forall₂ Item.Kept items q.items)
    (hs : s < t1.scopes.size) : t.Brings (fun id => (unit q).Introduces u id) u := by
  have below {i : Item} {id : SymbolId} (hi : i ∈ q.items) (h : (item i).Introduces u id) :
      (unit q).Introduces u id := by
    obtain ⟨j, hj⟩ := getElem?_of_mem hi
    obtain ⟨a, x, ha, hx⟩ := h
    exact ⟨j :: a, x, by simp [at?, children, hj, ha], hx⟩
  have hw := hw.brings hs (by simp [ofNodes])
  refine (h.mono ?_).trans (hw.mono ?_)
  · rintro id hid ⟨i, hi, h⟩
    obtain ⟨i', hi', hk⟩ := exists_mem_of_forall₂ hk hi
    exact below hi' ((h.kept hk).mono hw.toExtends hid).introduces
  · rintro id - ⟨-, x, hx, hid⟩
    simp only [ofNodes, map_map, flatMap_map, mem_flatMap] at hx
    obtain ⟨i, hi, hx⟩ := hx
    refine below hi ⟨[], i, rfl, .own ?_⟩
    have hb : (item i).binder? = some x := Option.mem_toList.mp hx
    cases i <;> cases hb <;> exact hid

lemma Hoist.brings {is} (h : Hoist s t is u) (hs : s < t.scopes.size) :
    t.Brings (fun id => ∃ i ∈ is, i.Hoists u id) u := by
  have cons {t t1 u : SymbolTable} {i : Item} {is : List Item} (hi : t.Brings (fun id => i.Hoists t1 id) t1)
      (his : t1.Brings (fun id => ∃ i ∈ is, i.Hoists u id) u) :
      t.Brings (fun id => ∃ j ∈ i :: is, j.Hoists u id) u := by
    refine (hi.mono fun id hid h => ?_).trans (his.mono fun id _ => ?_)
    · exact ⟨i, mem_cons_self, h.mono his.toExtends hid⟩
    · rintro ⟨j, hj, h⟩
      exact ⟨j, mem_cons_of_mem _ hj, h⟩
  induction h with
  | nil => exact .refl _
  | plain _ _ ih => exact cons (.refl _) (ih hs)
  | named hi _ hx hd _ ih =>
    refine cons (brings_declare hd hs fun _ => .inl (.inl ?_))
      (ih (hs.trans_le (extends_declare hd).1.scopes_le))
    exact ⟨_, hi ▸ mem_singleton_self _, hx⟩
  | type hi _ hx hd hmembers _ ih =>
    have h1 := brings_type hi hx hd hmembers hs
    exact cons (h1.mono fun _ _ => .inl) (ih (hs.trans_le h1.scopes_le))
  | @module s t t1 t2 t3 u l aliasName path name mark id items items' is hhoist hwalk hkept hd _ ih ih' =>
    have hlt := lt_pushModule t ((t.scope s).path ++ [aliasName.text])
    have hin := ih hlt
    have hunit := brings_unit (q := ⟨name, mark, items'⟩) hin hwalk hkept (hlt.trans_le hin.scopes_le)
    have he := (extends_declare hd).1.trans (t3.extends_setMembers id t.scopes.size)
    have hs2 := hs.trans_le (Nat.le_trans (t.extends_push _).scopes_le hunit.scopes_le)
    refine cons ?_ (ih' (hs2.trans_le he.scopes_le))
    refine ((t.brings_push _).trans (hunit.mono fun i hi h => ?_)).trans
      ((brings_declare hd hs2 fun _ => ?_).trans (t3.brings_setMembers id _))
    · exact .inr ⟨l, aliasName, path, some id, _, rfl, h.mono he hi⟩
    · exact .inl (.inl ⟨⟨aliasName, .moduleAlias, some id⟩, mem_singleton_self _, rfl⟩)

namespace SymbolTable

/-- All symbols are in the outermost scope, which is that of the names that every program knows. -/
structure Outermost (t : SymbolTable) : Prop where
  root_lt : root < t.scopes.size
  kind_root : (t.scope root).kind = .builtins
  scope_eq (id : SymbolId) : (t.get id).scope = root

lemma get_of_size_le (h : t.symbols.size ≤ id) : t.get id = default := by
  simp [get, h]

lemma Outermost.declare {name} (h : t.Outermost)
    (hd : t.declare { name, scope := root } = .ok (u, id)) : u.Outermost := by
  obtain ⟨he, rfl, hsize, hget⟩ := extends_declare hd
  refine ⟨h.root_lt.trans_le he.scopes_le, (he.kind_scope h.root_lt).trans h.kind_root, fun i => ?_⟩
  rcases Nat.lt_trichotomy i t.symbols.size with hi | rfl | hi
  · rw [he.scope_eq hi, h.scope_eq]
  · rw [hget]
  · rw [get_of_size_le (hsize ▸ hi)]
    rfl

lemma outermost_ofBuiltins : ofBuiltins.Outermost := by
  have hempty : empty.Outermost := ⟨Nat.zero_lt_one, rfl, fun id => by rw [get_of_size_le (Nat.zero_le id)]; rfl⟩
  exact ofBuiltins_induction (J := Outermost) hempty fun _ _ _ _ => Outermost.declare

lemma Brings.of_isGlobal {P : SymbolId → Prop} {x} (ht : t.Outermost)
    (h : Brings P { t with scopes := t.scopes.push x } u) (hid : u.isGlobal id) : P id := by
  have he := (t.extends_push x).trans h.toExtends
  have hroot : u.isTop root = false := by
    rw [he.isTop_eq ht.root_lt, isTop, ht.kind_root]
    rfl
  have hne : (u.get id).scope ≠ root := by
    intro hs
    rw [isGlobal_eq, hs, hroot] at hid
    cases hid
  refine h.global (not_lt.mp fun hlt => hne ?_) (not_le.mp fun hle => hne ?_) hid
  · rw [he.scope_eq hlt, ht.scope_eq]
  · rw [get_of_size_le hle]
    rfl

end SymbolTable

lemma Program.exists_introduces {p : Program} (h : p.resolveNames = (q, .ok t)) (hid : t.isGlobal id) :
    (unit q).Introduces t id := by
  have hout := outermost_ofBuiltins
  have hrun := run_of_resolveNames h
  generalize ofBuiltins = builtins at hrun hout
  obtain ⟨items, t1, hhoist, hwalk, hkept⟩ := hrun
  have hlt : builtins.scopes.size < (builtins.pushScope root .global).1.scopes.size := by simp
  have hitems := hhoist.brings hlt
  exact (brings_unit hitems hwalk hkept (hlt.trans_le hitems.scopes_le)).of_isGlobal hout hid

end SketchCompiler
