import SketchCompiler.Proofs.DeclarationOrder
import SketchCompiler.Proofs.ItemsAhead

namespace SketchCompiler

open List Node

variable {main : Bool} {b a : List Nat} {r : Role}

namespace Program

variable {p q u : Program} {c o : List Nat} {m : Nat} {i : Item} {n : Node} {e : Expr} {id : SymbolId} {v : VarDecl}
  {range : Range}

section

variable (ho : (Node.unit q).at? o = some (.unit u)) (hi : (Node.unit q).at? (o ++ [m]) = some (.item i))
  (hmod : ∀ l aliasName path symbol p, i ≠ .module l aliasName path symbol p)

include ho hi hmod

lemma inside_item : q.Inside o m (o ++ [m]) where
  unit := ⟨u, ho⟩
  item := ⟨i, hi, hmod⟩
  place := ⟨[], rfl⟩
  node := ⟨_, hi⟩
  outside l d _ := by
    rintro ⟨_, _, _, _, _, _, -, -, he⟩
    simp at he

lemma inside_of_ne_var (hvar : ∀ l d, i ≠ .var l d)
    (hn : (unit q).at? (o ++ m :: c) = some n) : q.Inside o m (o ++ m :: c) where
  unit := ⟨u, ho⟩
  item := ⟨i, hi, hmod⟩
  place := ⟨c, rfl⟩
  node := ⟨n, hn⟩
  outside l d hd := by
    cases hi.symm.trans hd
    exact absurd rfl (hvar l d)

end

lemma at?_bound (hv : (unit q).at? b = some (.var v)) (hr : v.range = some range)
    (he : .expr e ∈ (expr range.min).nodes ∨ .expr e ∈ (expr range.max).nodes) :
    ∃ k c, k < (Node.ofRange? v.range).length ∧ (unit q).at? (b ++ k :: c) = some (.expr e) := by
  have bound {k : Nat} {x : Expr} (hk : (Node.ofRange? v.range)[k]? = some (.expr x))
      (he : .expr e ∈ (expr x).nodes) :
      ∃ k c, k < (Node.ofRange? v.range).length ∧ (unit q).at? (b ++ k :: c) = some (.expr e) := by
    have hlt := lt_of_getElem? hk
    obtain ⟨c, hc⟩ := mem_nodes.mp he
    refine ⟨k, c, hlt, ?_⟩
    rw [append_cons, at?_append, at?_concat, hv, Option.bind_some, Node.children, getElem?_append_left hlt, hk]
    exact hc
  rcases he with he | he
  · exact bound (k := 0) (by rw [hr]; rfl) he
  · exact bound (k := 1) (by rw [hr]; rfl) he

lemma Inside.bound {k : Nat} (hin : q.Inside o m b) (hv : (Node.unit q).at? b = some (.var v))
    (hk : k < (ofRange? v.range).length) (hn : (Node.unit q).at? (b ++ k :: c) = some n) :
    q.Inside o m (b ++ k :: c) where
  unit := hin.unit
  item := hin.item
  place := by
    obtain ⟨d, rfl⟩ := hin.place
    exact ⟨d ++ k :: c, by simp⟩
  node := ⟨n, hn⟩
  outside l d hd := by
    rintro ⟨d', l', x, handler, j, c', hd', hi, he⟩
    refine hin.outside l d hd ?_
    obtain ⟨e0, rfl⟩ := hin.place
    have he : e0 ++ k :: c = 0 :: (ofRange? d'.range).length :: (j + 1) :: c' := by simpa using he
    match e0, he with
    | [], he =>
      cases hv.symm.trans hd
    | [_], he =>
      cases he
      rw [append_cons] at hv
      cases hv.symm.trans hd'
      exact absurd hk (Nat.lt_irrefl _)
    | [_, _], he =>
      -- The value of the variable is an expression.
      cases he
      have hplace : o ++ [m, 0, (ofRange? d'.range).length] =
          o ++ [m] ++ [0] ++ [(ofRange? d'.range).length] := by simp
      rw [hplace, at?_concat, hd', Option.bind_some, children, hi,
        getElem?_append_right le_rfl, Nat.sub_self] at hv
      cases hv
    | _ :: _ :: _ :: e0, he =>
      cases he
      exact ⟨d', l', x, handler, j, e0, hd', hi, by simp⟩

lemma inside_unguarded {l} (ho : (unit q).at? o = some (.unit u))
    (hi : (unit q).at? (o ++ [m]) = some (.item (.var l v))) (hv : v.initializer = some e)
    (he : (expr e).isClamp = false) (hn : n ∈ (expr e.unguarded).nodes) :
    ∃ a, q.Inside o m a ∧ (unit q).at? a = some n := by
  obtain ⟨c, hc⟩ := mem_nodes.mp hn
  have hvar : (unit q).at? (o ++ [m] ++ [0]) = some (.var v) := at?_child hi rfl
  have hvalue : (unit q).at? (o ++ [m] ++ [0] ++ [(ofRange? v.range).length]) = some (.expr e) := by
    rw [at?_concat, hvar, Option.bind_some, children, hv, getElem?_append_right le_rfl, Nat.sub_self]
    rfl
  have inside {d : List Nat} (hn : (unit q).at? (o ++ m :: 0 :: (ofRange? v.range).length :: d) = some n)
      (hd : ∀ l x handler j c', e = .guarded l x handler → d ≠ (j + 1) :: c') :
      ∃ a, q.Inside o m a ∧ (unit q).at? a = some n := by
    refine ⟨_, ⟨⟨u, ho⟩, ⟨_, hi, nofun⟩, ⟨_, rfl⟩, ⟨n, hn⟩, ?_⟩, hn⟩
    rintro l' d' - ⟨w, l'', x, handler, j, c', hw, hx, hplace⟩
    cases hvar.symm.trans hw
    have hplace : d = (j + 1) :: c' := by simpa using hplace
    exact hd _ _ _ j c' (Option.some.inj (hv.symm.trans hx)) hplace
  have below (d : List Nat) : (unit q).at? (o ++ m :: 0 :: (ofRange? v.range).length :: d) =
      (expr e).at? d := by
    have hplace : o ++ m :: 0 :: (ofRange? v.range).length :: d =
        o ++ [m] ++ [0] ++ [(ofRange? v.range).length] ++ d := by simp
    rw [hplace, at?_append, hvalue, Option.bind_some]
  cases e with
  | guarded l' x handler =>
    refine inside (d := 0 :: c) ((below _).trans hc) ?_
    intro _ _ _ j c' _ hj
    cases hj
  | clamp l' x min max => cases he
  | _ => exact inside ((below c).trans hc) nofun

section Bounds

variable {F : List (ScopeId × Block)} {t : SymbolTable} {blockOf : ScopeId → Block} (hp : p.Read)
  (h : p.resolveNames = (q, .ok t)) (ht : t.Sound) (hq : (Node.unit q).UnitsResolved F t [])
  (hF : ∀ f ∈ F, blockOf f.1 = f.2)

include hp h ht in
lemma Read.exists_root (ha : (unit q).at? a = some (.expr e)) (he : e.symbol? = some id)
    (hopen : (t.scope (t.get id).scope).kind ≠ .members) : ∃ r k, e.root? = some r ∧ r.symbol = some k := by
  induction e using Expr.rootInduct generalizing a id with
  | name l r => exact ⟨r, id, rfl, he⟩
  | member l object x symbol ih =>
    cases he
    obtain ⟨k, s, hk, hmod, -, -⟩ := hp.module_of_member h ht ha hopen
    have hobject : (unit q).at? (a ++ [0]) = some (.expr object) := at?_child ha rfl
    exact ih hobject hk (outerOpen h k (by rw [hmod]; rfl)).2
  | other e hsymbol _ => cases hsymbol.symm.trans he

variable (hb : (Node.unit q).at? b = some (.item i)) (hid : i.symbol? = some id) (hglobal : t.isGlobal id)

include hp h ht hq hF hb hid hglobal

lemma Inside.ahead (hin : q.Inside o m a) (ha : (Node.unit q).at? a = some (.expr e)) (he : e.symbol? = some id) :
    i.Ahead o m b :=
  (hin.rootsIn hp h hq hF ha).ahead hp h ht hq hF ha he hb hid hglobal

lemma Inside.ahead_of_bound {k} {value} (hin : q.Inside o m a)
    (ha : (Node.unit q).at? a = some n) (hs : n.store? = some (some k, value)) (hv : v ∈ q.vars)
    (hvk : v.symbol = some k) (hr : v.range = some range)
    (hmem : .expr e ∈ (expr range.min).nodes ∨ .expr e ∈ (expr range.max).nodes)
    (he : e.symbol? = some id) : i.Ahead o m b := by
  obtain ⟨bv, hbv⟩ := mem_vars_iff.mp hv
  obtain ⟨j, c, hj, hplace⟩ := at?_bound hbv hr hmem
  cases n with
  | var d =>
    -- A declaration with an initializer: the bounds are its own.
    obtain ⟨_, -, hs⟩ := Option.map_eq_some_iff.mp hs
    obtain rfl := hp.vars_unique h (mem_vars_iff.mpr ⟨a, ha⟩) hv (Prod.mk.inj hs).1 hvk
    obtain ⟨j, c, hj, hplace⟩ := at?_bound ha hr hmem
    exact (hin.bound ha hj hplace).ahead hp h ht hq hF hb hid hglobal hplace he
  | stmt s =>
    cases s with
    | assign l target value =>
      have htarget : target.symbol? = some k := (Prod.mk.inj (Option.some.inj hs)).1
      have hopen := SymbolTable.kind_ne_members hglobal
      have names {r : Reference} (hroot : e.root? = some r) : ∃ l, .expr (.name l r) ∈ (expr range.min).nodes ∨
          .expr (.name l r) ∈ (expr range.max).nodes := by
        obtain ⟨l, hl⟩ := Expr.root?_mem_nodes hroot
        exact ⟨l, hmem.imp (mem_nodes_trans · hl) (mem_nodes_trans · hl)⟩
      have htargetAt : (Node.unit q).at? (a ++ [0]) = some (.expr target) := at?_child ha rfl
      cases target with
      | name l' r' =>
        -- What the bounds name is in sight wherever the variable is.
        have hvalueAt : (Node.unit q).at? (a ++ [1]) = some (.expr value) := at?_child ha rfl
        have hroots : q.RootsIn t blockOf o m e := by
          intro r k' hroot hk'
          obtain ⟨l2, hname⟩ := names hroot
          exact ⟨_, hin.child ha hvalueAt (by simp), inSight_at_store hp h ht hq hF hname hk' ha hv hr htarget hvk⟩
        exact hroots.ahead hp h ht hq hF hplace he hb hid hglobal
      | member l' object name symbol =>
        cases htarget
        -- The variable is no field, as the bounds of fields are not resolved.
        obtain ⟨r, k', hroot, hk'⟩ := hp.exists_root h ht hplace he hopen
        obtain ⟨l2, hname⟩ := names hroot
        obtain ⟨B, j', c', -, hused⟩ := exists_usedInBounds hp h hbv hr hname (by simp [hk'])
        obtain ⟨nv, hnv, hz⟩ := hused.binder
        have hkind : t.kind k = _ := ((Declares.behind hnv hz hused.head).symbol_eq hp h ht hq hF hvk).2.1
        have hvar : t.kind k = .var := by
          have hassign : (t.kind k).isAssignable := hp.assignable h ha rfl
          rcases kind_of_binder? hz with hk | hk
          · exact hkind.trans hk
          · rw [hkind, hk] at hassign
            cases hassign
        -- So it is found in a module, where its item is.
        obtain ⟨k1, s, hk1, hmod, hs1, hn1⟩ := hp.module_of_member h ht htargetAt (outerOpen h k (by rw [hvar]; rfl)).2
        have hobjectAt : (Node.unit q).at? (a ++ [0] ++ [0]) = some (.expr object) := at?_child htargetAt rfl
        have hobject := (hin.child ha htargetAt (by simp)).child htargetAt hobjectAt (by simp)
        obtain ⟨b1, l1, aliasName, path, u, hb1, hahead⟩ :=
          (hobject.rootsIn hp h hq hF hobjectAt).exists_module hp h ht hq hF hobjectAt hk1 hmod
        obtain ⟨j1, i1, hi1, hid1, -⟩ := item_of_member hp h ht hq hF hb1 hs1 hn1 (by simp [hvar])
        obtain ⟨o1, j2, w, hplace1, ho1, hw⟩ := unit_above_item hi1
        obtain ⟨x, hx, hxid, -, hxk, -⟩ := symbol_of_item hp h ht hq hF ho1 hw hid1
        obtain ⟨l3, d, rfl, hd⟩ := Item.eq_var hx (hxk.symm.trans hvar)
        obtain ⟨rfl, hj2⟩ : b1 ++ [0] = o1 ∧ [j1] = [j2] := append_inj' (by simpa using hplace1) rfl
        cases hj2
        have hvarAt : (Node.unit q).at? (b1 ++ [0] ++ [j1] ++ [0]) = some (.var d) := at?_child (at?_item ho1 hw) rfl
        obtain rfl := hp.vars_unique h (mem_vars_iff.mpr ⟨_, hvarAt⟩) hv (hd.trans hxid) hvk
        obtain ⟨j, c, hj, hplace⟩ := at?_bound hvarAt hr hmem
        have hbound := ((inside_item ho1 (at?_item ho1 hw) (by simp)).child (at?_item ho1 hw) hvarAt (by simp)).bound
          hvarAt hj hplace
        exact hahead.trans (hbound.ahead hp h ht hq hF hb hid hglobal hplace he)
      | _ => cases htarget
    | _ => cases hs
  | _ => cases hs

lemma Inside.ahead_of_comesFrom {q'} {ranges} (hr : q.clampRanges = (q', .ok ranges))
    (hin : q.Inside o m a) (ha : (Node.unit q).at? a = some n)
    (hm : ComesFrom (clamps ranges) (clamping ranges) (.expr e) (n.transform commonUnits))
    (he : e.symbol? = some id) : i.Ahead o m b := by
  rcases hm with hm | ⟨symbol, value, hs, hm⟩
  · cases n with
    | expr x =>
      cases hm
      rw [symbol?_transform, symbol?_transform] at he
      exact hin.ahead hp h ht hq hF hb hid hglobal ha he
    | _ => cases hm
  · rw [store?_transform] at hs
    obtain ⟨⟨symbol', value'⟩, hstore, hsymbol⟩ := Option.map_eq_some_iff.mp hs
    cases hsymbol
    unfold clamping at hm
    split at hm
    · rename_i r hl
      obtain ⟨k, rfl, hl⟩ := Option.bind_eq_some_iff.mp hl
      obtain ⟨v, hv, hvk, hvr⟩ := (hp.lookup_ranges_iff h hr).mp hl
      obtain ⟨range, hrange, rfl⟩ := Option.map_eq_some_iff.mp hvr
      -- The bounds are those of the variable in common units.
      have converted {x : Expr} (hx : .expr e ∈ (expr (x.transform commonUnits)).nodes) :
          ∃ y, .expr y ∈ (expr x).nodes ∧ y.symbol? = some id := by
        obtain ⟨c, hc⟩ := mem_nodes.mp hx
        have hkeep := at?_keep (f := commonUnits) (fun _ _ => rfl) (.expr x) c
        obtain ⟨y, hy, hye⟩ := Option.map_eq_some_iff.mp (hkeep.symm.trans hc)
        cases y with
        | expr y =>
          cases hye
          rw [symbol?_transform] at he
          exact ⟨y, mem_nodes.mpr ⟨c, hy⟩, he⟩
        | _ => cases hye
      rcases mem_cons.mp hm with hclamp | hm
      · cases hclamp
        cases he
      · rcases mem_append.mp hm with hm | hm
        · obtain ⟨y, hy, hyid⟩ := converted hm
          exact hin.ahead_of_bound hp h ht hq hF hb hid hglobal ha hstore hv hvk hrange (.inl hy) hyid
        · obtain ⟨y, hy, hyid⟩ := converted hm
          exact hin.ahead_of_bound hp h ht hq hF hb hid hglobal ha hstore hv hvk hrange (.inr hy) hyid
    · cases hm

end Bounds

end Program

namespace Expr

variable {e x : Expr}

lemma unguarded_transform (f : Transform) (he : (expr e).isClamp = false) :
    (e.transform f).unguarded = e.unguarded.transform f := by
  cases e with
  | clamp l e min max => cases he
  | _ => rfl

lemma mem_nodes_unguarded {ranges} {symbol} (he : (expr e).isClamp = false)
    (hx : x.symbol? ≠ none) (hm : .expr x ∈ (expr (e.clampTo ranges symbol).unguarded).nodes) :
    .expr x ∈ (expr e.unguarded).nodes ∨ .expr x ∈ clamping ranges symbol e := by
  cases e with
  | guarded l value handler =>
    unfold clampTo at hm
    unfold clamping
    cases hl : symbol.bind (ranges.lookup ·) with
    | none =>
      rw [hl] at hm
      exact .inl hm
    | some r =>
      rw [hl] at hm
      simp only [unguarded, mem_nodes_iff (n := .expr (.clamp ..)), children, mem_cons,
        not_mem_nil, or_false, exists_eq_or_imp, exists_eq_left, expr.injEq] at hm
      rcases hm with rfl | hm | hm | hm
      · exact absurd rfl hx
      · exact .inl hm
      · exact .inr (mem_cons_of_mem _ (mem_append_left _ hm))
      · exact .inr (mem_cons_of_mem _ (mem_append_right _ hm))
  | clamp l value min max => cases he
  | _ =>
    refine (mem_nodes_clampTo symbol _ _).mp ?_
    unfold clampTo at hm ⊢
    cases hl : symbol.bind (ranges.lookup ·) with
    | none =>
      rw [hl] at hm
      exact hm
    | some r =>
      rw [hl] at hm
      exact hm

end Expr

lemma Item.mem_children_of_trees {i : Item} {n} (hr : r = .code ∨ r = .methods)
    (hvar : ∀ l d, i ≠ .var l d) (hn : n ∈ i.trees main r) : n ∈ (item i).children := by
  rcases hr with rfl | rfl
  · cases i with
    | var l d => exact absurd rfl (hvar l d)
    | interrupt l d => exact mem_cons_of_mem _ hn
    | task l d => exact mem_append_right _ hn
    | event l kind body =>
      cases kind with
      | signal r => exact hn
      | _ =>
        simp only [trees] at hn
        split at hn
        · cases hn
        · exact hn
    | aliasDecl | function => exact hn
    | _ => cases hn
  · cases i with
    | classDecl l d =>
      rw [children, append_assoc]
      exact mem_append_right _ hn
    | _ => cases hn

namespace Program

variable {p q q' : Program} {t : SymbolTable} {ranges : RangeTable} {o : List Nat} {m : Nat} {i : Item} {n : Node}
  {e : Expr}

lemma Read.exists_inside {u} (hp : p.Read) (h : p.resolveNames = (q, .ok t))
    (ho : (unit q).at? o = some (.unit u)) (hi : (unit q).at? (o ++ [m]) = some (.item i))
    (hr : r = .code ∨ r = .methods)
    (hn : n ∈ ((i.transform commonUnits).transform (clamps ranges)).trees main r) (he : .expr e ∈ n.nodes)
    (hs : e.symbol? ≠ none) : ∃ a k, q.Inside o m a ∧ (unit q).at? a = some k ∧
      ComesFrom (clamps ranges) (clamping ranges) (.expr e) (k.transform commonUnits) := by
  -- A node of a converted and clamped tree comes from one of the tree.
  have source {x : Node} (hm : .expr e ∈ ((x.transform commonUnits).transform (clamps ranges)).nodes) :
      ∃ k ∈ x.nodes,
        ComesFrom (clamps ranges) (clamping ranges) (.expr e) (k.transform commonUnits) := by
    obtain ⟨k, hk, hek⟩ := comesFrom_of_mem_nodes mem_nodes_clampTo hm
    obtain ⟨c, hc⟩ := mem_nodes.mp hk
    rw [at?_keep (fun _ _ => rfl)] at hc
    obtain ⟨k', hk', rfl⟩ := Option.map_eq_some_iff.mp hc
    exact ⟨k', mem_nodes.mpr ⟨c, hk'⟩, hek⟩
  by_cases hvar : ∃ l d, i = .var l d
  · obtain ⟨l, d, rfl⟩ := hvar
    have hvarAt : (unit q).at? (o ++ [m] ++ [0]) = some (.var d) := at?_child hi rfl
    obtain ⟨_, _, _, initializer, _, symbol⟩ := d
    cases initializer with
    | none => rcases hr with rfl | rfl <;> cases hn
    | some value =>
      have hvalue : (expr value).isClamp = false := by
        refine hp.not_isClamp h (mem_nodes_trans (mem_nodes.mpr ⟨_, hvarAt⟩) ?_)
        exact mem_nodes_iff.mpr (.inr ⟨.expr value, mem_append_right _ (mem_singleton_self _), mem_nodes_self⟩)
      have hclamp (f : Transform) (x : Expr) (hx : (expr x).isClamp = false) :
          (expr (x.transform f)).isClamp = false := (isClamp_transform f (.expr x)).trans hx
      rcases hr with rfl | rfl
      · cases mem_singleton.mp hn
        have hconverted := hclamp commonUnits value hvalue
        rcases Expr.mem_nodes_unguarded (hclamp _ _ hconverted) hs he with he | he
        · rw [Expr.unguarded_transform _ hconverted, Expr.unguarded_transform _ hvalue] at he
          obtain ⟨k, hk, hek⟩ := source (x := .expr value.unguarded) he
          obtain ⟨a, hin, ha⟩ := inside_unguarded ho hi rfl hvalue hk
          exact ⟨a, k, hin, ha, hek⟩
        · exact ⟨_, _, (inside_item ho hi nofun).child hi hvarAt nofun, hvarAt, .inr ⟨_, _, rfl, he⟩⟩
      · cases hn
  · have hvar (l : Location) (d : VarDecl) : i ≠ .var l d := fun hd => hvar ⟨l, d, hd⟩
    have hvar' (l : Location) (d : VarDecl) : (i.transform commonUnits).transform (clamps ranges) ≠ .var l d := by
      cases i with
      | var l' d' => exact absurd rfl (hvar l' d')
      | _ => nofun
    have hmod : ∀ l aliasName path symbol p, i ≠ .module l aliasName path symbol p := by
      rintro l aliasName path symbol p rfl
      rcases hr with rfl | rfl <;> cases hn
    have hmem : .expr e ∈ (item ((i.transform commonUnits).transform (clamps ranges))).nodes :=
      mem_nodes_iff.mpr (.inr ⟨n, Item.mem_children_of_trees hr hvar' hn, he⟩)
    obtain ⟨k, hk, hek⟩ := source (x := .item i) hmem
    obtain ⟨c, hc⟩ := mem_nodes.mp hk
    have hat : (unit q).at? (o ++ m :: c) = some k := by
      rw [append_cons, at?_append, hi]
      exact hc
    exact ⟨_, k, inside_of_ne_var ho hi hmod hvar hat, hat, hek⟩

end Program

lemma item_of_at?_transform (f : Transform) {p : Program} {a : List Nat} {i}
    (h : (unit (p.transform f)).at? a = some (item i)) :
    ∃ i₀ : Item, (unit p).at? a = some (item i₀) ∧ i₀.transform f = i := by
  rcases item_at?_cases h with ⟨j, rfl, hj⟩ | ⟨j, b, l, aliasName, path, symbol, q, rfl, hj, hb⟩
  · rw [p.items_transform, getElem?_map] at hj
    obtain ⟨i₀, hi₀, rfl⟩ := Option.map_eq_some_iff.mp hj
    exact ⟨i₀, at?_item (q := p) (o := []) rfl hi₀, rfl⟩
  · rw [p.items_transform, getElem?_map] at hj
    obtain ⟨i₀, hi₀, hm⟩ := Option.map_eq_some_iff.mp hj
    cases i₀ with
    | module l aliasName path symbol w =>
      cases hm
      obtain ⟨i₀, hi, rfl⟩ := item_of_at?_transform f hb
      refine ⟨i₀, ?_, rfl⟩
      rw [at?, children, getElem?_map, hi₀]
      exact hi
    | _ => cases hm
termination_by a.length

lemma Item.symbol?_transform (f : Transform) (i : Item) : (i.transform f).symbol? = i.symbol? := by
  cases i with
  | var l d => exact VarDecl.symbol_transform _ _
  | _ => rfl

/-- Values and functions: what has a declaration of its own in the sketch, apart from types. -/
def Item.isValue : Item → Bool
  | .var .. | .aliasDecl .. | .function .. => true
  | _ => false

/-- The code or the methods of the item at the place `a` have an expression that stands for the symbol. -/
def Program.Refers (p : Program) (a : List Nat) (r : Role) (id : SymbolId) : Prop :=
  ∃ i n e, (unit p).at? a = some (.item i) ∧ n ∈ i.trees (a.length = 1) r ∧ .expr e ∈ n.nodes ∧ e.symbol? = some id

namespace Role

variable {r' : Role}

lemma before_append {p u} {o : List Nat} (ho : (unit p).at? o = some (.unit u)) :
    r.Before r' (o ++ b) (o ++ a) ↔ r.Before r' b a := by
  match o, ho with
  | [], _ => rfl
  | j :: o, ho =>
    obtain ⟨c, hc, ho⟩ := Option.bind_eq_some_iff.mp ho
    rw [children, getElem?_map] at hc
    obtain ⟨i, -, rfl⟩ := Option.map_eq_some_iff.mp hc
    obtain ⟨l, aliasName, path, symbol, w, o', rfl, rfl, ho'⟩ := module_of_unit_at? ho
    rw [cons_append, cons_append, cons_append, cons_append, Before, before_append ho']
    simp
termination_by o.length

end Role

lemma Item.Ahead.before {p u} {i : Item} {o : List Nat} {m} (h : i.Ahead o m b)
    (ho : (unit p).at? o = some (.unit u)) (hi : i.isValue) (hr : r = .code ∨ r = .methods) :
    i.declarationRole.Before r b (o ++ [m]) := by
  rcases h with ⟨j, rfl, hj⟩ | ⟨j, c, rfl⟩
  · rw [Role.before_append ho, Role.Before]
    cases i with
    | function l d => exact .inl (show Role.prototypes.stage < r.stage by rcases hr with rfl | rfl <;> decide)
    | var | aliasDecl =>
      have hlt := hj.resolve_left nofun
      rcases hr with rfl | rfl
      · exact .inr ⟨rfl, hlt⟩
      · exact .inl (show Role.code.stage < Role.methods.stage by decide)
    | _ => cases hi
  · rw [Role.before_append ho]
    trivial

namespace Program

variable {p q q' : Program} {t : SymbolTable} {ranges : RangeTable} {id : SymbolId}

lemma Read.binder_of_item {i : Item} (hp : p.Read) (h : p.resolveNames = (q, .ok t))
    (hb : (unit q).at? b = some (.item i)) (hi : i.symbol? = some id) :
    ∃ x, i.ownBinder? = some x ∧ (t.get id).name = x.name.text ∧ t.kind id = x.kind := by
  obtain ⟨F, blockOf, ht, hq, hF⟩ := unitBlocks h
  obtain ⟨o, j, u, rfl, ho, hj⟩ := unit_above_item hb
  obtain ⟨x, hx, -, hname, hkind, -⟩ := symbol_of_item hp h ht hq hF ho hj hi
  exact ⟨x, hx, hname, hkind⟩

lemma exists_item (h : p.resolveNames = (q, .ok t)) (hid : t.isGlobal id) (hk : t.kind id ≠ .variant) :
    ∃ b i, (unit q).at? b = some (.item i) ∧ i.symbol? = some id := by
  obtain ⟨b, i, hb, hi⟩ := exists_introduces h hid
  cases hi with
  | variant _ _ _ hv => exact absurd hv hk
  | own hi => exact ⟨b, i, hb, hi⟩

lemma Read.exists_value (hp : p.Read) (h : p.resolveNames = (q, .ok t)) (hid : t.isGlobal id)
    (hk : t.kind id = .var ∨ t.kind id = .constant ∨ t.kind id = .function) :
    ∃ b i, (unit q).at? b = some (.item i) ∧ i.symbol? = some id ∧ i.isValue := by
  obtain ⟨b, i, hb, hi⟩ := exists_item h hid (by rintro hv; simp [hv] at hk)
  obtain ⟨x, hx, -, hkind⟩ := hp.binder_of_item h hb hi
  refine ⟨b, i, hb, hi, ?_⟩
  rw [hkind] at hk
  cases i with
  | var | aliasDecl | function => rfl
  | _ => cases hx <;> simp at hk

lemma item_of_clamped {i : Item} (hr : q.clampRanges = (q', .ok ranges)) (hb : (unit q').at? b = some (.item i)) :
    ∃ i₀, (unit q).at? b = some (.item i₀) ∧ (i₀.transform commonUnits).transform (clamps ranges) = i := by
  rw [eq_insertClamps hr] at hb
  obtain ⟨i₁, hi₁, rfl⟩ := item_of_at?_transform (clamps ranges) (p := q.convertUnits) hb
  obtain ⟨i₀, hi₀, rfl⟩ := item_of_at?_transform commonUnits hi₁
  exact ⟨i₀, hi₀, rfl⟩

lemma clamped_of_item {i : Item} (hr : q.clampRanges = (q', .ok ranges)) (hb : (unit q).at? b = some (.item i)) :
    (unit q').at? b = some (.item ((i.transform commonUnits).transform (clamps ranges))) := by
  rw [eq_insertClamps hr]
  exact item_at?_transform _ (item_at?_transform _ hb)

lemma Read.ahead_of_refers (hp : p.Read) (h : p.resolveNames = (q, .ok t)) (hr : q.clampRanges = (q', .ok ranges))
    {i : Item} (hb : (unit q).at? b = some (.item i)) (hi : i.symbol? = some id) (hid : t.isGlobal id)
    (hrole : r = .code ∨ r = .methods) (hrefers : q'.Refers a r id) :
    ∃ o m u, a = o ++ [m] ∧ (unit q).at? o = some (.unit u) ∧ i.Ahead o m b := by
  obtain ⟨F, blockOf, ht, hq, hF⟩ := unitBlocks h
  obtain ⟨i', n, e, ha, hn, he, hs⟩ := hrefers
  obtain ⟨i₀, hi₀, rfl⟩ := item_of_clamped hr ha
  obtain ⟨o, m, u, rfl, ho, -⟩ := unit_above_item hi₀
  obtain ⟨c, k, hin, hk, hek⟩ := hp.exists_inside h ho hi₀ hrole hn he (by simp [hs])
  exact ⟨o, m, u, rfl, ho, hin.ahead_of_comesFrom hp h ht hq hF hb hi hid hr hk hek hs⟩

lemma Read.before_of_refers (hp : p.Read) (h : p.resolveNames = (q, .ok t)) (hr : q.clampRanges = (q', .ok ranges))
    {i : Item} (hb : (unit q).at? b = some (.item i)) (hi : i.symbol? = some id)
    (hvalue : i.isValue) (hid : t.isGlobal id) (hrole : r = .code ∨ r = .methods) (hrefers : q'.Refers a r id) :
    i.declarationRole.Before r b a := by
  obtain ⟨o, m, u, rfl, ho, hahead⟩ := hp.ahead_of_refers h hr hb hi hid hrole hrefers
  exact hahead.before ho hvalue hrole

/-- The sketch falls into pieces of items, with `setup()` and `loop()` behind them. A variable, constant, alias or
function at the top of a unit is declared in the piece of its item, and this piece precedes each one with code that
refers to it: the body of a function, task, interrupt or event, the initializer of a variable or alias, and the bodies
of methods. -/
theorem declared_before_references (k : Scene) (hp : p.Read) (h : p.resolveNames = (q, .ok t))
    (hr : q.clampRanges = (q', .ok ranges)) : q'.CutInto k (q'.sketchPieces k) ∧
      ∀ id, t.isGlobal id → t.kind id = .var ∨ t.kind id = .constant ∨ t.kind id = .function →
        ∃ b i x text, (Node.unit q').at? b = some (.item i) ∧ i.symbol? = some id ∧ i.isValue ∧
          x ∈ q'.sketchPieces k ∧ x.key = (b, i.declarationRole) ∧ i.declarationLine? k = some text ∧
          .code 0 text ∈ x.lines ∧
          ∀ a r, r = .code ∨ r = .methods → q'.Refers a r id → q'.Precedes k x.key (a, r) := by
  refine ⟨q'.cutInto_sketchPieces k, fun id hid hk => ?_⟩
  obtain ⟨b, i, hb, hi, hvalue⟩ := hp.exists_value h hid hk
  -- The item after clamping, with the same place, symbol and role.
  have hb' := clamped_of_item hr hb
  generalize hi' : (i.transform commonUnits).transform (Node.clamps ranges) = i' at hb'
  have hsymbol : i'.symbol? = some id := by rw [← hi', Item.symbol?_transform, Item.symbol?_transform, hi]
  have hsame : i'.isValue = i.isValue ∧ i'.declarationRole = i.declarationRole := by
    subst hi'
    cases i <;> exact ⟨rfl, rfl⟩
  obtain ⟨x, hx, hxkey, text, htext, hline⟩ := exists_declaration k hb' (.own (t := t) hsymbol)
  refine ⟨b, i', x, text, hb', hsymbol, hsame.1.trans hvalue, hx, hxkey, htext, hline, fun a r hr' hrefers => ?_⟩
  have hrefers' := hrefers
  obtain ⟨i'', n, e, ha, -⟩ := hrefers'
  have hcommon : r.isCommon := by rcases hr' with rfl | rfl <;> rfl
  rw [hxkey, precedes_iff_before hb' ha i'.suits_declarationRole hcommon, hsame.2]
  exact hp.before_of_refers h hr hb hi hvalue hid hr' hrefers

end Program

namespace Sample

def linkedText : String := "load <m.ys>
const int k = 3
mut int x in 0...k = m.f()
fn g() { x = m.y }
class C { fn c() { h() } }
fn h() { }"

def linked : Program :=
  ((ofText linkedText).link (.ofFiles [("m.ys", "mut int y = 1\nfn f() -> int { return y }")])).1

def referredAt? (p : Program) (a : List Nat) (r : Role) (n : Nat) (c : List Nat) : Option SymbolId :=
  match (Node.unit p).at? a with
  | some (.item i) =>
    match (i.trees (a.length = 1) r)[n]?.bind (·.at? c) with
    | some (.expr e) => e.symbol?
    | _ => none
  | _ => none

lemma refers_of_referredAt? {p : Program} {c : List Nat} {n} {id}
    (h : referredAt? p a r n c = some id) : p.Refers a r id := by
  unfold referredAt? at h
  split at h
  case h_2 => cases h
  case h_1 i ha =>
    split at h
    case h_2 => cases h
    case h_1 e he =>
      obtain ⟨x, hx, he⟩ := Option.bind_eq_some_iff.mp he
      exact ⟨i, x, e, ha, mem_of_getElem? hx, mem_nodes.mpr ⟨c, he⟩, h⟩

def usesValue (t : SymbolTable) (p : Program) (name : String) (a : List Nat) (r : Role) (n : Nat) (c : List Nat) :
    Bool :=
  match referredAt? p a r n c with
  | some id => (t.get id).name = name && t.isGlobal id && [.var, .constant, .function].contains (t.kind id)
  | none => false

/-- The name is used in the piece, and an item declares it in an earlier one. -/
def DeclaredFirst (t : SymbolTable) (k : Scene) (p : Program) (name : String) (a : List Nat) (r : Role) : Prop :=
  ∃ id b i, (t.get id).name = name ∧ p.Refers a r id ∧ (Node.unit p).at? b = some (.item i) ∧ i.symbol? = some id ∧
    p.Precedes k (b, i.declarationRole) (a, r)

theorem linked_declaredFirst : ∃ q q' ranges, linked.Read ∧ linked.resolveNames = (q, .ok (tableOf linked)) ∧
    q.clampRanges = (q', .ok ranges) ∧ DeclaredFirst (tableOf linked) (plainScene linked) q' "k" [3] .code ∧
    DeclaredFirst (tableOf linked) (plainScene linked) q' "y" [3] .code ∧
    DeclaredFirst (tableOf linked) (plainScene linked) q' "h" [4] .methods := by
  have hall : (Program.ofText "main" linkedText).isOk ∧ isResolved linked ∧
      linked.resolveNames.1.clampRanges.2.isOk ∧
      let q := linked.resolveNames.1.clampRanges.1
      usesValue (tableOf linked) q "k" [3] .code 0 [1, 2] ∧ usesValue (tableOf linked) q "y" [3] .code 0 [1, 0] ∧
        usesValue (tableOf linked) q "h" [4] .methods 0 [0, 0] := by decide +kernel
  obtain ⟨htext, hresolved, hclamped, hk, hy, hh⟩ := hall
  have hread : linked.Read := .link _ (read_ofText htext)
  have hnames := resolveNames_eq hresolved
  have hr := clampRanges_eq hclamped
  obtain ⟨-, horder⟩ := Program.declared_before_references (plainScene linked) hread hnames hr
  have declared {name : String} {a c : List Nat} {r : Role} {n : Nat} (hrole : r = .code ∨ r = .methods)
      (hu : usesValue (tableOf linked) linked.resolveNames.1.clampRanges.1 name a r n c = true) :
      DeclaredFirst (tableOf linked) (plainScene linked) linked.resolveNames.1.clampRanges.1 name a r := by
    unfold usesValue at hu
    split at hu
    case h_2 => cases hu
    case h_1 id hid =>
      simp only [Bool.and_eq_true, decide_eq_true_eq, contains_iff_mem, mem_cons, not_mem_nil,
        or_false] at hu
      obtain ⟨⟨hname, hglobal⟩, hkind⟩ := hu
      obtain ⟨b, i, x, text, hb, hi, -, -, hkey, -, -, hprecedes⟩ := horder id hglobal hkind
      have hrefers := refers_of_referredAt? hid
      exact ⟨id, b, i, hname, hrefers, hb, hi, hkey ▸ hprecedes a r hrole hrefers⟩
  exact ⟨_, _, _, hread, hnames, hr, declared (.inl rfl) hk, declared (.inl rfl) hy, declared (.inr rfl) hh⟩

end Sample

end SketchCompiler
