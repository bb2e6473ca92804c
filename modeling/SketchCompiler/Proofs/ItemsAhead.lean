import SketchCompiler.Proofs.CopiedBounds
import SketchCompiler.Proofs.ModuleMembers

namespace SketchCompiler

open List Node

variable {b o : List Nat} {u : Program}

lemma SymbolTable.kind_ne_members {t : SymbolTable} {id : SymbolId} (h : t.isGlobal id) :
    (t.scope (t.get id).scope).kind ≠ .members :=
  fun hm => by simp [isGlobal, hm] at h

def Item.ownBinder? : Item → Option Binder
  | .var _ d => some d.binder
  | .aliasDecl _ name _ symbol => some ⟨name, .constant, symbol⟩
  | i => i.binders.head?

namespace Item

variable {i : Item} {x : Binder} {id : SymbolId}

lemma exists_ownBinder (h : i.symbol? = some id) : ∃ x, i.ownBinder? = some x ∧ x.symbol = some id := by
  cases i with
  | var | aliasDecl | function | classDecl | enumDecl | structDecl | signal | task | module => exact ⟨_, rfl, h⟩
  | _ => cases h

lemma ownBinder_kind_ne (h : i.ownBinder? = some x) : x.kind ≠ .variant := by
  cases i with
  | var l d =>
    cases h
    unfold VarDecl.binder
    split <;> simp
  | _ => cases h <;> simp

lemma eq_module (h : i.ownBinder? = some x) (hk : x.kind = .moduleAlias) (hid : x.symbol = some id) :
    ∃ l aliasName path p, i = .module l aliasName path (some id) p := by
  cases i with
  | module l aliasName path symbol p =>
    cases h
    cases hid
    exact ⟨l, aliasName, path, p, rfl⟩
  | var l d =>
    cases h
    unfold VarDecl.binder at hk
    split at hk <;> cases hk
  | _ => cases h <;> cases hk

lemma eq_var (h : i.ownBinder? = some x) (hk : x.kind = .var) : ∃ l d, i = .var l d ∧ d.symbol = x.symbol := by
  cases i with
  | var l d =>
    cases h
    exact ⟨l, d, rfl, rfl⟩
  | _ => cases h <;> cases hk

end Item

lemma unit_above_item {q} {i} (h : (unit q).at? b = some (item i)) :
    ∃ o j u, b = o ++ [j] ∧ (unit q).at? o = some (unit u) ∧ u.items[j]? = some i := by
  rcases eq_nil_or_concat b with rfl | ⟨o, j, rfl⟩
  · cases h
  rw [concat_eq_append] at h ⊢
  rw [at?_concat] at h
  obtain ⟨n, hn, hj⟩ := Option.bind_eq_some_iff.mp h
  obtain ⟨u, rfl, -⟩ := unit_of_item_mem (mem_of_getElem? hj)
  rw [children, getElem?_map] at hj
  obtain ⟨i', hi', hii⟩ := Option.map_eq_some_iff.mp hj
  cases hii
  exact ⟨o, j, u, rfl, hn, hi'⟩

lemma at?_child {n m c : Node} {a : List Nat} {i} (ha : n.at? a = some m) (hc : m.children[i]? = some c) :
    n.at? (a ++ [i]) = some c := by
  rw [at?_concat, ha]
  exact hc

lemma at?_item {q} {j} {i} (ho : (unit q).at? o = some (unit u))
    (hi : u.items[j]? = some i) : (unit q).at? (o ++ [j]) = some (item i) := by
  rw [at?_concat, ho, Option.bind_some, children, getElem?_map, hi]
  rfl

/-- The item at `b` is declared where item `m` of the unit at `o` is read: in a module of the unit, or in the unit
itself, for its whole text or before that item. -/
def Item.Ahead (o : List Nat) (m : Nat) (b : List Nat) (i : Item) : Prop :=
  (∃ j, b = o ++ [j] ∧ ((item i).binder? = none ∨ j < m)) ∨ ∃ j c, b = o ++ j :: 0 :: c

lemma Item.Ahead.below {i g : Item} {m} (h : g.Ahead o m b) (c : List Nat) : i.Ahead o m (b ++ 0 :: c) := by
  rcases h with ⟨j, rfl, -⟩ | ⟨j, d, rfl⟩
  · exact .inr ⟨j, c, by simp⟩
  · exact .inr ⟨j, d ++ 0 :: c, by simp⟩

lemma Item.Ahead.trans {i i' : Item} {c} {m n} (h : i.Ahead o m b) (h' : i'.Ahead (b ++ [0]) n c) : i'.Ahead o m c := by
  rcases h' with ⟨j, rfl, -⟩ | ⟨j, d, rfl⟩
  · simpa using h.below (i := i') [j]
  · simpa using h.below (i := i') (j :: 0 :: d)

namespace Program

variable {p q : Program} {a c : List Nat} {m j : Nat} {i : Item} {n : Node} {B : Block} {x : Binder} {id : SymbolId}

lemma declares_of_item (ho : (unit q).at? o = some (.unit u)) (hi : u.items[j]? = some i)
    (hx : i.ownBinder? = some x) : q.Declares ⟨o, 0⟩ ((item i).binder?.map fun _ => o ++ [j]) x := by
  have hat := at?_item ho hi
  have hlt := lt_of_getElem? hi
  have hhead : (q.blocksAt (o ++ [j])).head? = some ⟨o, 0⟩ := by
    rw [blocksAt_child ho hat, Node.inner, Node.around, getElem?_map, hi]
    rfl
  have hoisted (hmem : x ∈ i.binders) : q.Declares ⟨o, 0⟩ none x :=
    .header ho (mem_flatMap.mpr ⟨i, mem_of_getElem? hi, hmem⟩)
  cases i with
  | var l d =>
    cases hx
    exact .behind hat rfl hhead
  | aliasDecl l name e symbol =>
    cases hx
    exact .behind hat rfl hhead
  | _ => exact hoisted (mem_of_head? hx)

lemma ownBinder_inj {F} {t} {j' : Nat} {i' : Item} {x' : Binder}
    (hp : p.Unnumbered) (h : p.resolveNames = (q, .ok t)) (hq : (unit q).UnitsResolved F t [])
    (ho : (unit q).at? o = some (.unit u)) (hj : u.items[j]? = some i) (hj' : u.items[j']? = some i')
    (hx : i.ownBinder? = some x) (hx' : i'.ownBinder? = some x') (hs : x.symbol ≠ none) (hs' : x'.symbol ≠ none)
    (hname : x.name.text = x'.name.text) : j = j' := by
  obtain ⟨hsince, -⟩ := declares_unique hp h hq (declares_of_item ho hj hx) (declares_of_item ho hj' hx') hs hs' hname
  -- Both are declared from their places on, or both for the whole text of the unit.
  have hhoisted {i : Item} {x : Binder} (hx : i.ownBinder? = some x) (hb : (item i).binder? = none) :
      x ∈ i.binders := by
    cases i with
    | var | aliasDecl => cases hb
    | _ => exact mem_of_head? hx
  cases hb : (item i).binder? with
  | some y =>
    rw [hb] at hsince
    obtain ⟨-, -, hplace⟩ := Option.map_eq_some_iff.mp hsince.symm
    exact (singleton_inj.mp (append_cancel_left hplace)).symm
  | none =>
    rw [hb] at hsince
    have hmem := hhoisted hx hb
    have hmem' := hhoisted hx' (Option.map_eq_none_iff.mp hsince.symm)
    have hheader : x ∈ (unit u).header 0 := mem_flatMap.mpr ⟨i, mem_of_getElem? hj, hmem⟩
    have hdistinct := (((Meets.unit ho).resolvedHere hq).heads
      (Spot.mem_heads_of_header rfl (ne_nil_of_mem hheader))).distinct
    rw [Spot.toNode, Node.header, map_flatMap, nodup_flatMap] at hdistinct
    have hmem := mem_map_of_mem (f := fun x : Binder => x.name.text) hmem
    have hmem' := mem_map_of_mem (f := fun x : Binder => x.name.text) hmem'
    rw [hname] at hmem
    obtain ⟨hlt, hget⟩ := List.getElem?_eq_some_iff.mp hj
    obtain ⟨hlt', hget'⟩ := List.getElem?_eq_some_iff.mp hj'
    rcases lt_trichotomy j j' with hjj | hjj | hjj
    · have hdisjoint := pairwise_iff_getElem.mp hdistinct.2 j j' hlt hlt' hjj
      rw [Function.onFun, hget, hget'] at hdisjoint
      exact (hdisjoint hmem hmem').elim
    · exact hjj
    · have hdisjoint := pairwise_iff_getElem.mp hdistinct.2 j' j hlt' hlt hjj
      rw [Function.onFun, hget, hget'] at hdisjoint
      exact (hdisjoint hmem' hmem).elim

lemma place_of_mem_blocksAt_unit (ho : (unit q).at? o = some (.unit u))
    (ha : (unit q).at? (o ++ m :: c) = some n) (hB : B ∈ q.blocksAt (o ++ m :: c)) : ∃ d, B.place = o ++ d := by
  induction c using reverseRecOn generalizing n with
  | nil =>
    rcases (mem_blocksAt_concat ho ha).mp hB with ⟨rfl, -⟩ | hB
    · exact ⟨[], by simp⟩
    · cases hB
  | append_singleton c j ih =>
    have hplace : o ++ m :: (c ++ [j]) = (o ++ m :: c) ++ [j] := by simp
    rw [hplace] at ha hB
    have ha' := ha
    rw [at?_concat] at ha'
    obtain ⟨k, hk, -⟩ := Option.bind_eq_some_iff.mp ha'
    rcases (mem_blocksAt_concat hk ha).mp hB with ⟨hB, -⟩ | hB
    · exact ⟨m :: c, hB⟩
    · exact ih hk (seen_subset k hB)

/-- The place is that of item `m` of the unit at `o`, which is no module, or lies below it; of a variable it is not in
the handler. -/
structure Inside (q : Program) (o : List Nat) (m : Nat) (a : List Nat) : Prop where
  unit : ∃ u, (Node.unit q).at? o = some (.unit u)
  item : ∃ i, (Node.unit q).at? (o ++ [m]) = some (.item i) ∧
    ∀ l aliasName path symbol p, i ≠ .module l aliasName path symbol p
  place : ∃ c, a = o ++ m :: c
  node : ∃ n, (Node.unit q).at? a = some n
  outside : ∀ l d, (Node.unit q).at? (o ++ [m]) = some (.item (.var l d)) → ¬ q.InHandler (o ++ [m]) a

lemma place_eq_of_mem_blocksAt {o' : List Nat} {w : Program} (ho : (unit q).at? o = some (.unit w))
    (hi : (unit q).at? (o ++ [m]) = some (.item i))
    (hmod : ∀ l aliasName path symbol p, i ≠ .module l aliasName path symbol p)
    (ha : (unit q).at? (o ++ m :: c) = some n) (ho' : (unit q).at? o' = some (.unit u))
    (hB : ⟨o', 0⟩ ∈ q.blocksAt (o ++ m :: c)) : o' = o := by
  obtain ⟨d, hd⟩ : ∃ d, o' = o ++ d := place_of_mem_blocksAt_unit ho ha hB
  obtain ⟨j, e, he⟩ : ∃ j e, o ++ m :: c = o' ++ j :: e := place_of_mem_blocksAt ha hB
  subst hd
  cases d with
  | nil => simp
  | cons k d =>
    -- Below the item stands no unit.
    have he : m :: c = k :: (d ++ j :: e) := by simpa using he
    obtain rfl := (cons.inj he).1
    rw [append_cons, at?_append, hi, Option.bind_some] at ho'
    obtain ⟨l, aliasName, path, symbol, r, -, rfl, -⟩ := module_of_unit_at? ho'
    exact absurd rfl (hmod l aliasName path symbol r)

lemma Inside.place_eq (h : q.Inside o m a) {o' : List Nat} (ho' : (Node.unit q).at? o' = some (.unit u))
    (hB : ⟨o', 0⟩ ∈ q.blocksAt a) : o' = o := by
  obtain ⟨w, ho⟩ := h.unit
  obtain ⟨c, rfl⟩ := h.place
  obtain ⟨n, ha⟩ := h.node
  obtain ⟨i, hi, hmod⟩ := h.item
  exact place_eq_of_mem_blocksAt ho hi hmod ha ho' hB

lemma Inside.child {n'} (h : q.Inside o m a) (ha : (Node.unit q).at? a = some n)
    (hc : (Node.unit q).at? (a ++ [j]) = some n') (hn : ∀ l e handler, n = .expr (.guarded l e handler) → j = 0) :
    q.Inside o m (a ++ [j]) where
  unit := h.unit
  item := h.item
  place := by
    obtain ⟨c, rfl⟩ := h.place
    exact ⟨c ++ [j], by simp⟩
  node := ⟨n', hc⟩
  outside l d hv := by
    rintro ⟨d', l', e, handler, i, c', hd', hi, he⟩
    refine h.outside l d hv ?_
    rcases eq_nil_or_concat c' with rfl | ⟨c'', k, rfl⟩
    · -- The last step would lead from the guarded value into the handler.
      have he : a ++ [j] = (o ++ [m] ++ [0, (ofRange? d'.range).length]) ++ [i + 1] := by simpa using he
      obtain ⟨rfl, hj⟩ := append_inj' he rfl
      cases hj
      have hval : (Node.unit q).at? (o ++ [m] ++ [0, (ofRange? d'.range).length]) =
          some (.expr (.guarded l' e handler)) := by
        rw [append_cons, at?_concat, hd', Option.bind_some, children, hi,
          getElem?_append_right le_rfl, Nat.sub_self]
        rfl
      cases ha.symm.trans hval
      cases hn _ _ _ rfl
    · have he : a ++ [j] = (o ++ [m] ++ 0 :: (ofRange? d'.range).length :: (i + 1) :: c'') ++ [k] := by
        simpa using he
      obtain ⟨rfl, -⟩ := append_inj' he rfl
      exact ⟨d', l', e, handler, i, c'', hd', hi, rfl⟩

section

variable {F : List (ScopeId × Block)} {t : SymbolTable} {blockOf : ScopeId → Block} {name : String}
  (hp : p.Read) (h : p.resolveNames = (q, .ok t)) (ht : t.Sound) (hq : (Node.unit q).UnitsResolved F t [])
  (hF : ∀ f ∈ F, blockOf f.1 = f.2)

include hp h ht hq hF

lemma Declares.symbol_eq {since} (hd : q.Declares B since x) (hid : x.symbol = some id) :
    (t.get id).name = x.name.text ∧ t.kind id = x.kind ∧ blockOf (t.get id).scope = B := by
  have hu := hp.unnumbered
  obtain ⟨xs, hxs, hdecl⟩ := declared_of_declares hu h hq hd (by simp [hid])
  exact hdecl.symbol_eq ht hF hxs hid

lemma symbol_of_item {j : Nat} (ho : (unit q).at? o = some (.unit u))
    (hi : u.items[j]? = some i) (hid : i.symbol? = some id) :
    ∃ x, i.ownBinder? = some x ∧ x.symbol = some id ∧ (t.get id).name = x.name.text ∧ t.kind id = x.kind ∧
      blockOf (t.get id).scope = ⟨o, 0⟩ := by
  obtain ⟨x, hx, hxid⟩ := Item.exists_ownBinder hid
  exact ⟨x, hx, hxid, (declares_of_item ho hi hx).symbol_eq hp h ht hq hF hxid⟩

lemma Inside.ahead_of_inSight (hin : q.Inside o m a) (hs : q.InSight t blockOf a name id)
    (hb : (Node.unit q).at? b = some (.item i)) (hid : i.symbol? = some id) : i.Ahead o m b := by
  have hu := hp.unnumbered
  obtain ⟨o', j, u, rfl, ho', hi⟩ := unit_above_item hb
  obtain ⟨x, hx, hxid, hname, hkind, hblock⟩ := symbol_of_item hp h ht hq hF ho' hi hid
  have hd := declares_of_item ho' hi hx
  obtain ⟨ss, hss, ⟨-, hbuiltin⟩ | ⟨hmem, y, ⟨since, hy, hsince⟩, hyn, hst⟩⟩ := hs
  · exact absurd (hkind.symm.trans hbuiltin) hd.kind_ne_builtin
  have hB : ⟨o', 0⟩ ∈ q.blocksAt a := by
    rw [← hss.1, ← hblock]
    exact mem_map_of_mem hmem
  obtain rfl := hin.place_eq ho' hB
  have hyid : y.symbol = some id :=
    hst.2.resolve_right fun hv => Item.ownBinder_kind_ne hx (hkind.symm.trans (hst.1.trans hv.1))
  have hyname := ((hy.symbol_eq hp h ht hq hF hyid).1.symm.trans hname)
  rw [hblock] at hy
  obtain ⟨rfl, -⟩ := declares_unique hu h hq hy hd (by simp [hyid]) (by simp [hxid]) hyname
  refine .inl ⟨j, rfl, ?_⟩
  cases hz : (Node.item i).binder? with
  | none => exact .inl rfl
  | some z =>
    refine .inr ?_
    obtain ⟨hlt, hpre⟩ := hsince (o' ++ [j]) (by rw [hz]; rfl)
    obtain ⟨c, rfl⟩ := hin.place
    rw [append_lt_append_iff, cons_lt_cons_iff] at hlt
    rcases hlt with hlt | ⟨rfl, -⟩
    · exact hlt
    · -- The item itself is in force only in its handler.
      have hh := hpre ⟨c, by simp⟩
      cases i with
      | var l d => exact absurd hh (hin.outside l d hb)
      | aliasDecl l name e symbol =>
        obtain ⟨d, _, _, _, _, _, hd, -⟩ := hh
        rw [at?_concat, hb] at hd
        cases hd
      | _ => cases hz

end

end Program

/-- The name that a chain of members begins with. -/
def Expr.root? : Expr → Option Reference
  | .name _ r => some r
  | .member _ o _ _ => o.root?
  | _ => none

lemma Expr.rootInduct {P : Expr → Prop} (name : ∀ l r, P (.name l r))
    (member : ∀ l object x symbol, P object → P (.member l object x symbol))
    (other : ∀ e : Expr, e.symbol? = none → e.root? = none → P e) (e : Expr) : P e := by
  induction e using root?.induct with
  | case1 l r => exact name l r
  | case2 l object x symbol ih => exact member l object x symbol ih
  | case3 e hname hmember =>
    cases e with
    | name l r => exact absurd rfl (hname l r)
    | member l object x symbol => exact absurd rfl (hmember l object x symbol)
    | _ => exact other _ rfl rfl

lemma Expr.root?_mem_nodes {e : Expr} {r} (h : e.root? = some r) :
    ∃ l, expr (.name l r) ∈ (expr e).nodes := by
  induction e using rootInduct with
  | name l r' =>
    cases h
    exact ⟨l, mem_nodes_self⟩
  | member l o x symbol ih =>
    obtain ⟨l', hl⟩ := ih h
    exact ⟨l', mem_nodes_iff.mpr (.inr ⟨_, mem_singleton_self _, hl⟩)⟩
  | other e _ hroot => cases hroot.symm.trans h

namespace Program

variable {p q : Program} {a c : List Nat} {m : Nat} {i : Item} {e : Expr} {id : SymbolId}
  {F : List (ScopeId × Block)} {t : SymbolTable} {blockOf : ScopeId → Block}

/-- What the expression begins with is in sight from inside item `m` of the unit at `o`. -/
def RootsIn (q : Program) (t : SymbolTable) (blockOf : ScopeId → Block) (o : List Nat) (m : Nat) (e : Expr) : Prop :=
  ∀ r id, e.root? = some r → r.symbol = some id → ∃ a, q.Inside o m a ∧ q.InSight t blockOf a r.name.text id

section

variable (hp : p.Read) (h : p.resolveNames = (q, .ok t)) (ht : t.Sound) (hq : (Node.unit q).UnitsResolved F t [])
  (hF : ∀ f ∈ F, blockOf f.1 = f.2) {l : Location} {k : SymbolId}

include hp h hq hF in
lemma Inside.rootsIn (hin : q.Inside o m a) (ha : (Node.unit q).at? a = some (.expr e)) :
    q.RootsIn t blockOf o m e := by
  intro r id hr hid
  induction e using Expr.rootInduct generalizing a with
  | name l r' =>
    cases hr
    exact ⟨a, hin, ((denotes_iff ha).mp (hp.name_found h hq hF ha hid).2).1⟩
  | member l e x symbol ih =>
    have hc : (Node.unit q).at? (a ++ [0]) = some (.expr e) := at?_child ha rfl
    exact ih (hin.child ha hc nofun) hc hr
  | other e _ hroot => cases hroot.symm.trans hr

include hp h ht in
lemma Read.module_of_member {object : Expr} {name : Name}
    (ha : (unit q).at? a = some (.expr (.member l object name (some id))))
    (hopen : (t.scope (t.get id).scope).kind ≠ .members) :
    ∃ k s, object.symbol? = some k ∧ t.kind k = .moduleAlias ∧ (t.get k).members = some s ∧
      (name.text, id) ∈ (t.scope s).names := by
  obtain ⟨k, s, hs, hn, hk⟩ := hp.member_named h ha
  rw [(ht.get_named hn).2, (membersScoped h k s hs).2] at hopen
  have hmod : t.kind k = .moduleAlias := by
    by_contra hne
    exact hopen (if_neg hne)
  refine ⟨k, s, hk.resolve_left fun hc => ?_, hmod, hs, hn⟩
  cases hmod.symm.trans hc

include hp h ht hq hF in
lemma item_of_member {aliasName : Name} {path name : String} {s : ScopeId}
    (hb : (unit q).at? b = some (.item (.module l aliasName path (some k) u))) (hs : (t.get k).members = some s)
    (hn : (name, id) ∈ (t.scope s).names) (hv : t.kind id ≠ .variant) :
    ∃ j i, (unit q).at? (b ++ [0, j]) = some (.item i) ∧ i.symbol? = some id ∧
      blockOf (t.get id).scope = ⟨b ++ [0], 0⟩ := by
  obtain ⟨i, hi, hid⟩ := (item_of_module_member h hb hs hn).resolve_left hv
  obtain ⟨j, hj⟩ := getElem?_of_mem hi
  have hu : (unit q).at? (b ++ [0]) = some (.unit u) := at?_child hb rfl
  obtain ⟨-, -, -, -, -, hblock⟩ := symbol_of_item hp h ht hq hF hu hj hid
  exact ⟨j, i, by simpa using at?_item hu hj, hid, hblock⟩

variable (hroots : q.RootsIn t blockOf o m e) (ha : (Node.unit q).at? a = some (.expr e))

include hroots ha

include hp h ht hq hF in
lemma RootsIn.exists_module (hk : e.symbol? = some k) (hmod : t.kind k = .moduleAlias) :
    ∃ b l aliasName path u, (unit q).at? b = some (.item (.module l aliasName path (some k) u)) ∧
      (Item.module l aliasName path (some k) u).Ahead o m b := by
  induction e using Expr.rootInduct generalizing a k with
  | name l r =>
    obtain ⟨a0, hin, hsight⟩ := hroots r k rfl hk
    obtain ⟨-, -, ⟨-, hbuiltin⟩ | ⟨-, y, ⟨since, hy, -⟩, -, hst⟩⟩ := id hsight
    · cases hmod.symm.trans hbuiltin
    have hkind : y.kind = .moduleAlias := hst.1.symm.trans hmod
    have hyk : y.symbol = some k := hst.2.resolve_right fun hv => by cases hkind.symm.trans hv.1
    cases hy with
    | header hn hy =>
      rcases mem_header hy with hparam | ⟨u, i, rfl, -, hi, hy⟩
      · cases hkind.symm.trans hparam
      obtain ⟨j, hj⟩ := getElem?_of_mem hi
      have hb := at?_item hn hj
      cases i with
      | module l aliasName path symbol u =>
        cases mem_singleton.mp hy
        cases hyk
        exact ⟨_, l, aliasName, path, u, hb, hin.ahead_of_inSight hp h ht hq hF hsight hb rfl⟩
      | _ => simp only [Item.binders, mem_cons, mem_map, not_mem_nil, or_false] at hy <;> grind
    | behind _ hz => rcases kind_of_binder? hz with hvar | hvar <;> cases hkind.symm.trans hvar
  | member l object x symbol ih =>
    cases hk
    have hopen := (outerOpen h k (by rw [hmod]; rfl)).2
    obtain ⟨k', s, hk', hmod', hs, hn⟩ := hp.module_of_member h ht ha hopen
    have hobject : (unit q).at? (a ++ [0]) = some (.expr object) := at?_child ha rfl
    obtain ⟨b, l', aliasName, path, u, hb, hahead⟩ := ih hroots hobject hk' hmod'
    obtain ⟨j, i, hj, hid, -⟩ := item_of_member hp h ht hq hF hb hs hn (by simp [hmod])
    obtain ⟨o', j', w, hplace, ho', hi⟩ := unit_above_item hj
    obtain ⟨x, hx, hxid, -, hkind, -⟩ := symbol_of_item hp h ht hq hF ho' hi hid
    obtain ⟨l2, aliasName₂, path2, u2, rfl⟩ := Item.eq_module hx (hkind.symm.trans hmod) hxid
    exact ⟨_, l2, aliasName₂, path2, u2, hj, hahead.below [j]⟩
  | other e hsymbol _ => cases hsymbol.symm.trans hk

include hp h ht hq hF in
lemma RootsIn.ahead (he : e.symbol? = some id) (hb : (unit q).at? b = some (.item i)) (hid : i.symbol? = some id)
    (hglobal : t.isGlobal id) : i.Ahead o m b := by
  cases e with
  | name l r =>
    obtain ⟨a0, hin, hsight⟩ := hroots r id rfl he
    exact hin.ahead_of_inSight hp h ht hq hF hsight hb hid
  | member l object name symbol =>
    cases he
    obtain ⟨o', j, u, rfl, ho', hi⟩ := unit_above_item hb
    obtain ⟨x, hx, -, -, hkind, hblock⟩ := symbol_of_item hp h ht hq hF ho' hi hid
    obtain ⟨k, s, hk, hmod, hs, hn⟩ := hp.module_of_member h ht ha (SymbolTable.kind_ne_members hglobal)
    have hobject : (unit q).at? (a ++ [0]) = some (.expr object) := at?_child ha rfl
    have hroots : q.RootsIn t blockOf o m object := hroots
    obtain ⟨b, l', aliasName, path, w, hb', hahead⟩ := hroots.exists_module hp h ht hq hF hobject hk hmod
    obtain ⟨-, -, -, -, hblock'⟩ := item_of_member hp h ht hq hF hb' hs hn (hkind ▸ Item.ownBinder_kind_ne hx)
    -- Both the item and the module's member are declared in the scope of one unit.
    obtain rfl : o' = b ++ [0] := congrArg Block.place (hblock.symm.trans hblock')
    simpa using hahead.below (i := i) [j]
  | _ => cases he

end

end Program

end SketchCompiler
