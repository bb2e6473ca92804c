import Mathlib.Data.List.Perm.Subperm
import SketchCompiler.Proofs.Findings
import SketchCompiler.Proofs.TableSteps
import SketchCompiler.Proofs.UnreadNames

namespace SketchCompiler

open SpotPart SymbolTable List

variable {s : ScopeId} {top : Bool}

/-- A name with a number that is no parameter; `top` tells whether it stands on top of a unit. -/
structure Declaration where
  id : SymbolId
  top : Bool
deriving DecidableEq

def Binder.declaration? (top : Bool) (x : Binder) : Option Declaration :=
  if x.kind = .param then none else x.symbol.map (⟨·, top⟩)

def VarDecl.declaration? (top : Bool) (d : VarDecl) : Option Declaration := d.symbol.map (⟨·, top⟩)

@[simp]
lemma VarDecl.declaration?_binder (top : Bool) (d : VarDecl) : d.binder.declaration? top = d.declaration? top := by
  simp only [Binder.declaration?, binder]
  split <;> rfl

@[simp]
lemma VarDecl.declaration?_memberBinder (top : Bool) (d : VarDecl) :
    d.memberBinder.declaration? top = d.declaration? top := by
  simp only [Binder.declaration?, memberBinder]
  split <;> rfl

def innerDeclarations (ds : List VarDecl) : List Declaration := ds.filterMap (·.declaration? false)

@[simp]
lemma innerDeclarations_nil : innerDeclarations [] = [] := rfl

@[simp]
lemma innerDeclarations_append (ds es : List VarDecl) :
    innerDeclarations (ds ++ es) = innerDeclarations ds ++ innerDeclarations es := filterMap_append

lemma innerDeclarations_flatMap {α : Type} (f : α → List VarDecl) (as : List α) :
    innerDeclarations (as.flatMap f) = as.flatMap fun a => innerDeclarations (f a) := filterMap_flatMap

lemma innerDeclarations_eq_nil {ds} (h : ∀ d ∈ ds, d.symbol = none) : innerDeclarations ds = [] := by
  rw [innerDeclarations, filterMap_eq_nil_iff]
  exact fun d hd => by simp [VarDecl.declaration?, h d hd]

def VarDecl.declarations (top : Bool) (d : VarDecl) : List Declaration :=
  (d.declaration? top).toList ++ innerDeclarations (rangeVars? d.range ++ exprVars? d.initializer)

lemma VarDecl.declarations_false (d : VarDecl) : d.declarations false = innerDeclarations d.vars := by
  obtain ⟨_, _, _, _, _, symbol⟩ := d
  rw [VarDecl.vars, innerDeclarations, filterMap_cons]
  cases symbol <;> rfl

mutual

def Item.declarations : Item → List Declaration
  | .var _ d => d.declarations true
  | .module _ _ _ _ program => program.declarations
  | item => innerDeclarations item.vars

def itemsDeclarations : List Item → List Declaration
  | [] => []
  | i :: is => i.declarations ++ itemsDeclarations is

def Program.declarations : Program → List Declaration
  | ⟨_, _, items⟩ => itemsDeclarations items

end

lemma itemsDeclarations_eq (items : List Item) : itemsDeclarations items = items.flatMap Item.declarations := by
  induction items with
  | nil => rfl
  | cons i is ih => rw [itemsDeclarations, ih, flatMap_cons]

namespace SymbolTable

structure Has (t : SymbolTable) (d : Declaration) : Prop where
  lt : d.id < t.symbols.size
  scope_lt : (t.get d.id).scope < t.scopes.size
  isGlobal_eq : t.isGlobal d.id = d.top
  kind_ne : t.kind d.id ≠ .param

variable {t u v : SymbolTable} {ds es : List Declaration}

lemma Has.mono {d} (h : t.Has d) (hu : t.Extends u) : u.Has d where
  lt := h.lt.trans_le hu.symbols_le
  scope_lt := by
    rw [hu.scope_eq h.lt]
    exact h.scope_lt.trans_le hu.scopes_le
  isGlobal_eq := by
    rw [SymbolTable.isGlobal_eq, hu.scope_eq h.lt, hu.isTop_eq h.scope_lt, ← h.isGlobal_eq, SymbolTable.isGlobal_eq]
  kind_ne := by
    rw [hu.kind_eq h.lt]
    exact h.kind_ne

/-- The scope is in the table, and is on top of a unit or not. -/
def Level (t : SymbolTable) (s : ScopeId) (top : Bool) : Prop := s < t.scopes.size ∧ t.isTop s = top

lemma Level.mono (h : t.Level s top) (hu : t.Extends u) : u.Level s top :=
  ⟨h.1.trans_le hu.scopes_le, (hu.isTop_eq h.1).trans h.2⟩

lemma level_push (t : SymbolTable) (x : Scope) :
    Level { t with scopes := t.scopes.push x } t.scopes.size x.kind.isUnit :=
  ⟨by simp, by rw [isTop, scope_push_size]⟩

/-- From `t` to `u` the table gets the declarations, under different numbers. -/
structure Numbers (t : SymbolTable) (ds : List Declaration) (u : SymbolTable) : Prop extends t.Extends u where
  nodup : (ds.map (·.id)).Nodup
  new : ∀ d ∈ ds, t.symbols.size ≤ d.id
  has : ∀ d ∈ ds, u.Has d

namespace Numbers

lemma of_extends (h : t.Extends u) : t.Numbers [] u := ⟨h, nodup_nil, nofun, nofun⟩

lemma trans (h : t.Numbers ds u) (h' : u.Numbers es v) : t.Numbers (ds ++ es) v where
  toExtends := h.toExtends.trans h'.toExtends
  nodup := by
    rw [map_append, nodup_append]
    refine ⟨h.nodup, h'.nodup, ?_⟩
    simp only [mem_map]
    rintro _ ⟨d, hd, rfl⟩ _ ⟨e, he, rfl⟩
    exact (Nat.lt_of_lt_of_le (h.has d hd).lt (h'.new e he)).ne
  new := forall_mem_append.mpr ⟨h.new, fun e he => h.symbols_le.trans (h'.new e he)⟩
  has := forall_mem_append.mpr ⟨fun d hd => (h.has d hd).mono h'.toExtends, h'.has⟩

lemma after (h : t.Extends u) (h' : u.Numbers ds v) : t.Numbers ds v := (of_extends h).trans h'

lemma before (h : t.Numbers ds u) (h' : u.Extends v) : t.Numbers ds v := ds.append_nil ▸ h.trans (of_extends h')

lemma subperm (h : t.Numbers ds u) (hs : es.Subperm ds) : t.Numbers es u := by
  obtain ⟨l, hp, hl⟩ := hs
  have hmem {d : Declaration} (hd : d ∈ es) : d ∈ ds := hl.subset (hp.mem_iff.mpr hd)
  exact ⟨h.toExtends, ((hp.map _).nodup_iff).mp (h.nodup.sublist (hl.map _)), fun d hd => h.new d (hmem hd),
    fun d hd => h.has d (hmem hd)⟩

lemma declare {x : Binder} {type} {id}
    (hd : t.declare { name := x.name.text, kind := x.kind, type, scope := s } = .ok (u, id)) (hs : t.Level s top)
    (hx : x.symbol = some id ∨ x.symbol = none) : t.Numbers (x.declaration? top).toList u := by
  obtain ⟨he, hid, hsize, hget⟩ := extends_declare hd
  by_cases hk : x.kind = .param
  · rw [Binder.declaration?, if_pos hk]
    exact .of_extends he
  rw [Binder.declaration?, if_neg hk]
  rcases hx with hx | hx
  · rw [hx]
    refine ⟨he, nodup_singleton _, forall_mem_singleton.mpr (hid.symm.le), forall_mem_singleton.mpr ⟨?_, ?_, ?_, ?_⟩⟩
    · exact hsize ▸ Nat.lt_succ_self _
    · rw [hget]
      exact (hs.mono he).1
    · rw [SymbolTable.isGlobal_eq, hget, (hs.mono he).2]
    · rwa [SymbolTable.kind, hget]
  · rw [hx]
    exact .of_extends he

end Numbers

end SymbolTable

/-- The variables that are numbered at a spot or below; `top` tells whether the spot stands on top of a unit. -/
def Spot.declarations (top : Bool) : Spot → List Declaration
  | node (.item (.var _ d)) | node (.stmt (.var _ d)) | declared d => d.declarations top
  | node (.item (.classDecl _ d)) => d.fields.flatMap (fun f => innerDeclarations (exprVars? f.value.initializer)) ++
      innerDeclarations ((d.constructor.map (blockVars ·.body)).getD []) ++
      d.methods.flatMap fun m => innerDeclarations (blockVars m.value.body)
  | node (.item (.config ..)) | node (.item (.module ..)) | node (.unit _) | node (.var _) | unread _ => []
  | node n => innerDeclarations n.vars
  | field d => innerDeclarations (exprVars? d.initializer)
  | guarded _ e handler x => (x.declaration? top).toList ++ innerDeclarations (e.vars ++ blockVars handler)

/-- What stands in a block of the parts is not on top. -/
def SpotPart.partsDeclarations (top : Bool) (ps : List SpotPart) : List Declaration :=
  (partsSlots ps).flatMap fun y => y.2.declarations (top && y.1.isEmpty)

section Parts

@[simp]
lemma partsDeclarations_nil : partsDeclarations top [] = [] := rfl

@[simp]
lemma partsDeclarations_append (ps qs : List SpotPart) :
    partsDeclarations top (ps ++ qs) = partsDeclarations top ps ++ partsDeclarations top qs := by
  simp [partsDeclarations]

@[simp]
lemma partsDeclarations_child (x : Spot) (ps : List SpotPart) :
    partsDeclarations top (child x :: ps) = x.declarations top ++ partsDeclarations top ps := by
  simp [partsDeclarations, partsSlots, slots]

@[simp]
lemma partsDeclarations_block (number : Nat) (kind : ScopeKind) (header : List Binder) (parts ps : List SpotPart) :
    partsDeclarations top (block number kind header parts :: ps) =
      partsDeclarations false parts ++ partsDeclarations top ps := by
  simp [partsDeclarations, partsSlots, slots, flatMap_map]

@[simp]
lemma Spot.declarations_expr (e : Expr) : (node (.expr e)).declarations top = innerDeclarations e.vars := rfl

@[simp]
lemma Spot.declarations_stmt (s : Stmt) : (node (.stmt s)).declarations false = innerDeclarations s.vars := by
  cases s with
  | var l d => exact d.declarations_false
  | _ => rfl

end Parts

section Spots

open Node

/-- All variables at or below the node are below its children, and none of them stands on top. -/
def Node.isSimple : Node → Bool
  | unit _ | var _ | item (.config ..) | item (.module ..) | item (.var ..) | item (.classDecl ..) | stmt (.var ..) =>
    false
  | _ => true

/-- The slot does not stand on top, or has no variable of its own. -/
def Spot.Within (top : Bool) (y : List Nat × Spot) : Prop :=
  y.2.declarations (top && y.1.isEmpty) = innerDeclarations y.2.toNode.vars

lemma Spot.within_expr (ks : List Nat) (e : Expr) : Within top (ks, node (expr e)) := rfl

lemma Spot.within_stmt (k : Nat) (ks : List Nat) (s : Stmt) : Within top (k :: ks, node (stmt s)) := by
  simp [Within, vars]

lemma Node.within_slots {n : Node} (hn : n.isSimple) : ∀ y ∈ (Spot.node n).slots, Spot.Within top y := by
  cases n with
  | unit | var => cases hn
  | item i =>
    cases i with
    | config | module | var | classDecl => cases hn
    | _ =>
      simp only [Spot.slots, Spot.before, Spot.after, SpotPart.slots, partsSlots, children, partsSlots_append,
        partsSlots_ofNodes, slots_ofBody, forall_mem_append, forall_mem_map, forall_mem_cons]
      grind [Spot.within_expr, Spot.within_stmt, mem_ofExpr?]
  | stmt s =>
    cases s with
    | var => cases hn
    | _ =>
      simp only [Spot.slots, Spot.before, Spot.after, SpotPart.slots, partsSlots, children, partsSlots_append,
        partsSlots_ofNodes, partsSlots_map, slots_ofBody, partsSlots_ofBranches, partsSlots_ofArms,
        forall_mem_append, forall_mem_map, forall_mem_flatMap, map_append, forall_mem_cons]
      grind [Spot.within_expr, Spot.within_stmt, mem_ofExpr?, mem_ofStmt?, mem_ofPattern]
  | expr e =>
    cases e <;> simp [Spot.slots, Spot.before, Spot.after, SpotPart.slots, partsSlots, children, Spot.within_expr,
      Spot.within_stmt]

lemma Spot.declarations_simple {n : Node} (hn : n.isSimple) : (node n).declarations top =
    partsDeclarations top (node n).before ++ partsDeclarations top (node n).after := by
  have hd : (node n).declarations top = innerDeclarations n.vars := by
    cases n with
    | unit | var => cases hn
    | item i => cases i <;> first | rfl | cases hn
    | stmt s => cases s <;> first | rfl | cases hn
    | expr e => rfl
  have hv : n.var? = none := by cases n <;> first | rfl | cases hn
  rw [← partsDeclarations_append, hd, vars_eq, hv, Option.toList_none, nil_append,
    ← toNode_node n, ← (slots_of_isRead (x := node n) rfl).1, innerDeclarations_flatMap, flatMap_map]
  exact (flatMap_congr fun y hy => n.within_slots hn y hy).symm

@[simp]
lemma partsDeclarations_ofExpr? (e : Option Expr) :
    partsDeclarations top (ofNodes (ofExpr? e)) = innerDeclarations (exprVars? e) := by
  cases e <;> simp [ofExpr?, ofNodes, exprVars?]

@[simp]
lemma partsDeclarations_ofRange? (r : Option Range) :
    partsDeclarations top (ofNodes (ofRange? r)) = innerDeclarations (rangeVars? r) := by
  rcases r with _ | ⟨min, max⟩ <;> simp [ofRange?, ofNodes, rangeVars?]

@[simp]
lemma partsDeclarations_ofBody (number : Nat) (kind : ScopeKind) (header : List Binder) (body : List Stmt)
    (ps : List SpotPart) : partsDeclarations top (ofBody number kind header body :: ps) =
      innerDeclarations (blockVars body) ++ partsDeclarations top ps := by
  rw [blockVars_eq, innerDeclarations_flatMap, ofBlock, flatMap_map]
  simp [partsDeclarations, partsSlots, vars, flatMap_map]

lemma partsDeclarations_map {α : Type} (f : α → SpotPart) (as : List α) :
    partsDeclarations top (as.map f) = as.flatMap fun a => partsDeclarations top [f a] := by
  simp [partsDeclarations, partsSlots, flatMap_assoc]

attribute [local simp] Spot.declarations Spot.before Spot.after Spot.binder?

lemma Spot.declarations_subperm (x : Spot) : (x.declarations top).Subperm (partsDeclarations top x.before ++
    ((x.binder?.bind (·.declaration? top)).toList ++ partsDeclarations top x.after)) := by
  have plain {x : Spot} (h : x.declarations top = partsDeclarations top x.before) : (x.declarations top).Subperm
      (partsDeclarations top x.before ++ ((x.binder?.bind (·.declaration? top)).toList ++
        partsDeclarations top x.after)) := h ▸ (sublist_append_left ..).subperm
  cases x with
  | node n =>
    by_cases hn : n.isSimple
    · rw [declarations_simple hn]
      exact (List.Sublist.append_left (sublist_append_right ..) _).subperm
    · cases n with
      | unit | var => exact nil_subperm
      | item i =>
        cases i with
        | config | module => exact nil_subperm
        | var l d => exact plain (by simp)
        | classDecl l d =>
          refine plain ?_
          have hm := flatMap_zipIdx (fun m => innerDeclarations (blockVars m.value.body)) d.methods 1
          cases hk : d.constructor <;>
            simp [hk, ofMethods, partsDeclarations_map, hm]
        | _ => cases hn rfl
      | stmt s =>
        cases s with
        | var l d => exact plain (by simp)
        | _ => cases hn rfl
      | expr e => cases hn rfl
  | declared d =>
    refine List.Perm.subperm ?_
    by_cases hg : ∃ l e handler, d.initializer = some (.guarded l e handler)
    · obtain ⟨l, e, handler, hg⟩ := hg
      simpa [VarDecl.declarations, exprVars?, Expr.vars, hg] using
        perm_append_comm_assoc (d.declaration? top).toList (innerDeclarations (rangeVars? d.range)) _
    · obtain ⟨hb, hx⟩ := declared_plain (d := d) (by simpa using hg)
      rw [hb, hx]
      simpa [VarDecl.declarations] using (perm_append_comm : ((d.declaration? top).toList
        ++ (innerDeclarations (rangeVars? d.range) ++ innerDeclarations (exprVars? d.initializer))).Perm _)
  | field d => exact plain (by simp [partsDeclarations_map])
  | guarded l e handler x =>
    simpa [vars] using
      (perm_append_comm_assoc (x.declaration? top).toList (innerDeclarations e.vars) _).subperm
  | unread n => exact nil_subperm

end Spots

lemma Binds.numbers {t u : SymbolTable} {xs : List Binder} (h : Binds s t xs u)
    (hs : t.Level s top) : t.Numbers (xs.filterMap (·.declaration? top)) u := by
  induction h with
  | nil => exact .of_extends (.refl _)
  | @cons t u v x xs id type hd hx _ ih =>
    have hn := Numbers.declare hd hs (.inl hx)
    rw [filterMap_cons]
    cases hd : x.declaration? top <;> simpa [hd] using hn.trans (ih (hs.mono hn.toExtends))

lemma Walk.numbers {o} {t u : SymbolTable} {ps}
    (h : Walk o s t ps u) (hp : ∀ p ∈ ps, p.Inner) (hs : t.Level s top) : t.Numbers (partsDeclarations top ps) u := by
  induction h generalizing top with
  | nil => exact .of_extends (.refl _)
  | @child o s t a b c u x ps _ _ hd _ _ hb ha ih =>
    obtain ⟨hx, hps⟩ := forall_mem_cons.mp hp
    have h1 := hb (Spot.inner_before (inner_child.mp hx)) hs
    have h2 := h1.trans (hd.numbers (hs.mono h1.toExtends))
    have h3 := h2.trans (ha x.inner_after (hs.mono h2.toExtends))
    rw [partsDeclarations_child]
    refine (h3.subperm ?_).trans (ih hps (hs.mono h3.toExtends))
    have hbinder : x.binder?.toList.filterMap (·.declaration? top) = (x.binder?.bind (·.declaration? top)).toList := by
      cases x.binder? with
      | none => rfl
      | some y => cases h : y.declaration? top <;> simp [h]
    rw [hbinder, append_assoc]
    exact x.declarations_subperm
  | @block o s t t1 t2 u number kind header parts ps hd _ _ hb ih =>
    obtain ⟨hblock, hps⟩ := forall_mem_cons.mp hp
    obtain ⟨hk, hparts⟩ := inner_block.mp hblock
    have hlevel : (t.pushScope s kind).1.Level t.scopes.size false := by
      have hunit : kind.isUnit = false := by cases kind <;> first | rfl | cases hk
      exact hunit ▸ t.level_push _
    have hheader := hd.numbers hlevel
    have hbody := hb hparts (hlevel.mono hheader.toExtends)
    have hnested := Numbers.after ((t.extends_push _).trans hheader.toExtends) hbody
    rw [partsDeclarations_block]
    exact hnested.trans (ih hps (hs.mono hnested.toExtends))

lemma Declares.numbers {m} {t u : SymbolTable} {xs : List (Bool × Binder)} (h : Declares s m t xs u)
    (hm : t.Level m false) (hx : ∀ x, (true, x) ∈ xs → x.symbol = none) :
    t.Numbers (xs.filterMap (·.2.declaration? false)) u := by
  induction h with
  | nil => exact .of_extends (.refl _)
  | @cons t u v beside x xs id type hd hi _ ih =>
    have hn : t.Numbers (x.declaration? false).toList u := by
      cases beside with
      | false => exact .declare hd hm hi
      | true =>
        have hnone : x.declaration? false = none := by simp [Binder.declaration?, hx x mem_cons_self]
        exact hnone ▸ .of_extends (extends_declare hd).1
    have hxs := ih (hm.mono hn.toExtends) fun y hy => hx y (mem_cons_of_mem _ hy)
    rw [filterMap_cons]
    cases hd : x.declaration? false <;> simpa [hd] using hn.trans hxs

/-- What is numbered before a unit is walked over: members of classes, and what stands in modules. -/
def Item.hoisted : Item → List Declaration
  | .module _ _ _ _ program => program.declarations
  | i => i.members.filterMap (·.2.declaration? false)

lemma Item.Kept.hoisted_eq {i i' : Item} (h : i.Kept i') : i'.hoisted = i.hoisted := by
  by_cases hm : ∃ l aliasName path symbol p, i = .module l aliasName path symbol p
  · obtain ⟨l, aliasName, path, symbol, p, rfl⟩ := hm
    rw [h.module_iff.mpr rfl]
  · have hne {i : Item} (hi : ∀ l aliasName path symbol p, i ≠ .module l aliasName path symbol p) :
        i.hoisted = i.members.filterMap (·.2.declaration? false) := by
      cases i <;> first | rfl | exact absurd rfl (hi _ _ _ _ _)
    rw [hne fun l aliasName path symbol p hi => hm ⟨_, _, _, _, _, hi⟩,
      hne fun l aliasName path symbol p hi => hm ⟨_, _, _, _, _, h.module_iff.mp hi⟩, h.members_eq]

/-- Nothing has a number at the places where names are not read. -/
def Program.Silent (p : Program) : Prop := ∀ n ∈ p.unread, ∀ d ∈ n.vars, d.symbol = none

lemma Program.Silent.of_item {p : Program} {i : Item} (h : p.Silent) (hi : i ∈ p.items) :
    ∀ n ∈ i.unread, ∀ d ∈ n.vars, d.symbol = none := by
  cases p
  refine fun n hn => h n ?_
  rw [unread, itemsUnread_eq]
  exact mem_flatMap.mpr ⟨i, hi, hn⟩

lemma ClassDecl.declarations_subperm {l} {d : ClassDecl}
    (hd : ∀ n ∈ (Item.classDecl l d).unread, ∀ e ∈ n.vars, e.symbol = none) : (innerDeclarations d.vars).Subperm
      ((Item.classDecl l d).hoisted ++ (Spot.node (.item (.classDecl l d))).declarations true) := by
  have hfield {f : Located VarDecl} (hf : f ∈ d.fields) : innerDeclarations f.value.vars =
      (f.value.declaration? false).toList ++ innerDeclarations (exprVars? f.value.initializer) := by
    have hrange : innerDeclarations (rangeVars? f.value.range) = [] := by
      refine innerDeclarations_eq_nil fun e he => ?_
      rw [Node.rangeVars?_eq] at he
      obtain ⟨n, hn, he⟩ := mem_flatMap.mp he
      exact hd n (mem_flatMap.mpr ⟨f, hf, hn⟩) e he
    rw [← VarDecl.declarations_false, VarDecl.declarations, innerDeclarations_append, hrange, nil_append]
  have hhoisted : (Item.classDecl l d).hoisted = d.fields.flatMap (fun f => (f.value.declaration? false).toList) ++
      d.methods.filterMap fun m => (Binder.mk m.value.name .function m.value.symbol).declaration? false := by
    simp [Item.hoisted, Item.members, filterMap_eq_flatMap_toList, flatMap_map]
  rw [hhoisted, Spot.declarations, vars, innerDeclarations_append, innerDeclarations_append, innerDeclarations_flatMap,
    innerDeclarations_flatMap, flatMap_congr fun f => hfield]
  refine ((flatMap_append_perm ..).symm.append_right _ |>.append_right _).subperm.trans (List.Sublist.subperm ?_)
  simp only [append_assoc]
  exact (List.Sublist.refl _).append (sublist_append_right ..)

lemma Item.declarations_subperm {i : Item} (hi : ∀ n ∈ i.unread, ∀ d ∈ n.vars, d.symbol = none) :
    i.declarations.Subperm (i.hoisted ++ (Spot.node (.item i)).declarations true) := by
  cases i with
  | config l entries =>
    have hentries : innerDeclarations (fieldsVars entries) = [] := by
      refine innerDeclarations_eq_nil fun d hd => ?_
      rw [Node.fieldsVars_eq] at hd
      obtain ⟨n, hn, hd⟩ := mem_flatMap.mp hd
      exact hi n hn d hd
    exact (show (Item.config l entries).declarations = [] from hentries) ▸ nil_subperm
  | classDecl l d => exact ClassDecl.declarations_subperm hi
  | module => exact (sublist_append_left ..).subperm
  | _ => exact (sublist_append_right ..).subperm

lemma Program.declarations_subperm {q : Program} (hq : q.Silent) : q.declarations.Subperm
    (q.items.flatMap Item.hoisted ++ partsDeclarations true (ofNodes (q.items.map .item))) := by
  obtain ⟨name, mark, items⟩ := q
  have hparts : partsDeclarations true (ofNodes (items.map .item)) =
      items.flatMap fun i => (Spot.node (.item i)).declarations true := by
    simp [ofNodes, partsDeclarations_map]
  rw [declarations, itemsDeclarations_eq, hparts]
  refine .trans ?_ (flatMap_append_perm items Item.hoisted _).symm.subperm
  have hitems : ∀ i ∈ items, ∀ n ∈ i.unread, ∀ d ∈ n.vars, d.symbol = none := fun i => hq.of_item
  clear hq hparts
  induction items with
  | nil => exact nil_subperm
  | cons i is ih =>
    obtain ⟨hi, his⟩ := forall_mem_cons.mp hitems
    exact (Item.declarations_subperm hi).append (ih his)

lemma SymbolTable.Numbers.unit {t t1 u : SymbolTable} {items : List Item} {q : Program}
    (h : t.Numbers (items.flatMap Item.hoisted) t1) (hs : t.Level s true)
    (hw : Walk none s t1 (ofNodes (q.items.map .item)) u) (hk : List.Forall₂ Item.Kept items q.items) (hq : q.Silent) :
    t.Numbers q.declarations u := by
  have hwalk := hw.numbers (by simp [ofNodes]) (hs.mono h.toExtends)
  rw [← Item.flatMap_kept (fun hk => hk.hoisted_eq) hk] at h
  exact (h.trans hwalk).subperm (Program.declarations_subperm hq)

lemma Hoist.numbers {t u : SymbolTable} {is : List Item} (h : Hoist s t is u) (hs : t.Level s true)
    (hn : ∀ ⦃l aliasName file symbol p⦄, .module l aliasName file symbol p ∈ is → p.Silent) :
    t.Numbers (is.flatMap Item.hoisted) u := by
  induction h with
  | nil => exact .of_extends (.refl _)
  | @plain s t u i is hi _ ih =>
    have hnone : i.hoisted = [] := by cases i <;> first | rfl | cases hi
    rw [flatMap_cons, hnone]
    exact ih hs fun _ _ _ _ _ hi => hn (mem_cons_of_mem _ hi)
  | @named s t t1 u i is x id type hi hx _ hd _ ih =>
    have hnone : i.hoisted = [] := by
      cases i with
      | classDecl | enumDecl | structDecl | module =>
        obtain ⟨rfl, -⟩ := List.cons.inj hi
        cases hx
      | _ => rfl
    have he := (extends_declare hd).1
    rw [flatMap_cons, hnone]
    exact .after he (ih (hs.mono he) fun _ _ _ _ _ hi => hn (mem_cons_of_mem _ hi))
  | @type s t t1 t2 u i is x id hi _ _ hd hmembers _ ih =>
    have hhoisted : i.hoisted = i.members.filterMap (·.2.declaration? false) := by cases i <;> first | rfl | cases hi
    have hm := hmembers.numbers (t1.level_push _) fun _ hx => (Item.variant_of_beside hx).2
    have hi := (Numbers.after ((extends_declare hd).1.trans (t1.extends_push _)) hm).before
      (t2.extends_setMembers id t1.scopes.size)
    rw [← hhoisted] at hi
    exact hi.trans (ih (hs.mono hi.toExtends) fun _ _ _ _ _ hi => hn (mem_cons_of_mem _ hi))
  | @module s t t1 t2 t3 u l aliasName path name mark id items items' is _ hwalk hkept hd _ ih ih' =>
    have hq := hn mem_cons_self
    have hpush : (t.pushModule ((t.scope s).path ++ [aliasName.text])).1.Level t.scopes.size true := t.level_push _
    have hinner := ih hpush fun l aliasName file symbol p hi => by
      obtain ⟨i', hi', hk⟩ := exists_mem_of_forall₂ hkept hi
      obtain rfl := hk.module_iff.mpr rfl
      exact hq.of_item hi'
    have hunit := hinner.unit hpush hwalk hkept hq
    have hi := (Numbers.after (t.extends_push _) hunit).before
      ((extends_declare hd).1.trans (t3.extends_setMembers id t.scopes.size))
    exact hi.trans (ih' (hs.mono hi.toExtends) fun _ _ _ _ _ hi => hn (mem_cons_of_mem _ hi))

end SketchCompiler
