import SketchCompiler.Proofs.ResolvedMembers

namespace SketchCompiler

open Resolve SymbolTable List

variable {N : String → Prop} {id : SymbolId}

def Node.alias? : Node → Option Name
  | item (.module _ aliasName _ _ _) => some aliasName
  | _ => none

/-- All modules at and below the node have aliases with this property. -/
def Node.AliasesIn (N : String → Prop) (n : Node) : Prop := ∀ m ∈ n.nodes, ∀ name, m.alias? = some name → N name.text

lemma Node.AliasesIn.of_mem {n c : Node} (h : n.AliasesIn N) (hc : c ∈ n.children) : c.AliasesIn N :=
  fun m hm => h m (mem_nodes_iff.mpr (.inr ⟨c, hc, hm⟩))

/-- The kind of the scope that holds the members of a symbol. -/
def SymbolKind.membersScope (kind : SymbolKind) : ScopeKind := if kind = .moduleAlias then .module else .members

/-- Nothing of this kind is the member of a type. -/
def SymbolKind.isOuter : SymbolKind → Bool
  | var | param => true
  | kind => kind.hasMembers

lemma SymbolKind.isOuter_of_hasMembers {kind : SymbolKind} (h : kind.hasMembers) : kind.isOuter := by
  cases kind <;> first | rfl | cases h

/-- The scope is there, and is not for the members of a type. -/
def SymbolTable.Open (t : SymbolTable) (s : ScopeId) : Prop := s < t.scopes.size ∧ (t.scope s).kind ≠ .members

lemma SymbolTable.Open.extend {t u : SymbolTable} {s} (h : t.Open s) (hu : t.Extends u) : u.Open s :=
  ⟨h.1.trans_le hu.scopes_le, by rw [hu.kind_scope h.1]; exact h.2⟩

lemma SymbolTable.open_push (t : SymbolTable) (x : Scope) (hx : x.kind ≠ .members) :
    Open { t with scopes := t.scopes.push x } t.scopes.size :=
  ⟨by simp, by rwa [scope_push_size]⟩

/-- Each step of resolution keeps the property, where modules have aliases in `N`. Variables, parameters, types and
modules are not the members of a type. -/
structure StepsKeep (N : String → Prop) (J : SymbolTable → Prop) : Prop where
  declare {t u : SymbolTable} {name : String} {kind : SymbolKind} {type : Option TypeName} {s : ScopeId}
    {id : SymbolId} : t.declare { name, kind, type, scope := s } = .ok (u, id) → (kind.isOuter → t.Open s) →
    J t → J u
  enter (t : SymbolTable) (s : ScopeId) (kind : ScopeKind) : J t → J (t.pushScope s kind).1
  module (t : SymbolTable) (s : ScopeId) (name : String) : N name → J t →
    J (t.pushModule ((t.scope s).path ++ [name])).1
  setMembers (t : SymbolTable) (id : SymbolId) (m : ScopeId) : m < t.scopes.size →
    (t.scope m).kind = (t.kind id).membersScope → J t → J (t.setMembers id m)

def ScopeKind.isInner : ScopeKind → Bool
  | function | method | block | loop => true
  | _ => false

lemma ScopeKind.ne_members_of_isInner {kind : ScopeKind} (h : kind.isInner) : kind ≠ .members := by
  rintro rfl
  cases h

/-- The spot is no unit, and all blocks are those of functions and statements. -/
inductive SpotPart.Inner : SpotPart → Prop
  | child {x : Spot} (hx : ∀ p, x ≠ .node (.unit p)) : Inner (.child x)
  | block {number kind header parts} (hk : kind.isInner) (hp : ∀ p ∈ parts, Inner p) :
      Inner (.block number kind header parts)

section InnerParts

open SpotPart

variable {number : Nat} {kind : ScopeKind} {header : List Binder}

@[simp]
lemma inner_child {x} : (child x).Inner ↔ ∀ p, x ≠ .node (.unit p) := by
  refine ⟨fun h => ?_, .child⟩
  cases h with
  | child hx => exact hx

@[simp]
lemma inner_block {parts} : (block number kind header parts).Inner ↔ kind.isInner ∧ ∀ p ∈ parts, p.Inner := by
  refine ⟨fun h => ?_, fun h => .block h.1 h.2⟩
  cases h with
  | block hk hp => exact ⟨hk, hp⟩

lemma inner_ofNodes {ns} (h : ∀ n ∈ ns, n.isInner) : ∀ p ∈ ofNodes ns, p.Inner := by
  simp only [ofNodes, forall_mem_map, inner_child]
  rintro n hn p ⟨⟩
  cases h _ hn

@[simp]
lemma inner_ofBody {body} : (ofBody number kind header body).Inner ↔ kind.isInner := by
  rw [ofBody, inner_block, and_iff_left (inner_ofNodes (by simp [Node.ofBlock, Node.isInner]))]

lemma inner_ofBranches (branches : List Branch) (start : Nat) : ∀ p ∈ ofBranches branches start, p.Inner := by
  simp only [ofBranches, forall_mem_flatMap]
  simp [ScopeKind.isInner]

lemma inner_ofPatterns (patterns : List Pattern) : ∀ p ∈ ofNodes (patterns.flatMap Node.ofPattern), p.Inner := by
  refine inner_ofNodes fun n hn => ?_
  obtain ⟨x, -, hx⟩ := mem_flatMap.mp hn
  obtain ⟨l, e, -, rfl⟩ := Node.mem_ofPattern.mp hx
  rfl

lemma inner_ofArms (arms : List Arm) (start : Nat) : ∀ p ∈ ofArms arms start, p.Inner := by
  simp only [ofArms, forall_mem_flatMap, forall_mem_append]
  exact fun x _ => ⟨inner_ofPatterns _, by simp [ScopeKind.isInner]⟩

lemma inner_ofMethods (methods : List (Located FunctionDecl)) (start : Nat) :
    ∀ p ∈ ofMethods methods start, p.Inner := by
  simp only [ofMethods, forall_mem_map]
  simp [ScopeKind.isInner]

lemma Spot.inner_before {x : Spot} (hx : ∀ p, x ≠ .node (.unit p)) : ∀ p ∈ x.before, p.Inner := by
  have hexpr (e : Option Expr) : ∀ n ∈ Node.ofExpr? e, n.isInner := by cases e <;> simp [Node.ofExpr?, Node.isInner]
  have hrange (r : Option Range) : ∀ n ∈ Node.ofRange? r, n.isInner := by cases r <;> simp [Node.ofRange?, Node.isInner]
  have hstmt (s : Option Stmt) : ∀ n ∈ Node.ofStmt? s, n.isInner := by cases s <;> simp [Node.ofStmt?, Node.isInner]
  have hchildren (n : Node) (hu : ∀ p, n ≠ .unit p) (hm : ∀ l aliasName path symbol p,
      n ≠ .item (.module l aliasName path symbol p)) (hi : ∀ l d, n ≠ .item (.interrupt l d)) :
      ∀ c ∈ n.children, c.isInner := by
    cases n with
    | unit p => exact absurd rfl (hu p)
    | item i => exact fun c => Node.isInner_of_mem_item (by cases i <;> grind [Node.isPlain])
    | _ => exact fun c => Node.isInner_of_mem_children rfl
  unfold before
  split <;> grind [inner_ofNodes, inner_ofBranches, inner_ofArms, inner_ofMethods, inner_child, inner_ofBody,
    inner_block, ScopeKind.isInner]

lemma Spot.inner_after (x : Spot) : ∀ p ∈ x.after, p.Inner := by
  cases x <;> simp [after, ScopeKind.isInner]

end InnerParts

section Held

variable {J : SymbolTable → Prop} {s : ScopeId} {t u v : SymbolTable}

/-- From one table to the other the property is kept, if `s` is open. -/
def Held (J : SymbolTable → Prop) (s : ScopeId) (t u : SymbolTable) : Prop := t.Extends u ∧ (t.Open s → J t → J u)

lemma Held.refl (t : SymbolTable) : Held J s t t := ⟨.refl t, fun _ => id⟩

lemma Held.trans (h : Held J s t u) (h' : Held J s u v) : Held J s t v :=
  ⟨h.1.trans h'.1, fun hs ht => h'.2 (hs.extend h.1) (h.2 hs ht)⟩

end Held

lemma Item.isOuter_members {i : Item} {x : Bool × Binder} (hx : x ∈ i.members) : x.2.kind.isOuter = false := by
  cases i with
  | classDecl l d =>
    rcases mem_append.mp hx with hx | hx
    · obtain ⟨f, -, rfl⟩ := mem_map.mp hx
      simp only [VarDecl.memberBinder]
      split <;> rfl
    · obtain ⟨m, -, rfl⟩ := mem_map.mp hx
      rfl
  | enumDecl l d =>
    simp only [members, mem_flatMap, mem_cons, not_mem_nil, or_false] at hx
    obtain ⟨v, -, rfl | rfl⟩ := hx <;> rfl
  | structDecl l d =>
    obtain ⟨f, -, rfl⟩ := mem_map.mp hx
    rfl
  | _ => cases hx

namespace StepsKeep

variable {J : SymbolTable → Prop} (hJ : StepsKeep N J) {s : ScopeId} {t u t2 : SymbolTable}

include hJ

lemma binds {s} {t u} {xs} (h : Binds s t xs u) : Held J s t u := by
  induction h with
  | nil => exact .refl _
  | cons hd _ _ ih => exact .trans ⟨(extends_declare hd).1, fun hs => hJ.declare hd fun _ => hs⟩ ih

lemma walk {o} {ps} (h : Walk o s t ps u) (hp : ∀ p ∈ ps, p.Inner) : Held J s t u := by
  induction h with
  | nil => exact .refl _
  | child _ _ hd _ _ hb ha ih =>
    obtain ⟨hx, hps⟩ := forall_mem_cons.mp hp
    have hb := hb (Spot.inner_before (inner_child.mp hx))
    have ha := ha (Spot.inner_after _)
    exact hb.trans ((hJ.binds hd).trans (ha.trans (ih hps)))
  | @block o s t t1 t2 u number kind header parts ps hd _ _ hb ih =>
    obtain ⟨hblock, hps⟩ := forall_mem_cons.mp hp
    obtain ⟨hk, hparts⟩ := inner_block.mp hblock
    have hbody := (hJ.binds hd).trans (hb hparts)
    refine .trans ⟨(t.extends_push _).trans hbody.1, fun _ ht => ?_⟩ (ih hps)
    exact hbody.2 (t.open_push _ (ScopeKind.ne_members_of_isInner hk)) (hJ.enter t s kind ht)

lemma declares {m} {xs} (h : Declares s m t xs u) (hx : ∀ x ∈ xs, x.2.kind.isOuter = false) : Held J s t u := by
  induction h with
  | nil => exact .refl _
  | cons hd _ _ ih =>
    obtain ⟨hk, hxs⟩ := forall_mem_cons.mp hx
    exact .trans ⟨(extends_declare hd).1, fun _ => hJ.declare hd fun h => by simp [hk] at h⟩ (ih hxs)

lemma type {t1 : SymbolTable} {i : Item} {x : Binder} (hi : i.type? = some x)
    (hd : t.declare { name := x.name.text, kind := x.kind, scope := s } = .ok (t1, id))
    (h : Declares s t1.scopes.size (t1.pushScope s .members).1 i.members t2) :
    Held J s t (t2.setMembers id t1.scopes.size) := by
  obtain ⟨h3, hJ3⟩ := hJ.declares h fun _ => Item.isOuter_members
  have hscope : t1.scopes.size < t2.scopes.size := Nat.lt_of_lt_of_le (by simp) h3.scopes_le
  obtain ⟨he, rfl, hsize, hget⟩ := extends_declare hd
  have hne : x.kind ≠ .moduleAlias := Item.no_alias_of_type hi x (Item.binders_of_type hi ▸ mem_cons_self)
  have hkind : (t2.scope t1.scopes.size).kind = (t2.kind t.symbols.size).membersScope := by
    have hsymbol : t2.kind t.symbols.size = x.kind := by
      rw [((t1.extends_push _).trans h3).kind_eq (by simp [hsize]), kind, hget]
    rw [h3.kind_scope (by simp), pushScope, scope_push_size, hsymbol, SymbolKind.membersScope, if_neg hne]
  refine ⟨he.trans ((t1.extends_push _).trans (h3.trans (t2.extends_setMembers _ _))), fun hs ht => ?_⟩
  have ht2 := hJ.enter t1 s .members (hJ.declare hd (fun _ => hs) ht)
  exact hJ.setMembers _ _ _ hscope hkind (hJ3 ((hs.extend he).extend (t1.extends_push _)) ht2)

lemma moduleUnit {t3 : SymbolTable} {name} (hname : N name)
    (h : Held J t.scopes.size (t.pushModule ((t.scope s).path ++ [name])).1 t2)
    (hd : t2.declare { name, kind := .moduleAlias, scope := s } = .ok (t3, id)) :
    Held J s t (t3.setMembers id t.scopes.size) := by
  obtain ⟨h1, hJ1⟩ := h
  obtain ⟨h2, -, -, hget⟩ := extends_declare hd
  have hlt := lt_pushModule t ((t.scope s).path ++ [name])
  have hscope : t.scopes.size < t3.scopes.size := hlt.trans_le (h1.scopes_le.trans h2.scopes_le)
  have hkind : (t3.scope t.scopes.size).kind = (t3.kind id).membersScope := by
    rw [h2.kind_scope (hlt.trans_le h1.scopes_le), h1.kind_scope hlt, pushModule, scope_push_size,
      kind, hget]
    rfl
  refine ⟨(t.extends_push _).trans (h1.trans (h2.trans (t3.extends_setMembers id _))), fun hs ht => ?_⟩
  have ht1 := hJ1 (t.open_push _ (by simp)) (hJ.module t s _ hname ht)
  exact hJ.setMembers _ id _ hscope hkind (hJ.declare hd (fun _ => (hs.extend (t.extends_push _)).extend h1) ht1)

lemma hoist {is} (h : Hoist s t is u) (hn : ∀ ⦃l aliasName file symbol p⦄, .module l aliasName file symbol p ∈ is →
    (Node.item (.module l aliasName file symbol p)).AliasesIn N) : Held J s t u := by
  induction h with
  | nil => exact .refl _
  | plain _ _ ih => exact ih fun _ _ _ _ _ hi => hn (mem_cons_of_mem _ hi)
  | named _ _ _ hd _ ih =>
    exact .trans ⟨(extends_declare hd).1, fun hs => hJ.declare hd fun _ => hs⟩
      (ih fun _ _ _ _ _ hi => hn (mem_cons_of_mem _ hi))
  | type hi _ _ hd hmembers _ ih =>
    exact (hJ.type hi hd hmembers).trans (ih fun _ _ _ _ _ hi => hn (mem_cons_of_mem _ hi))
  | module _ hwalk hkept hd _ ih ih' =>
    have hmodule := hn mem_cons_self
    have hname := hmodule _ Node.mem_nodes_self _ rfl
    have hinner := ih fun l aliasName file symbol p hi => by
      obtain ⟨i', hi', hk⟩ := exists_mem_of_forall₂ hkept hi
      obtain rfl := hk.module_iff.mpr rfl
      exact (hmodule.of_mem (mem_singleton_self _)).of_mem (mem_map_of_mem hi')
    have hunit := hinner.trans (hJ.walk hwalk (by simp [SpotPart.ofNodes]))
    exact (hJ.moduleUnit hname hunit hd).trans (ih' fun _ _ _ _ _ hi => hn (mem_cons_of_mem _ hi))

end StepsKeep

section

variable {J : SymbolTable → Prop} {p q : Program} {t}
variable (hJ : StepsKeep N J) (hq : (Node.unit q).AliasesIn N) (h : p.resolveNames = (q, .ok t))

include hJ hq h

lemma StepsKeep.of_start
    (hs : J (ofBuiltins.pushScope root .global).1) : J t := by
  have hrun := Program.run_of_resolveNames h
  generalize ofBuiltins = builtins at hrun hs
  obtain ⟨items, t1, hhoist, hwalk, hkept⟩ := hrun
  have hhoist := hJ.hoist hhoist fun l aliasName file symbol p hi => by
    obtain ⟨i', hi', hk⟩ := exists_mem_of_forall₂ hkept hi
    obtain rfl := hk.module_iff.mpr rfl
    exact hq.of_mem (mem_map_of_mem hi')
  exact (hhoist.trans (hJ.walk hwalk (by simp [SpotPart.ofNodes]))).2 (builtins.open_push _ nofun) hs

lemma StepsKeep.resolveNames (he : J .empty) : J t := by
  have hb : J ofBuiltins := ofBuiltins_induction he fun _ _ _ _ ht hd => hJ.declare hd (fun hk => by cases hk) ht
  exact hJ.of_start hq h (hJ.enter ofBuiltins _ _ hb)

end

section MembersScopes

/-- The members of modules are in scopes for modules, and all others in scopes for members. -/
def SymbolTable.MembersScoped (t : SymbolTable) : Prop :=
  ∀ id m, (t.get id).members = some m → m < t.scopes.size ∧ (t.scope m).kind = (t.kind id).membersScope

lemma SymbolTable.members_setMembers {t : SymbolTable} {i} {m m'}
    (h : ((t.setMembers id m).get i).members = some m') : m' = m ∧ i = id ∨ (t.get i).members = some m' := by
  simp only [get, SymbolTable.setMembers, Array.getD_eq_getD_getElem?, Array.getElem?_modify] at h ⊢
  split at h
  case isTrue =>
    cases hi : t.symbols[i]? with
    | none => simp [hi] at h
    | some x => simp_all
  case isFalse => exact .inr h

variable {t u : SymbolTable}

lemma SymbolTable.MembersScoped.extend (h : t.MembersScoped) (hu : t.Extends u)
    (hm : ∀ id m, (u.get id).members = some m → (t.get id).members = some m) : u.MembersScoped := by
  intro id m hid
  obtain ⟨hlt, hk⟩ := h id m (hm id m hid)
  exact ⟨hlt.trans_le hu.scopes_le, by rwa [hu.kind_scope hlt, hu.kind_eq (lt_of_members (hm id m hid))]⟩

lemma stepsKeep_membersScoped : StepsKeep (fun _ => True) MembersScoped where
  declare {t u name kind type s id} hd _ h := by
    obtain ⟨he, rfl, hsize, hget⟩ := extends_declare hd
    refine h.extend he fun i m hm => ?_
    rcases Nat.lt_succ_iff_lt_or_eq.mp (hsize ▸ lt_of_members hm) with hi | rfl
    · rwa [(keeps_declare hd).get_eq hi] at hm
    · rw [hget] at hm
      cases hm
  enter t s kind h := h.extend (t.extends_push _) fun _ _ hm => hm
  module t s name _ h := h.extend (t.extends_push _) fun _ _ hm => hm
  setMembers t id m hlt hk h := by
    intro i m' hm
    have hi : i < t.symbols.size := by simpa [SymbolTable.setMembers] using lt_of_members hm
    rw [(t.extends_setMembers id m).kind_eq hi]
    rcases members_setMembers hm with ⟨rfl, rfl⟩ | hm
    · exact ⟨hlt, hk⟩
    · exact h i m' hm

lemma Program.membersScoped {p q : Program} (h : p.resolveNames = (q, .ok t)) : t.MembersScoped := by
  refine stepsKeep_membersScoped.resolveNames (fun _ _ _ _ => trivial) h fun id m hm => ?_
  cases lt_of_members hm

/-- What is no member of a type is declared in an open scope. -/
def SymbolTable.OuterOpen (t : SymbolTable) : Prop := ∀ id, (t.kind id).isOuter → t.Open (t.get id).scope

lemma SymbolTable.lt_of_isOuter (h : (t.kind id).isOuter) : id < t.symbols.size := by
  by_contra hlt
  have hget : t.get id = default := by simp [get, hlt]
  rw [kind, hget] at h
  cases h

lemma SymbolTable.OuterOpen.extend (h : t.OuterOpen) (hu : t.Extends u) (hlt : id < t.symbols.size)
    (hid : (u.kind id).isOuter) : u.Open (u.get id).scope := by
  rw [hu.kind_eq hlt] at hid
  rw [hu.get_eq hlt]
  exact (h id hid).extend hu

lemma stepsKeep_outerOpen : StepsKeep (fun _ => True) OuterOpen where
  declare {t u name kind type s id} hd hs h := by
    obtain ⟨he, rfl, hsize, hget⟩ := extends_declare hd
    intro i hi
    rcases Nat.lt_succ_iff_lt_or_eq.mp (hsize ▸ lt_of_isOuter hi) with hlt | rfl
    · exact h.extend he hlt hi
    · rw [SymbolTable.kind, hget] at hi
      rw [hget]
      exact (hs hi).extend he
  enter t s kind h id hid := h.extend (t.extends_push _) (lt_of_isOuter hid) hid
  module t s name _ h id hid := h.extend (t.extends_push _) (lt_of_isOuter hid) hid
  setMembers t id m _ _ h i hi :=
    h.extend (t.extends_setMembers id m) (by simpa [SymbolTable.setMembers] using lt_of_isOuter hi) hi

lemma Program.outerOpen {p q : Program} (h : p.resolveNames = (q, .ok t)) : t.OuterOpen := by
  refine stepsKeep_outerOpen.resolveNames (fun _ _ _ _ => trivial) h fun id hid => ?_
  cases lt_of_isOuter hid

end MembersScopes

section MainScope

/-- The first scope behind the outermost is that of the main unit, which has no path. -/
structure SymbolTable.MainScoped (t : SymbolTable) : Prop where
  lt : root + 1 < t.scopes.size
  kind : (t.scope (root + 1)).kind = .global
  path : (t.scope (root + 1)).path = []
  parent : (t.scope (root + 1)).parent = some root

variable {t u : SymbolTable}

lemma SymbolTable.MainScoped.mono (h : t.MainScoped) (hle : t.scopes.size ≤ u.scopes.size)
    (hs : ∃ names, u.scope (root + 1) = { t.scope (root + 1) with names }) : u.MainScoped := by
  obtain ⟨names, hs⟩ := hs
  exact ⟨h.lt.trans_le hle, by rw [hs]; exact h.kind, by rw [hs]; exact h.path, by rw [hs]; exact h.parent⟩

lemma SymbolTable.MainScoped.push (h : t.MainScoped) (x : Scope) :
    MainScoped { t with scopes := t.scopes.push x } :=
  h.mono (by simp) ⟨_, t.scope_push_of_lt x h.lt⟩

lemma stepsKeep_mainScoped : StepsKeep (fun _ => True) MainScoped where
  declare {t u name kind type s id} hd _ h := by
    refine h.mono (extends_declare hd).1.scopes_le ?_
    rw [(scope_of_declare hd).2]
    split
    · exact ⟨_, rfl⟩
    · exact ⟨_, rfl⟩
  enter _ _ _ h := h.push _
  module _ _ _ _ h := h.push _
  setMembers _ _ _ _ _ h := h.mono le_rfl ⟨_, rfl⟩

lemma Program.mainScoped {p q : Program} (h : p.resolveNames = (q, .ok t)) : t.MainScoped := by
  refine stepsKeep_mainScoped.of_start (fun _ _ _ _ => trivial) h ?_
  have hstart := scopes_ofBuiltins
  have hscope : ((ofBuiltins.pushScope root .global).1).scope ofBuiltins.scopes.size =
      { parent := root, kind := .global, path := (ofBuiltins.scope root).path } := scope_push_size _ _
  have hmain : ofBuiltins.scopes.size = root + 1 := hstart.1
  rw [hmain, hstart.2] at hscope
  exact ⟨by simp [pushScope, hmain], by rw [hscope], by rw [hscope], by rw [hscope]⟩

end MainScope

end SketchCompiler
