import SketchCompiler.Proofs.UnitWalks

namespace SketchCompiler

open Resolve SpotPart SymbolTable List

variable (c : Site) (l : Location)

def ClassDecl.MembersNumbered (d : ClassDecl) : Prop :=
  (∀ f ∈ d.fields, f.value.symbol ≠ none) ∧ ∀ m ∈ d.methods, m.value.symbol ≠ none

def VarDecl.memberBinder (d : VarDecl) : Binder :=
  ⟨d.name, if d.qualifier.isMutable then .field else .constant, d.symbol⟩

namespace Item

def MembersNumbered : Item → Prop
  | .classDecl _ d => d.MembersNumbered
  | _ => True

def type? : Item → Option Binder
  | .classDecl _ d => some ⟨d.name, .classType, d.symbol⟩
  | .enumDecl _ d => some ⟨d.name, .enumType, d.symbol⟩
  | .structDecl _ d => some ⟨d.name, .structType, d.symbol⟩
  | _ => none

/-- The names that are declared with a type, each with whether it stands beside the type and not in its scope. -/
def members : Item → List (Bool × Binder)
  | .classDecl _ d => d.fields.map (fun f => (false, f.value.memberBinder)) ++
      d.methods.map fun m => (false, ⟨m.value.name, .function, m.value.symbol⟩)
  | .enumDecl _ d => d.variants.flatMap fun v => [(false, ⟨v, .variant, none⟩), (true, ⟨v, .variant, none⟩)]
  | .structDecl _ d => d.fields.map fun f => (false, ⟨f.name, .field, none⟩)
  | _ => []

/-- What resolution of the bodies keeps of an item. -/
structure Kept (i i' : Item) : Prop where
  binders_eq : i'.binders = i.binders
  members_eq : i'.members = i.members
  numbered : i.MembersNumbered → i'.MembersNumbered
  module_iff {l : Location} {aliasName : Name} {path : String} {symbol : Option SymbolId} {p : Program} :
    i' = .module l aliasName path symbol p ↔ i = .module l aliasName path symbol p

end Item

def SymbolKind.hasMembers : SymbolKind → Bool
  | classType | enumType | structType | moduleAlias => true
  | _ => false

/-- The names are declared one after the other, those beside the type in the scope `s` and the others in `m`. -/
inductive Declares (s m : ScopeId) : SymbolTable → List (Bool × Binder) → SymbolTable → Prop
  | nil {t} : Declares s m t [] t
  | cons {t u v beside x xs id type} : t.declare
      { name := x.name.text, kind := x.kind, type, scope := if beside then s else m } = .ok (u, id) →
      x.symbol = some id ∨ x.symbol = none → Declares s m u xs v → Declares s m t ((beside, x) :: xs) v

/-- From the table `t` to the table `u` the names of the items are declared in the scope `s`. -/
inductive Hoist : ScopeId → SymbolTable → List Item → SymbolTable → Prop
  | nil {s t} : Hoist s t [] t
  | plain {s t u i is} : i.binders = [] → Hoist s t is u → Hoist s t (i :: is) u
  | named {s t t₁ u i is x id type} : i.binders = [x] → x.kind.hasMembers = false → x.symbol = some id →
      t.declare { name := x.name.text, kind := x.kind, type, scope := s } = .ok (t₁, id) → Hoist s t₁ is u →
      Hoist s t (i :: is) u
  | type {s t t₁ t₂ u i is x id} : i.type? = some x → i.MembersNumbered → x.symbol = some id →
      t.declare { name := x.name.text, kind := x.kind, scope := s } = .ok (t₁, id) →
      Declares s t₁.scopes.size (t₁.pushScope s .members).1 i.members t₂ →
      Hoist s (t₂.setMembers id t₁.scopes.size) is u → Hoist s t (i :: is) u
  | module {s t t₁ t₂ t₃ u l aliasName path name mark id items items' is} :
      Hoist t.scopes.size (t.pushModule ((t.scope s).path ++ [aliasName.text])).1 items t₁ →
      Walk none t.scopes.size t₁ (ofNodes (items'.map .item)) t₂ → List.Forall₂ Item.Kept items items' →
      t₂.declare { name := aliasName.text, kind := .moduleAlias, scope := s } = .ok (t₃, id) →
      Hoist s (t₃.setMembers id t.scopes.size) is u →
      Hoist s t (.module l aliasName path (some id) ⟨name, mark, items'⟩ :: is) u

/-- From the table `t` to the table `u` the unit is resolved in the scope `s`. -/
def UnitWalk (s : ScopeId) (t : SymbolTable) (q : Program) (u : SymbolTable) : Prop :=
  ∃ items t₁, Hoist s t items t₁ ∧ Walk none s t₁ (ofNodes (q.items.map .item)) u ∧ List.Forall₂ Item.Kept items q.items

section Steps

variable {α β γ : Type} {s m : ScopeId} {g : α → List (Bool × Binder)} {f : α → Resolve β}

lemma yields_setMembers (symbol : Option SymbolId) (m : ScopeId) : Yields (Resolve.setMembers symbol m) fun t _ u =>
    ∀ id, symbol = some id → u = t.setMembers id m := by
  cases symbol with
  | none => exact .pure nofun
  | some id => exact fun r he => ⟨he, fun _ hid => Option.some.inj hid ▸ rfl⟩

lemma Declares.append {t u v} {xs ys} (h : Declares s m t xs u)
    (h' : Declares s m u ys v) : Declares s m t (xs ++ ys) v := by
  induction h with
  | nil => exact h'
  | cons hd hx _ ih => exact .cons hd hx (ih h')

lemma yields_declared (s : ScopeId) (name : Name) (kind : SymbolKind) (type : Option TypeName)
    (k : Option SymbolId → β) : Yields (do return k (← declareIn s name kind type)) fun t b u => ∃ id, b = k (some id) ∧
      t.declare { name := name.text, kind, type, scope := s } = .ok (u, id) := by
  refine ((yields_declareIn s name kind type).bind fun symbol => .done _).mono ?_
  rintro t b u ⟨_, _, ⟨id, rfl, hd⟩, rfl, rfl⟩
  exact ⟨id, rfl, hd⟩

lemma yields_members (s m : ScopeId) {n : α → Name} {y : α → SymbolKind} {z : α → Option TypeName}
    {k : α → Option SymbolId → β} {h : β → Binder} (hk : ∀ a symbol, h (k a symbol) = ⟨n a, y a, symbol⟩)
    (as : List α) : Yields (as.mapM fun a => do return k a (← declareIn m (n a) (y a) (z a))) fun t bs u =>
      Declares s m t (bs.map fun b => (false, h b)) u ∧ ∀ b ∈ bs, (h b).symbol ≠ none := by
  refine .mapM (P := fun t b u => Declares s m t [(false, h b)] u ∧ (h b).symbol ≠ none) (fun a => ?_)
    (fun _ => ⟨.nil, nofun⟩) ?_ as
  · refine (yields_declared m (n a) (y a) (z a) (k a)).mono ?_
    rintro t _ u ⟨id, rfl, hd⟩
    rw [hk]
    exact ⟨.cons hd (.inl rfl) .nil, nofun⟩
  · rintro t b u bs v ⟨hb, hn⟩ ⟨hbs, hns⟩
    exact ⟨hb.append hbs, forall_mem_cons.mpr ⟨hn, hns⟩⟩

lemma yields_declaresAll {f : α → Resolve Unit} (hf : ∀ a, Yields (f a) fun t _ u => Declares s m t (g a) u)
    (as : List α) : Yields (as.forM f) fun t _ u => Declares s m t (as.flatMap g) u := by
  induction as with
  | nil => exact .pure fun _ => .nil
  | cons a as ih => exact ((hf a).bind fun _ => ih).mono fun _ _ _ ⟨_, _, h, h'⟩ => h.append h'

lemma hoists_type (name : Name) (kind : SymbolKind) {body : ScopeId → Resolve α}
    {k : Option SymbolId → α → β} {i : β → Item} {R : α → Prop}
    (hb : ∀ m, Yields (body m) fun t a u => Declares c.scope m t (g a) u ∧ R a)
    (hi : ∀ symbol a, (i (k symbol a)).type? = some ⟨name, kind, symbol⟩ ∧ (i (k symbol a)).members = g a ∧
    (R a → (i (k symbol a)).MembersNumbered)) : Yields (do
      let symbol ← declareIn c.scope name kind none
      let members := (← enter c .members).scope
      let a ← body members
      Resolve.setMembers symbol members
      return k symbol a) fun t b u => ∀ is v, Hoist c.scope u is v → Hoist c.scope t (i b :: is) v := by
  refine ((yields_declareIn c.scope name kind none).bind fun symbol => (yields_enter c .members).bind fun c' =>
    (hb c'.scope).bind fun a => (yields_setMembers symbol c'.scope).bind fun _ => .done _).mono ?_
  rintro t b u ⟨symbol, t₁, ⟨id, rfl, hd⟩, c', t₂, ⟨rfl, rfl⟩, a, t₃, ⟨h3, ha⟩, -, t4, hset, rfl, rfl⟩ is v h
  obtain rfl := hset id rfl
  obtain ⟨htype, hmembers, hnumbered⟩ := hi (some id) a
  exact .type htype (hnumbered ha) rfl hd (hmembers ▸ h3) h

lemma ClassDecl.hoists (d : ClassDecl) : Yields (d.declare c) fun t d' u =>
    ∀ is v, Hoist c.scope u is v → Hoist c.scope t (.classDecl l d' :: is) v := by
  have hfields (m : ScopeId) := yields_members c.scope m (n := fun f : Located VarDecl => f.value.name)
    (y := fun f => if f.value.qualifier.isMutable then .field else .constant) (z := fun f => f.value.type.value)
    (k := fun f symbol => { f with value := { f.value with symbol } }) (h := fun f => f.value.memberBinder)
    (fun _ _ => rfl) d.fields
  have hmethods (m : ScopeId) := yields_members c.scope m (n := fun x : Located FunctionDecl => x.value.name)
    (y := fun _ => .function) (z := fun x => x.value.returnType.map (·.value))
    (k := fun x symbol => { x with value := { x.value with symbol } })
    (h := fun x => ⟨x.value.name, .function, x.value.symbol⟩) (fun _ _ => rfl) d.methods
  have hbody (m : ScopeId) := ((hfields m).bind fun fields => (hmethods m).bind fun methods =>
    Yields.done (fields, methods)).mono
    (Q := fun t x u => Declares c.scope m t (x.1.map (fun f => (false, f.value.memberBinder)) ++
      x.2.map fun m => (false, ⟨m.value.name, .function, m.value.symbol⟩)) u ∧
      (∀ f ∈ x.1, f.value.symbol ≠ none) ∧ ∀ m ∈ x.2, m.value.symbol ≠ none) (by
      rintro t x u ⟨fields, t₁, ⟨hf, hf'⟩, methods, _, ⟨hm, hm'⟩, rfl, rfl⟩
      exact ⟨hf.append hm, hf', hm'⟩)
  have h := hoists_type c d.name .classType (i := .classDecl l)
    (k := fun symbol x => { d with fields := x.1, methods := x.2, symbol }) hbody fun symbol x => ⟨rfl, rfl, id⟩
  exact h

lemma EnumDecl.hoists (d : EnumDecl) : Yields (d.declare c) fun t d' u =>
    ∀ is v, Hoist c.scope u is v → Hoist c.scope t (.enumDecl l d' :: is) v := by
  have hbody (m : ScopeId) := (yields_declaresAll (fun v => ((yields_declareIn m v .variant
    (some { base := d.name.text })).bind fun _ => yields_declared c.scope v .variant (some { base := d.name.text })
    fun _ => ()).mono (Q := fun t _ u => Declares c.scope m t
      [(false, ⟨v, .variant, none⟩), (true, ⟨v, .variant, none⟩)] u) (by
      rintro t _ u ⟨_, t₁, ⟨_, -, h1⟩, _, -, h2⟩
      exact .cons h1 (.inr rfl) (.cons h2 (.inr rfl) .nil))) d.variants).and (Q := fun _ => True) fun _ => trivial
  have h := hoists_type c d.name .enumType (i := .enumDecl l) (k := fun symbol _ => { d with symbol }) hbody
    fun symbol x => ⟨rfl, rfl, id⟩
  exact h

lemma StructDecl.hoists (d : StructDecl) : Yields (d.declare c) fun t d' u =>
    ∀ is v, Hoist c.scope u is v → Hoist c.scope t (.structDecl l d' :: is) v := by
  have hbody (m : ScopeId) := (yields_declaresAll (fun f : StructField => (yields_declared m f.name .field
    (some f.type.value) fun _ => ()).mono (Q := fun t _ u => Declares c.scope m t
      [(false, ⟨f.name, .field, none⟩)] u) (by
      rintro t _ u ⟨_, -, h⟩
      exact .cons h (.inr rfl) .nil)) d.fields).and (Q := fun _ => True) fun _ => trivial
  have h := hoists_type c d.name .structType (i := .structDecl l) (k := fun symbol _ => { d with symbol }) hbody
    fun symbol x => ⟨rfl, by rw [Item.members, map_eq_flatMap], id⟩
  exact h

lemma Resolve.forall₂_mapM {R : α → β → Prop} (h : ∀ a r, R a (f a r).1) (as : List α) (r : Resolution) :
    List.Forall₂ R as (as.mapM f r).1 := by
  induction as generalizing r with
  | nil => exact .nil
  | cons a as ih =>
    rw [mapM_cons]
    exact .cons (h a r) (ih (f a r).2)

lemma Resolve.flatMap_mapM {g : β → List γ} {h : α → List γ} (hf : ∀ a r, g (f a r).1 = h a) (as : List α)
    (r : Resolution) : (as.mapM f r).1.flatMap g = as.flatMap h := by
  rw [flatMap_def, flatMap_def, map_mapM hf]

lemma ClassDecl.members_resolve (d : ClassDecl) (r : Resolution) :
    (Item.classDecl l (d.resolve c r).1).members = (Item.classDecl l d).members := by
  have hf : (d.resolve c r).1.fields.map (fun f => (false, f.value.memberBinder)) =
      d.fields.map fun f => (false, f.value.memberBinder) := by
    refine map_mapM ?_ d.fields r
    exact fun _ _ => rfl
  have hm : (d.resolve c r).1.methods.map (fun m => (false, Binder.mk m.value.name .function m.value.symbol)) =
      d.methods.map fun m => (false, ⟨m.value.name, .function, m.value.symbol⟩) := by
    refine map_mapM ?_ d.methods _
    exact fun _ _ => rfl
  rw [Item.members, Item.members, hf, hm]

lemma Item.membersNumbered_classDecl {l} {d} : (Item.classDecl l d).MembersNumbered ↔
    ∀ x ∈ (Item.classDecl l d).members, x.2.symbol ≠ none := by
  simp [MembersNumbered, ClassDecl.MembersNumbered, members, or_imp, forall_and, VarDecl.memberBinder]

lemma Item.kept_resolve (i : Item) (r : Resolution) : i.Kept (i.resolve c r).1 := by
  cases i with
  | classDecl l d =>
    have hm := d.members_resolve c l r
    refine ⟨rfl, hm, fun h => ?_, ⟨nofun, nofun⟩⟩
    exact membersNumbered_classDecl.mpr (hm.symm ▸ membersNumbered_classDecl.mp h)
  | module => exact ⟨rfl, rfl, id, Iff.rfl⟩
  | event l kind body => cases kind <;> exact ⟨rfl, rfl, id, ⟨nofun, nofun⟩⟩
  | _ => exact ⟨rfl, rfl, id, ⟨nofun, nofun⟩⟩

lemma yields_inModule {p : SymbolTable → List String} {k : ScopeId → Resolve β}
    {Q : ScopeId → SymbolTable → β → SymbolTable → Prop} (hk : ∀ s, Yields (k s) (Q s)) : Yields (do
      let t ← table
      let (t, s) := t.pushModule (p t)
      modify fun r => { r with table := t }
      k s) fun t b v => Q t.scopes.size (t.pushModule (p t)).1 b v :=
  fun r he => hk r.table.scopes.size { r with table := (r.table.pushModule (p r.table)).1 } he

end Steps

mutual

lemma Item.hoists {c : Site} (hc : c.owner = none) (i : Item) : Yields (i.declare c) fun t i' u =>
    ∀ is v, Hoist c.scope u is v → Hoist c.scope t (i' :: is) v := by
  have named (name : Name) (kind : SymbolKind) (type : Option TypeName) {f : Option SymbolId → Item}
      (hk : kind.hasMembers = false) (hf : ∀ symbol, (f symbol).binders = [⟨name, kind, symbol⟩]) :
      Yields (do return f (← declareIn c.scope name kind type)) fun t i' u => ∀ is v, Hoist c.scope u is v →
        Hoist c.scope t (i' :: is) v := by
    refine (yields_declared c.scope name kind type f).mono ?_
    rintro t _ u ⟨id, rfl, hd⟩ is v h
    exact .named (hf _) hk rfl hd h
  cases i with
  | function l d => exact named d.name .function _ rfl fun _ => rfl
  | signal l name symbol => exact named name .signal _ rfl fun _ => rfl
  | task l d => exact named d.name .task _ rfl fun _ => rfl
  | classDecl l d | enumDecl l d | structDecl l d =>
    exact ((d.hoists c l).bind fun _ => .done _).mono fun _ _ _ ⟨_, _, h, hu, hi⟩ => hu ▸ hi ▸ h
  | module l aliasName path symbol program =>
    have h (s : ScopeId) := (program.runs (c := { c with scope := s }) hc).bind fun q =>
      (yields_declareIn c.scope aliasName .moduleAlias none).bind fun symbol =>
      (yields_setMembers symbol s).bind fun _ => .done (Item.module l aliasName path symbol q)
    refine (yields_inModule (p := fun t => (t.scope c.scope).path ++ [aliasName.text]) h).mono ?_
    rintro t _ u
      ⟨⟨name, mark, items⟩, t₁, ⟨is0, t0, hhoist, hwalk, hkept⟩, symbol, t₂, ⟨id, rfl, hd⟩, -, t₃, hset, rfl, rfl⟩
      is v h
    obtain rfl := hset id rfl
    exact .module hhoist hwalk hkept hd h
  | _ => exact .pure fun t is v h => .plain rfl h

lemma hoistsItems {c : Site} (hc : c.owner = none) (items : List Item) : Yields (declareItems c items)
    fun t is u => Hoist c.scope t is u := by
  cases items with
  | nil => exact .pure fun _ => .nil
  | cons i is =>
    refine ((i.hoists hc).bind fun i' => (hoistsItems hc is).bind fun is' => .done _).mono ?_
    rintro t _ u ⟨i', t₁, hi, is', _, his, rfl, rfl⟩
    exact hi is' _ his

lemma Program.runs {c : Site} (hc : c.owner = none) (p : Program) : Yields (p.resolveUnit c) fun t q u =>
    UnitWalk c.scope t q u := by
  obtain ⟨name, mainMark, items⟩ := p
  have hwalk (is : List Item) := (Yields.mapM (Q := fun t is u => Walk none c.scope t (ofNodes (is.map .item)) u)
    (fun i => (i.walks hc).toYields) (fun _ => .nil) .append is).and (forall₂_mapM (Item.kept_resolve c) is)
  refine ((hoistsItems hc items).bind fun is => (hwalk is).bind fun is' => .done _).mono ?_
  rintro t _ u ⟨is, t₁, hd, is', _, ⟨hw, hk⟩, rfl, rfl⟩
  exact ⟨is, t₁, hd, hw, hk⟩

end

lemma Program.run_of_resolveNames {p q : Program} {t} (h : p.resolveNames = (q, .ok t)) :
    UnitWalk ofBuiltins.scopes.size (ofBuiltins.pushScope SymbolTable.root .global).1 q t := by
  unfold resolveNames at h
  -- What the table of builtins holds does not matter, and it is too large to compute with.
  generalize ofBuiltins = builtins at h
  have hy := p.runs (c := { scope := builtins.scopes.size }) rfl
    { table := (builtins.pushScope SymbolTable.root .global).1 }
  obtain ⟨rfl, ht⟩ := Prod.mk.inj h
  split at ht
  · rename_i he
    cases ht
    exact (hy (Array.isEmpty_iff.mp he)).2
  · cases ht

end SketchCompiler
