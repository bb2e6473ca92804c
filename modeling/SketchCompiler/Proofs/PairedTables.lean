import SketchCompiler.Proofs.TableGrowth

namespace SketchCompiler

open SymbolTable List

variable {x y : Symbol}

/-- The table of the names that every program knows has one scope, and no members. -/
structure SymbolTable.Outer (t : SymbolTable) : Prop where
  scope_eq (id : SymbolId) : (t.get id).scope = root
  members_eq (id : SymbolId) : (t.get id).members = none
  root_parent : (t.scope root).parent = none
  named_lt : ∀ x ∈ (t.scope root).names, x.2 < t.symbols.size

/-- The same path, but for the aliases around a unit: `around` on one side, and `around'` on the other. -/
inductive SamePath (around around' : List String) : List String → List String → Prop
  | outside (path : List String) : SamePath around around' path path
  | inside (path : List String) : SamePath around around' (around ++ path) (around' ++ path)

/-- What a unit finds: how many symbols there are, and its own scope with the aliases around it. -/
structure Entry where
  symbols : Nat
  scope : Nat
  path : List String

/-- The unit is entered in two tables, behind the names that every program knows. -/
structure Pairing where
  outer : SymbolTable
  left : Entry
  right : Entry
  isOuter : outer.Outer
  outer_le_left : outer.symbols.size ≤ left.symbols
  outer_le_right : outer.symbols.size ≤ right.symbols
  left_pos : 0 < left.scope
  right_pos : 0 < right.scope

lemma SamePath.append {around around' p q} (h : SamePath around around' p q) (x : String) :
    SamePath around around' (p ++ [x]) (q ++ [x]) := by
  cases h with
  | outside => exact .outside _
  | inside path =>
    rw [append_assoc, append_assoc]
    exact .inside _

namespace Pairing

/-- The symbols that the unit has added to the table `t` of the left side so far, with those of the right side. -/
inductive Own (k : Pairing) (t : SymbolTable) : SymbolId → SymbolId → Prop
  | mk {n : Nat} : k.left.symbols + n < t.symbols.size → Own k t (k.left.symbols + n) (k.right.symbols + n)

inductive SameId (k : Pairing) (t : SymbolTable) : SymbolId → SymbolId → Prop
  | known {i} : i < k.outer.symbols.size → SameId k t i i
  | own {i j} : k.Own t i j → SameId k t i j

inductive SameScope (k : Pairing) : ScopeId → ScopeId → Prop
  | root : SameScope k root root
  | own (n : Nat) : SameScope k (k.left.scope + n) (k.right.scope + n)

/-- The scopes of the unit that are in the table `t` of the left side. -/
inductive Inner (k : Pairing) (t : SymbolTable) : ScopeId → ScopeId → Prop
  | mk {n : Nat} : k.left.scope + n < t.scopes.size → Inner k t (k.left.scope + n) (k.right.scope + n)

/-- The scopes that are older than the unit's scope `n`. -/
inductive Older (k : Pairing) (n : Nat) : ScopeId → ScopeId → Prop
  | root : Older k n root root
  | own {m : Nat} : m < n → Older k n (k.left.scope + m) (k.right.scope + m)

structure SameSymbol (k : Pairing) (x y : Symbol) : Prop where
  name_eq : x.name = y.name
  kind_eq : x.kind = y.kind
  type_eq : x.type = y.type
  scope : k.SameScope x.scope y.scope
  members : Option.Rel k.SameScope x.members y.members

def SameEntry (k : Pairing) (t : SymbolTable) (x y : String × SymbolId) : Prop := x.1 = y.1 ∧ k.SameId t x.2 y.2

structure SameNames (k : Pairing) (t : SymbolTable) (x y : Scope) : Prop where
  kind_eq : x.kind = y.kind
  path : SamePath k.left.path k.right.path x.path y.path
  names : List.Forall₂ (k.SameEntry t) x.names y.names

/-- The tables agree in what every program knows, and in what the unit has added. -/
structure Agrees (k : Pairing) (t t' : SymbolTable) : Prop where
  symbols_size : ∃ n, t.symbols.size = k.left.symbols + n ∧ t'.symbols.size = k.right.symbols + n
  scopes_size : ∃ n, t.scopes.size = k.left.scope + (n + 1) ∧ t'.scopes.size = k.right.scope + (n + 1)
  known {i : SymbolId} : i < k.outer.symbols.size → t.get i = k.outer.get i ∧ t'.get i = k.outer.get i
  root_eq : t.scope root = k.outer.scope root ∧ t'.scope root = k.outer.scope root
  symbol (n : Nat) : k.SameSymbol (t.get (k.left.symbols + n)) (t'.get (k.right.symbols + n))
  names (n : Nat) : k.SameNames t (t.scope (k.left.scope + n)) (t'.scope (k.right.scope + n))
  parent (n : Nat) :
    Option.Rel (k.Older n) (t.scope (k.left.scope + n)).parent (t'.scope (k.right.scope + n)).parent
  path_eq : (t.scope k.left.scope).path = k.left.path ∧ (t'.scope k.right.scope).path = k.right.path

variable {k : Pairing} {t t' u : SymbolTable} {i j : SymbolId} {s s' : ScopeId}

lemma Own.mono (h : k.Own t i j) (hu : t.symbols.size ≤ u.symbols.size) : k.Own u i j := by
  obtain ⟨hn⟩ := h
  exact ⟨Nat.lt_of_lt_of_le hn hu⟩

lemma Own.bounds (h : k.Own t i j) : k.left.symbols ≤ i ∧ i < t.symbols.size := by
  obtain ⟨hn⟩ := h
  exact ⟨Nat.le_add_right _ _, hn⟩

lemma SameId.mono (h : k.SameId t i j) (hu : t.symbols.size ≤ u.symbols.size) : k.SameId u i j := by
  cases h with
  | known hi => exact .known hi
  | own h => exact .own (h.mono hu)

lemma Inner.mono (h : k.Inner t s s') (hu : t.scopes.size ≤ u.scopes.size) : k.Inner u s s' := by
  obtain ⟨hn⟩ := h
  exact ⟨Nat.lt_of_lt_of_le hn hu⟩

lemma Inner.same (h : k.Inner t s s') : k.SameScope s s' := by
  obtain ⟨hn⟩ := h
  exact .own _

lemma SameNames.mono {x y} (h : k.SameNames t x y) (hu : t.symbols.size ≤ u.symbols.size) :
    k.SameNames u x y :=
  ⟨h.kind_eq, h.path, h.names.imp fun _ _ hxy => ⟨hxy.1, hxy.2.mono hu⟩⟩

lemma rel_bind {α β γ δ : Type} {R : α → β → Prop} {S : γ → δ → Prop} {a : Option α} {b : Option β}
    {f : α → Option γ} {g : β → Option δ} (h : Option.Rel R a b)
    (hf : ∀ {x y}, R x y → Option.Rel S (f x) (g y)) : Option.Rel S (a.bind f) (b.bind g) := by
  cases h with
  | none => exact .none
  | some h => exact hf h

lemma lookup_rel {xs ys : List (String × SymbolId)} (h : Forall₂ (k.SameEntry t) xs ys) (name : String) :
    Option.Rel (k.SameId t) (xs.lookup name) (ys.lookup name) := by
  induction h with
  | nil => exact .none
  | @cons x y xs ys hxy _ ih =>
    obtain ⟨a, i⟩ := x
    obtain ⟨b, j⟩ := y
    obtain ⟨rfl, hij⟩ := hxy
    rw [lookup_cons, lookup_cons]
    dsimp only
    cases name == a with
    | true => exact .some hij
    | false => exact ih

namespace Agrees
variable (h : k.Agrees t t')

include h

lemma get (hi : k.SameId u i j) : k.SameSymbol (t.get i) (t'.get j) := by
  cases hi with
  | known hi =>
    rw [(h.known hi).1, (h.known hi).2]
    refine ⟨rfl, rfl, rfl, ?_, ?_⟩
    · rw [k.isOuter.scope_eq]
      exact .root
    · rw [k.isOuter.members_eq]
      exact .none
  | own hi =>
    obtain ⟨hn⟩ := hi
    exact h.symbol _

lemma kind_eq (hi : k.SameId u i j) : t'.kind j = t.kind i := (h.get hi).kind_eq.symm

lemma names_root : k.SameNames t (t.scope root) (t'.scope root) := by
  rw [h.root_eq.1, h.root_eq.2]
  refine ⟨rfl, .outside _, forall₂_same.mpr fun x hx => ⟨rfl, .known (k.isOuter.named_lt x hx)⟩⟩

lemma scope (hs : k.SameScope s s') : k.SameNames t (t.scope s) (t'.scope s') := by
  cases hs with
  | root => exact h.names_root
  | own n => exact h.names n

lemma member? (hs : k.SameScope s s') (name : String) :
    Option.Rel (k.SameId t) (t.member? s name) (t'.member? s' name) :=
  lookup_rel (h.scope hs).names name

lemma chainOf_root (f f' : Nat) : Forall₂ (k.SameNames t) (t.chainOf (f + 1) root) (t'.chainOf (f' + 1) root) := by
  have hp : (t.scope root).parent = none ∧ (t'.scope root).parent = none := by
    rw [h.root_eq.1, h.root_eq.2]
    exact ⟨k.isOuter.root_parent, k.isOuter.root_parent⟩
  rw [chainOf, chainOf, hp.1, hp.2]
  exact .cons h.names_root .nil

/-- The tables differ in how many scopes are older, but the way from a scope of the unit to the root does not. -/
lemma chainOf_own (n : Nat) : ∀ {f f' : Nat}, n + 1 < f → n + 1 < f' →
    Forall₂ (k.SameNames t) (t.chainOf f (k.left.scope + n)) (t'.chainOf f' (k.right.scope + n)) := by
  induction n using Nat.strongRecOn with
  | ind n ih =>
    intro f f' hf hf'
    obtain ⟨f, rfl⟩ : ∃ g, f = g + 1 + 1 := ⟨f - 2, by omega⟩
    obtain ⟨f', rfl⟩ : ∃ g, f' = g + 1 + 1 := ⟨f' - 2, by omega⟩
    have hp := h.parent n
    rw [chainOf, chainOf]
    generalize (t.scope (k.left.scope + n)).parent = p, (t'.scope (k.right.scope + n)).parent = p' at hp ⊢
    cases hp with
    | none => exact .cons (h.names n) .nil
    | some hp =>
      refine .cons (h.names n) ?_
      cases hp with
      | root => exact h.chainOf_root f f'
      | own hm => exact ih _ hm (by omega) (by omega)

lemma chain (hs : k.SameScope s s') : Forall₂ (k.SameNames t) (t.chain s) (t'.chain s') := by
  cases hs with
  | root => exact h.chainOf_root _ _
  | own n =>
    have hl := k.left_pos
    have hr := k.right_pos
    exact h.chainOf_own n (by omega) (by omega)

lemma lookup? (hs : k.SameScope s s') (name : String) :
    Option.Rel (k.SameId t) (t.lookup? s name) (t'.lookup? s' name) := by
  have hc := h.chain hs
  unfold SymbolTable.lookup?
  generalize t.chain s = xs, t'.chain s' = ys at hc ⊢
  induction hc with
  | nil => exact .none
  | @cons x y xs ys hxy _ ih =>
    have hx := lookup_rel hxy.names name
    rw [findSome?_cons, findSome?_cons]
    generalize x.names.lookup name = a, y.names.lookup name = b at hx ⊢
    cases hx with
    | none => exact ih
    | some hx => exact .some hx

lemma visible_eq (hs : k.SameScope s s') : t'.visible s' = t.visible s := by
  have names_eq {xs ys : List (String × SymbolId)} (h : Forall₂ (k.SameEntry t) xs ys) :
      ys.map (·.1) = xs.map (·.1) := by
    induction h with
    | nil => rfl
    | cons hxy _ ih => rw [map_cons, map_cons, hxy.1, ih]
  have hc := h.chain hs
  unfold visible
  generalize t.chain s = xs, t'.chain s' = ys at hc ⊢
  induction hc with
  | nil => rfl
  | cons hxy _ ih => rw [flatMap_cons, flatMap_cons, names_eq hxy.names, ih]

lemma inLoop_eq (hs : k.SameScope s s') : t'.inLoop s' = t.inLoop s := by
  have hc := h.chain hs
  unfold inLoop
  generalize t.chain s = xs, t'.chain s' = ys at hc ⊢
  induction hc with
  | nil => rfl
  | @cons x y _ _ hxy _ ih =>
    rw [dropWhile_cons, dropWhile_cons, hxy.kind_eq]
    split
    · exact ih
    · rw [head?_cons, head?_cons, Option.any_some, Option.any_some, hxy.kind_eq]

lemma follow? (hi : k.SameId t i j) (path : List String) :
    Option.Rel (k.SameId t) (t.follow? i path) (t'.follow? j path) := by
  induction path generalizing i j with
  | nil => exact .some hi
  | cons name path ih => exact rel_bind (h.get hi).members fun hs => rel_bind (h.member? hs name) ih

lemma path? (hs : k.SameScope s s') (path : List String) :
    Option.Rel (k.SameId t) (t.path? s path) (t'.path? s' path) := by
  cases path with
  | nil => exact .none
  | cons first path => exact rel_bind (h.lookup? hs first) fun hi => h.follow? hi path

lemma qualifiedPath (hi : k.SameId u i j) :
    SamePath k.left.path k.right.path (t.qualifiedPath i) (t'.qualifiedPath j) := by
  have hx := h.get hi
  unfold SymbolTable.qualifiedPath
  rw [hx.name_eq]
  exact (h.scope hx.scope).path.append _

lemma push {x y : Scope} (hx : k.SameNames t x y)
    (hp : ∀ n, t.scopes.size = k.left.scope + n → Option.Rel (k.Older n) x.parent y.parent) :
    k.Agrees { t with scopes := t.scopes.push x } { t' with scopes := t'.scopes.push y } ∧
      k.Inner { t with scopes := t.scopes.push x } t.scopes.size t'.scopes.size := by
  obtain ⟨n, hl, hr⟩ := h.scopes_size
  have hlpos := k.left_pos
  have hrpos := k.right_pos
  -- The new scopes have the same number behind the unit's scope, so both sides change at the same place.
  have new (m : Nat) : k.left.scope + m = t.scopes.size ↔ m = n + 1 := by omega
  have new' (m : Nat) : k.right.scope + m = t'.scopes.size ↔ m = n + 1 := by omega
  refine ⟨⟨h.symbols_size, ⟨n + 1, ?_, ?_⟩, h.known, ?_, h.symbol, fun m => ?_, fun m => ?_, ?_⟩, ?_⟩
  · rw [Array.size_push, hl]
    rfl
  · rw [Array.size_push, hr]
    rfl
  · rw [scope_push, scope_push, if_neg (by rw [root]; omega), if_neg (by rw [root]; omega)]
    exact h.root_eq
  · rw [scope_push, scope_push]
    simp only [new, new']
    split
    · exact hx.mono (Nat.le_refl _)
    · exact (h.names m).mono (Nat.le_refl _)
  · rw [scope_push, scope_push]
    simp only [new, new']
    split
    · rename_i hm
      exact hp m (((new m).mpr hm).symm)
    · exact h.parent m
  · rw [scope_push, scope_push, if_neg (by omega), if_neg (by omega)]
    exact h.path_eq
  · rw [hl, hr]
    refine ⟨?_⟩
    rw [Array.size_push]
    omega

lemma pushScope (hs : k.Inner t s s') (kind : ScopeKind) : k.Agrees (t.pushScope s kind).1 (t'.pushScope s' kind).1 ∧
      k.Inner (t.pushScope s kind).1 t.scopes.size t'.scopes.size := by
  refine h.push ⟨rfl, (h.scope hs.same).path, .nil⟩ fun n hn => .some ?_
  obtain ⟨hm⟩ := hs
  exact .own (by omega)

lemma pushModule (hs : k.Inner t s s') (name : String) :
    k.Agrees (t.pushModule ((t.scope s).path ++ [name])).1 (t'.pushModule ((t'.scope s').path ++ [name])).1 ∧
      k.Inner (t.pushModule ((t.scope s).path ++ [name])).1 t.scopes.size t'.scopes.size :=
  h.push ⟨rfl, (h.scope hs.same).path.append name, .nil⟩ fun _ _ => .some .root

end Agrees

end Pairing

lemma SymbolTable.get_setMembers (t : SymbolTable) (id : SymbolId) (members : ScopeId) (i : SymbolId) :
    (t.setMembers id members).get i =
      if i = id ∧ i < t.symbols.size then { t.get i with members } else t.get i := by
  simp only [get, setMembers, Array.getD_eq_getD_getElem?, Array.getElem?_modify]
  by_cases hi : i < t.symbols.size
  · by_cases he : i = id
    · subst he
      simp [hi]
    · have : id ≠ i := fun h => he h.symm
      simp [he, this]
  · simp [hi]

namespace Pairing.Agrees

variable {k : Pairing} {t t' u : SymbolTable} {s s' : ScopeId}

lemma of_declare (h : k.Agrees t t') (hx : k.SameSymbol x y) (hs : k.Inner t x.scope y.scope)
    {u'} {i j} (hu : t.declare x = .ok (u, i)) (hu' : t'.declare y = .ok (u', j)) :
    k.Agrees u u' ∧ k.Own u i j := by
  obtain ⟨rfl, hsize, hscopes, hget⟩ := get_of_declare hu
  obtain ⟨rfl, hsize', hscopes', hget'⟩ := get_of_declare hu'
  obtain ⟨-, hscope⟩ := scope_of_declare hu
  obtain ⟨-, hscope'⟩ := scope_of_declare hu'
  obtain ⟨n, hl, hr⟩ := h.symbols_size
  obtain ⟨n', hl', hr'⟩ := h.scopes_size
  have hlout := k.outer_le_left
  have hrout := k.outer_le_right
  have hlpos := k.left_pos
  have hrpos := k.right_pos
  have hname := hx.name_eq
  generalize hxs : x.scope = s at hs hscope
  generalize hys : y.scope = s' at hs hscope'
  obtain ⟨hm⟩ := hs
  rename_i m
  have hown : k.Own u t.symbols.size t'.symbols.size := by
    rw [hl, hr]
    exact ⟨by omega⟩
  have hle : t.symbols.size ≤ u.symbols.size := by omega
  -- On both sides it is the scope with the number `m` that gets a name.
  have changed (l : Nat) : k.left.scope + l = k.left.scope + m ∧ k.left.scope + l < t.scopes.size ↔ l = m := by omega
  have changed' (l : Nat) : k.right.scope + l = k.right.scope + m ∧ k.right.scope + l < t'.scopes.size ↔ l = m := by
    omega
  refine ⟨⟨⟨n + 1, by omega, by omega⟩, ⟨n', by omega, by omega⟩, fun hi => ?_, ?_, fun l => ?_, fun l => ?_,
    fun l => ?_, ?_⟩, hown⟩
  · rw [hget, hget', if_neg (Nat.ne_of_lt (Nat.lt_of_lt_of_le hi (by omega))),
      if_neg (Nat.ne_of_lt (Nat.lt_of_lt_of_le hi (by omega)))]
    exact h.known hi
  · rw [hscope, hscope', if_neg fun he => Nat.ne_of_lt (Nat.add_pos_left hlpos m) he.1,
      if_neg fun he => Nat.ne_of_lt (Nat.add_pos_left hrpos m) he.1]
    exact h.root_eq
  · have new : k.left.symbols + l = t.symbols.size ↔ l = n := by omega
    have new' : k.right.symbols + l = t'.symbols.size ↔ l = n := by omega
    rw [hget, hget']
    simp only [new, new']
    split
    · exact hx
    · exact h.symbol l
  · have hnames := (h.names l).mono hle
    rw [hscope, hscope']
    simp only [changed, changed']
    split
    · exact ⟨hnames.kind_eq, hnames.path, .cons ⟨hname, .own hown⟩ hnames.names⟩
    · exact hnames
  · have hp := h.parent l
    rw [hscope, hscope']
    simp only [changed, changed']
    split <;> exact hp
  · rw [hscope, hscope']
    have hp := h.path_eq
    constructor
    · rw [← hp.1]
      split <;> rfl
    · rw [← hp.2]
      split <;> rfl

lemma declare (h : k.Agrees t t') (hx : k.SameSymbol x y) (hs : k.Inner t x.scope y.scope) :
    (∃ i j, t.declare x = .error i ∧ t'.declare y = .error j) ∨
      ∃ u u' i j, t.declare x = .ok (u, i) ∧ t'.declare y = .ok (u', j) ∧ k.Agrees u u' ∧ k.Own u i j := by
  have hm := h.member? hx.scope x.name
  cases hl : t.member? x.scope x.name with
  | none =>
    cases hr : t'.member? y.scope y.name with
    | none =>
      obtain ⟨u, hu⟩ : ∃ u, t.declare x = .ok (u, t.symbols.size) := by
        unfold SymbolTable.declare
        rw [hl]
        exact ⟨_, rfl⟩
      obtain ⟨u', hu'⟩ : ∃ u', t'.declare y = .ok (u', t'.symbols.size) := by
        unfold SymbolTable.declare
        rw [hr]
        exact ⟨_, rfl⟩
      exact .inr ⟨u, u', _, _, hu, hu', h.of_declare hx hs hu hu'⟩
    | some j =>
      rw [hl, hx.name_eq, hr] at hm
      cases hm
  | some i =>
    cases hr : t'.member? y.scope y.name with
    | none =>
      rw [hl, hx.name_eq, hr] at hm
      cases hm
    | some j =>
      refine .inl ⟨i, j, ?_, ?_⟩
      · unfold SymbolTable.declare
        rw [hl]
      · unfold SymbolTable.declare
        rw [hr]

lemma setMembers (h : k.Agrees t t') {i j} (hi : k.Own u i j) (hs : k.SameScope s s') :
    k.Agrees (t.setMembers i s) (t'.setMembers j s') := by
  obtain ⟨hn⟩ := hi
  rename_i n
  obtain ⟨m, hl, hr⟩ := h.symbols_size
  have hlout := k.outer_le_left
  have hrout := k.outer_le_right
  have hsize (t : SymbolTable) (id members : Nat) : (t.setMembers id members).symbols.size = t.symbols.size :=
    Array.size_modify
  refine ⟨⟨m, (hsize ..).trans hl, (hsize ..).trans hr⟩, h.scopes_size, fun hi => ?_, h.root_eq, fun l => ?_,
    fun l => (h.names l).mono (hsize ..).ge, h.parent, h.path_eq⟩
  · rw [get_setMembers, get_setMembers, if_neg fun he => Nat.ne_of_lt (Nat.lt_of_lt_of_le hi (by omega)) he.1,
      if_neg fun he => Nat.ne_of_lt (Nat.lt_of_lt_of_le hi (by omega)) he.1]
    exact h.known hi
  · have hx := h.symbol l
    have changed : k.left.symbols + l = k.left.symbols + n ∧ k.left.symbols + l < t.symbols.size ↔
        l = n ∧ l < m := by omega
    have changed' : k.right.symbols + l = k.right.symbols + n ∧ k.right.symbols + l < t'.symbols.size ↔
        l = n ∧ l < m := by omega
    rw [get_setMembers, get_setMembers]
    simp only [changed, changed']
    split
    · exact ⟨hx.name_eq, hx.kind_eq, hx.type_eq, hx.scope, .some hs⟩
    · exact hx

end Pairing.Agrees

end SketchCompiler
