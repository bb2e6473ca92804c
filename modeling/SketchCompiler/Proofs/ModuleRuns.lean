import SketchCompiler.Proofs.ClampPlaces
import SketchCompiler.Proofs.GlobalSymbols
import SketchCompiler.Proofs.PairedUnits

namespace SketchCompiler

open Node Resolve SymbolTable List

variable {a : List Nat}

lemma SymbolTable.outer_ofBuiltins : ofBuiltins.Outer where
  scope_eq := outermost_ofBuiltins.scope_eq
  members_eq := by
    have hempty (id : SymbolId) : (empty.get id).members = none := by
      rw [get_of_size_le (Nat.zero_le id)]
      rfl
    refine ofBuiltins_induction (J := fun t => ∀ id, (t.get id).members = none) hempty fun t u name i ht hd id => ?_
    rw [(get_of_declare hd).2.2.2]
    split
    · rfl
    · exact ht id
  root_parent := matches_ofBuiltins.1.root_parent
  named_lt _ hx := matches_ofBuiltins.1.named_lt hx

/-- The resolution of a unit: where it stands, and the state it starts from. -/
structure UnitRun where
  site : Site
  start : Resolution

namespace UnitRun

/-- The resolution of a whole program, behind the names that every program knows. -/
def main (known : SymbolTable) : UnitRun where
  site := { scope := (known.pushScope root .global).2 }
  start := { table := (known.pushScope root .global).1 }

/-- The resolution of the module that is item `j` of a unit. The items before it are declared first. -/
def module (x : UnitRun) (u : Program) (j : Nat) (aliasName : String) : UnitRun :=
  let r := (declareItems x.site (u.items.take j) x.start).2
  { site := { x.site with scope := r.table.scopes.size }
    start := { r with table := (r.table.pushModule ((r.table.scope x.site.scope).path ++ [aliasName])).1 } }

def tree (x : UnitRun) (u : Program) : Program := (u.resolveUnit x.site x.start).1

def stop (x : UnitRun) (u : Program) : Resolution := (u.resolveUnit x.site x.start).2

def errors (x : UnitRun) (u : Program) : List (Located NameError) :=
  (x.stop u).errors.toList.drop x.start.errors.toList.length

/-- The symbol is not there when the unit is entered, and is there when it is done: it is declared in the unit, or in a
module that the unit loads. -/
def Adds (x : UnitRun) (u : Program) (id : SymbolId) : Prop :=
  x.start.table.symbols.size ≤ id ∧ id < (x.stop u).table.symbols.size

/-- While `x` resolves the unit `u`, the module `q` at the place `a` is resolved by `y`. The path holds the alias of the
module, behind those of the modules around it. -/
inductive Leads : UnitRun → Program → List Nat → List String → Program → UnitRun → Prop
  | here {x u q j l aliasName file symbol} (hj : u.items[j]? = some (.module l aliasName file symbol q)) :
      Leads x u [j] [aliasName.text] q (x.module u j aliasName.text)
  | inside {x y u q q' j l aliasName file symbol a path} (hj : u.items[j]? = some (.module l aliasName file symbol q))
      (h : Leads (x.module u j aliasName.text) q a path q' y) : Leads x u (j :: 0 :: a) (aliasName.text :: path) q' y

lemma exists_leads (x : UnitRun) {u q} {l} {aliasName} {file}
    {symbol} (h : (unit u).at? a = some (item (.module l aliasName file symbol q))) :
    ∃ path y, x.Leads u a path q y := by
  induction hn : a.length using Nat.strongRecOn generalizing x u a with
  | ind n ih =>
    cases a with
    | nil => cases h
    | cons j a =>
      obtain ⟨c, hc, h⟩ := Option.bind_eq_some_iff.mp h
      rw [children, getElem?_map] at hc
      obtain ⟨i, hi, rfl⟩ := Option.map_eq_some_iff.mp hc
      cases a with
      | nil =>
        cases h
        exact ⟨_, _, .here hi⟩
      | cons j' a =>
        obtain ⟨l, aliasName, file, symbol, q, rfl, rfl, h⟩ := module_of_at?_item h rfl
        obtain ⟨path, y, hy⟩ := ih a.length (by simp only [length_cons] at hn; omega) _ h rfl
        exact ⟨_, y, .inside hi hy⟩

/-- At its start a unit knows the names that every program knows, and its own scope is empty. -/
structure Ready (known : SymbolTable) (x : UnitRun) (kind : ScopeKind) (path : List String) : Prop where
  get_eq {i : SymbolId} : i < known.symbols.size → x.start.table.get i = known.get i
  symbols_le : known.symbols.size ≤ x.start.table.symbols.size
  root_eq : x.start.table.scope root = known.scope root
  scope_pos : 0 < x.site.scope
  scopes_size : x.start.table.scopes.size = x.site.scope + 1
  scope_eq : x.start.table.scope x.site.scope = { parent := some root, kind, path }
  loopAt : x.start.table.LoopAt x.site.scope false
  owner_eq : x.site.owner = none
  declaring_eq : x.site.declaring = none

lemma ready_main {known : SymbolTable} (hpos : 0 < known.scopes.size) (hpath : (known.scope root).path = []) :
    Ready known (main known) .global [] where
  get_eq _ := rfl
  symbols_le := le_rfl
  root_eq := scope_push_of_lt known _ hpos
  scope_pos := hpos
  scopes_size := Array.size_push _
  scope_eq := by
    rw [← hpath]
    exact scope_push_size known _
  loopAt := loopAt_push known (by simp) (by simp)
  owner_eq := rfl
  declaring_eq := rfl

/-- Two starts of units of one kind. -/
def Ready.pairing {known : SymbolTable} {x y : UnitRun} {kind : ScopeKind} {path path' : List String}
    (hk : known.Outer) (hx : Ready known x kind path) (hy : Ready known y kind path') : Pairing where
  outer := known
  left := ⟨x.start.table.symbols.size, x.site.scope, path⟩
  right := ⟨y.start.table.symbols.size, y.site.scope, path'⟩
  isOuter := hk
  outer_le_left := hx.symbols_le
  outer_le_right := hy.symbols_le
  left_pos := hx.scope_pos
  right_pos := hy.scope_pos

namespace Ready

variable {known : SymbolTable} {x y : UnitRun} {kind : ScopeKind} {path path' : List String}

lemma scope_behind (hx : Ready known x kind path) (n : Nat) :
    x.start.table.scope (x.site.scope + (n + 1)) = default := by
  have h : ¬ x.site.scope + (n + 1) < x.start.table.scopes.size := by
    rw [hx.scopes_size]
    exact not_lt.mpr (Nat.add_le_add_left (Nat.succ_le_succ (Nat.zero_le n)) _)
  simp [scope, h]

variable (hk : known.Outer) (hx : Ready known x kind path) (hy : Ready known y kind path')

include hk hx hy

lemma agrees : (pairing hk hx hy).Agrees x.start.table y.start.table where
  symbols_size := ⟨0, rfl, rfl⟩
  scopes_size := ⟨0, hx.scopes_size, hy.scopes_size⟩
  known hi := ⟨hx.get_eq hi, hy.get_eq hi⟩
  root_eq := ⟨hx.root_eq, hy.root_eq⟩
  symbol n := by
    have hl : x.start.table.get (x.start.table.symbols.size + n) = default := by simp [SymbolTable.get]
    have hr : y.start.table.get (y.start.table.symbols.size + n) = default := by simp [SymbolTable.get]
    show (pairing hk hx hy).SameSymbol (x.start.table.get (x.start.table.symbols.size + n))
      (y.start.table.get (y.start.table.symbols.size + n))
    rw [hl, hr]
    exact ⟨rfl, rfl, rfl, .root, .none⟩
  names n := by
    show (pairing hk hx hy).SameNames _ (x.start.table.scope (x.site.scope + n))
      (y.start.table.scope (y.site.scope + n))
    cases n with
    | zero =>
      rw [Nat.add_zero, Nat.add_zero, hx.scope_eq, hy.scope_eq]
      refine ⟨rfl, ?_, .nil⟩
      have hp : SamePath path path' (path ++ []) (path' ++ []) := .inside []
      rwa [append_nil, append_nil] at hp
    | succ n =>
      rw [hx.scope_behind, hy.scope_behind]
      exact ⟨rfl, .outside _, .nil⟩
  parent n := by
    show Option.Rel _ (x.start.table.scope (x.site.scope + n)).parent (y.start.table.scope (y.site.scope + n)).parent
    cases n with
    | zero =>
      rw [Nat.add_zero, Nat.add_zero, hx.scope_eq, hy.scope_eq]
      exact .some .root
    | succ n =>
      rw [hx.scope_behind, hy.scope_behind]
      exact .none
  path_eq := by
    show (x.start.table.scope x.site.scope).path = path ∧ (y.start.table.scope y.site.scope).path = path'
    rw [hx.scope_eq, hy.scope_eq]
    exact ⟨rfl, rfl⟩

lemma sameSite : (pairing hk hx hy).SameSite [((x.site.scope, y.site.scope), false)] false x.site y.site where
  scope := .head _
  same := .own 0
  owner := ⟨known, by rw [hx.owner_eq, hy.owner_eq]; exact .none⟩
  declaring_eq := hx.declaring_eq.trans hy.declaring_eq.symm

lemma stands {t} (ht : x.start.table.KeepsScopes t) :
    ∀ s ∈ [((x.site.scope, y.site.scope), false)], (pairing hk hx hy).Stands t s := by
  have h := Pairing.Inner.mk (k := pairing hk hx hy) (t := t) (n := 0)
  refine forall_mem_singleton.mpr ⟨h ?_, hx.loopAt.mono ht⟩
  exact Nat.lt_of_lt_of_le (Nat.lt_of_lt_of_eq (Nat.lt_succ_self _) hx.scopes_size.symm) ht.scopes_le

lemma together {u}
    (hu : (unit u).Blank) : (pairing hk hx hy).SameNode (x.stop u).table (unit (x.tree u)) (unit (y.tree u)) ∧
      Forall₂ (pairing hk hx hy).SameError (x.errors u) (y.errors u) := by
  obtain ⟨-, ht, -, ⟨es, es', he, he', hes⟩, -⟩ := u.pairs_unit (sameSite hk hx hy) hu x.start y.start
    (agrees hk hx hy) (stands hk hx hy (.refl _))
  refine ⟨ht _ le_rfl, ?_⟩
  unfold errors stop
  rw [he, he', drop_left, drop_left]
  exact hes

end Ready

end UnitRun

lemma declareItems_append (c : Site) (is js : List Item) : declareItems c (is ++ js) = (do
    let is ← declareItems c is
    let js ← declareItems c js
    return is ++ js) := by
  induction is with
  | nil => simp [declareItems]
  | cons i is ih => simp [declareItems, ih]

/-- The resolution of a unit, split at one item: what is ahead of it is declared, then the item, then what is behind it,
and after that all items are resolved. -/
lemma Program.resolveUnit_eq (c : Site) (r : Resolution) {u : Program} {j : Nat} {i} (hj : u.items[j]? = some i) :
    u.resolveUnit c r = let ahead := declareItems c (u.items.take j) r
      let own := i.declare c ahead.2
      let behind := declareItems c (u.items.drop (j + 1)) own.2
      let all := (ahead.1 ++ own.1 :: behind.1).mapM (·.resolve c) behind.2
      ({ u with items := all.1 }, all.2) := by
  obtain ⟨name, mainMark, items⟩ := u
  obtain ⟨hlt, rfl⟩ := List.getElem?_eq_some_iff.mp hj
  have hitems : items = items.take j ++ items[j] :: items.drop (j + 1) := by simp
  have h : declareItems c items = (do
      let is ← declareItems c (items.take j)
      let i ← items[j].declare c
      let js ← declareItems c (items.drop (j + 1))
      return is ++ i :: js) := by
    conv_lhs => rw [hitems, declareItems_append]
    simp [declareItems]
  rw [Program.resolveUnit, h]
  rfl

lemma Resolve.errors_declareIn (s : ScopeId) (name : Name) (kind : SymbolKind) (type : Option TypeName)
    (r : Resolution) : ∃ es, (declareIn s name kind type r).2.errors.toList = r.errors.toList ++ es := by
  have hlooks (f : SymbolTable → Resolve (Option SymbolId)) : (table >>= f) r = f r.table r := rfl
  unfold declareIn
  rw [hlooks]
  rcases r.table.declare { name := name.text, kind, type, scope := s } with _ | ⟨t, id⟩
  · exact ⟨_, Array.toList_push⟩
  · exact ⟨[], (append_nil _).symm⟩

lemma Item.declare_module (c : Site) (r : Resolution) (l : Location) (aliasName : Name) (file : String)
    (symbol : Option SymbolId) (q : Program) :
    let start := { r with table := (r.table.pushModule ((r.table.scope c.scope).path ++ [aliasName.text])).1 }
    let run := q.resolveUnit { c with scope := r.table.scopes.size } start
    ∃ symbol' es, ((Item.module l aliasName file symbol q).declare c r).1 =
        .module l aliasName file symbol' run.1 ∧
      ((Item.module l aliasName file symbol q).declare c r).2.errors.toList = run.2.errors.toList ++ es := by
  intro start run
  have hm (id : Option SymbolId) (s : ScopeId) (r : Resolution) : (setMembers id s r).2.errors = r.errors := by
    cases id <;> rfl
  obtain ⟨es, hes⟩ := errors_declareIn c.scope aliasName .moduleAlias none run.2
  refine ⟨_, es, rfl, ?_⟩
  rw [← hes]
  exact congrArg Array.toList (hm _ _ _)

namespace UnitRun

section

variable {known : SymbolTable} {x y : UnitRun} {kind : ScopeKind} {path path' : List String} {u q : Program} {j : Nat}
  {l : Location} {aliasName : Name} {file : String} {symbol : Option SymbolId}

lemma Ready.module (hk : known.Outer) (hx : Ready known x kind path) (hu : (unit u).Blank) (j : Nat)
    (aliasName : String) : Ready known (x.module u j aliasName) .module (path ++ [aliasName]) := by
  obtain ⟨-, -, h, -⟩ := pairs_declareItems (Ready.sameSite hk hx hx) (u.items.take j)
    (fun i hi => hu.child (mem_map_of_mem (mem_of_mem_take hi))) x.start x.start (Ready.agrees hk hx hx)
    (Ready.stands hk hx hx (.refl _))
  obtain ⟨n, hn, -⟩ := h.symbols_size
  obtain ⟨m, hm, -⟩ := h.scopes_size
  have hpos : 0 < (declareItems x.site (u.items.take j) x.start).2.table.scopes.size := by
    rw [hm]
    exact Nat.succ_pos _
  refine ⟨fun hi => (h.known hi).1, ?_, ?_, hpos, Array.size_push _, ?_, loopAt_push _ (by simp) (by simp), hx.owner_eq,
    hx.declaring_eq⟩
  · exact hx.symbols_le.trans ((Nat.le_add_right _ n).trans (hn.symm.le))
  · exact (scope_push_of_lt _ _ hpos).trans h.root_eq.1
  · refine (scope_push_size _ _).trans ?_
    have hpath : ((declareItems x.site (u.items.take j) x.start).2.table.scope x.site.scope).path = path := h.path_eq.1
    rw [hpath]

lemma Ready.stop_errors (hk : known.Outer) (hx : Ready known x kind path) (hu : (unit u).Blank) :
    (x.stop u).errors.toList = x.start.errors.toList ++ x.errors u := by
  obtain ⟨-, -, -, ⟨es, -, he, -, -⟩, -⟩ := u.pairs_unit (Ready.sameSite hk hx hx) hu x.start x.start
    (Ready.agrees hk hx hx) (Ready.stands hk hx hx (.refl _))
  unfold errors stop
  rw [he, drop_left]

lemma getElem?_mapM {α β : Type} (f : α → Resolve β) (as : List α) (j : Nat) (r : Resolution) :
    ∃ r', (as.mapM f r).1[j]? = as[j]?.map fun a => (f a r').1 := by
  induction as generalizing j r with
  | nil => exact ⟨r, rfl⟩
  | cons a as ih =>
    rw [mapM_cons]
    cases j with
    | zero => exact ⟨r, rfl⟩
    | succ j => exact ih j (f a r).2

lemma tree_module (x : UnitRun) (hj : u.items[j]? = some (.module l aliasName file symbol q)) : ∃ symbol',
    (x.tree u).items[j]? = some (.module l aliasName file symbol' ((x.module u j aliasName.text).tree q)) := by
  have hlen : (declareItems x.site (u.items.take j) x.start).1.length = j := by
    rw [length_declareItems, length_take]
    exact Nat.min_eq_left (Nat.le_of_lt (lt_of_getElem? hj))
  obtain ⟨symbol', -, hi, -⟩ := Item.declare_module x.site (declareItems x.site (u.items.take j) x.start).2 l aliasName
    file symbol q
  refine ⟨symbol', ?_⟩
  rw [tree, Program.resolveUnit_eq x.site x.start hj]
  dsimp only
  rw [hi]
  generalize (declareItems x.site (u.items.take j) x.start).1 = ahead at hlen
  generalize declareItems x.site (u.items.drop (j + 1)) _ = behind
  have hget : (ahead ++ .module l aliasName file symbol' ((x.module u j aliasName.text).tree q) :: behind.1)[j]? =
      some (.module l aliasName file symbol' ((x.module u j aliasName.text).tree q)) := by
    rw [← hlen]
    simp
  -- The second pass over the items leaves modules as they are.
  obtain ⟨r, hr⟩ := getElem?_mapM (Item.resolve x.site) (ahead ++ .module l aliasName file symbol'
    ((x.module u j aliasName.text).tree q) :: behind.1) j behind.2
  exact hr.trans (by rw [hget]; rfl)

lemma errors_module (hk : known.Outer) (hx : Ready known x kind path) (hu : (unit u).Blank)
    (hj : u.items[j]? = some (.module l aliasName file symbol q)) :
    ∃ before behind, x.errors u = before ++ (x.module u j aliasName.text).errors q ++ behind := by
  have hi := hu.item_at hj
  have hblank {is : List Item} (h : is ⊆ u.items) : ∀ i ∈ is, (item i).Blank :=
    fun i hi => hu.child (mem_map_of_mem (h hi))
  have hc := Ready.sameSite hk hx hx
  obtain ⟨h1, hd1, ht1, ⟨e1, -, he1, -⟩, -⟩ := pairs_declareItems hc (u.items.take j) (hblank (take_subset _ _))
    x.start x.start (Ready.agrees hk hx hx) (Ready.stands hk hx hx (.refl _))
  obtain ⟨h2, hd2, ht2, -⟩ := Item.pairs_declare hc _ hi _ _ ht1 (Ready.stands hk hx hx h1)
  obtain ⟨h3, hd3, ht3, ⟨e3, -, he3, -⟩, -⟩ := pairs_declareItems hc (u.items.drop (j + 1)) (hblank (drop_subset _ _))
    _ _ ht2 (Ready.stands hk hx hx (h1.trans h2))
  have hds := rel_append (hd1 _ (h2.trans h3).symbols_le) (.cons (hd2 _ h3.symbols_le) (hd3 _ le_rfl))
  obtain ⟨-, -, -, ⟨e4, -, he4, -⟩, -⟩ := Together.mapM (P := (Ready.pairing hk hx hx).SameItem) hds
    (fun hi => Item.pairs hc hi) _ _ ht3 (Ready.stands hk hx hx (h1.trans (h2.trans h3)))
  obtain ⟨-, e2, -, he2⟩ := Item.declare_module x.site (declareItems x.site (u.items.take j) x.start).2 l aliasName
    file symbol q
  have he := ((Ready.module hk hx hu j aliasName.text).stop_errors hk (hi.child (.head _))).trans
    (congrArg (· ++ _) he1)
  have hstop : (x.stop u).errors.toList = x.start.errors.toList ++
      (e1 ++ (x.module u j aliasName.text).errors q ++ (e2 ++ e3 ++ e4)) := by
    calc (x.stop u).errors.toList
      _ = ((x.module u j aliasName.text).stop q).errors.toList ++ e2 ++ e3 ++ e4 := by
        rw [stop, Program.resolveUnit_eq x.site x.start hj]
        exact he4.trans (congrArg (· ++ e4) (he3.trans (congrArg (· ++ e3) he2)))
      _ = _ := by
        rw [he]
        simp only [append_assoc]
  refine ⟨e1, e2 ++ e3 ++ e4, ?_⟩
  rw [errors, hstop, drop_left]

lemma Leads.part (h : Leads x u a path' q y) (hk : known.Outer) (hx : Ready known x kind path)
    (hu : (unit u).Blank) : Ready known y .module (path ++ path') ∧ (unit q).Blank ∧
      (unit (x.tree u)).at? (a ++ [0]) = some (unit (y.tree q)) ∧
      ∃ before behind, x.errors u = before ++ y.errors q ++ behind := by
  induction h generalizing kind path with
  | @here x u q j l aliasName file symbol hj =>
    obtain ⟨symbol', ht⟩ := tree_module x hj
    refine ⟨hx.module hk hu j _, (hu.item_at hj).child (.head _), ?_, errors_module hk hx hu hj⟩
    rw [singleton_append, at?, children, getElem?_map, ht]
    rfl
  | @inside x y u q q' j l aliasName file symbol a path' hj _ ih =>
    obtain ⟨symbol', ht⟩ := tree_module x hj
    obtain ⟨hy, hq, hy', before, behind, he⟩ := ih (hx.module hk hu j _) ((hu.item_at hj).child (.head _))
    obtain ⟨before', behind', he'⟩ := errors_module hk hx hu hj
    rw [append_assoc, singleton_append] at hy
    refine ⟨hy, hq, ?_, before' ++ before, behind ++ behind', ?_⟩
    · rw [cons_append, cons_append, at?, children, getElem?_map, ht]
      exact hy'
    · rw [he', he]
      simp only [append_assoc]

end

end UnitRun

def Program.nameErrors (p : Program) : List (Located NameError) :=
  match p.resolveNames.2 with
  | .ok _ => []
  | .error es => es

namespace UnitRun

lemma tree_main (p : Program) : (main ofBuiltins).tree p = p.resolveNames.1 := by
  unfold Program.resolveNames
  generalize ofBuiltins = known
  rfl

lemma errors_main (p : Program) : (main ofBuiltins).errors p = p.nameErrors := by
  unfold Program.nameErrors Program.resolveNames
  generalize ofBuiltins = known
  show ((main known).stop p).errors.toList.drop 0 =
    match (if ((main known).stop p).errors.isEmpty then .ok ((main known).stop p).table
      else .error ((main known).stop p).errors.toList : Except (List (Located NameError)) SymbolTable) with
    | .ok _ => []
    | .error es => es
  rw [drop_zero]
  by_cases he : ((main known).stop p).errors.isEmpty
  · rw [if_pos he, Array.isEmpty_iff.mp he]
  · rw [if_neg he]

/-- The run is a part of the resolution of `p`: it gives the tree of the module at the place `a`, and its errors are
reported in one piece. -/
structure PartOf (x : UnitRun) (p : Program) (a : List Nat) (q : Program) : Prop where
  tree_at : (unit p.resolveNames.1).at? (a ++ [0]) = some (unit (x.tree q))
  errors_in : ∃ before behind, p.nameErrors = before ++ x.errors q ++ behind

/-- The number that a symbol has in the run `y`. The names that every program knows keep theirs. -/
def renumber (x y : UnitRun) (id : SymbolId) : SymbolId :=
  if id < ofBuiltins.symbols.size then id else id - x.start.table.symbols.size + y.start.table.symbols.size

/-- Two runs resolve the unit `q` in the same way. -/
structure SameOn (q : Program) (x y : UnitRun) (path path' : List String) : Prop where
  trees : (unit (x.tree q)).Alike (unit (y.tree q))
  ids {a : List Nat} {n m : Node} : (unit (x.tree q)).at? a = some n → (unit (y.tree q)).at? a = some m →
    m.ids = n.ids.map (·.map (x.renumber y))
  errors : List.Forall₂ (fun e e' => e.loc = e'.loc ∧ e.value.Same path path' e'.value) (x.errors q) (y.errors q)

/-- All names of the unit resolve to names that every program knows, or to what the unit and its modules declare. -/
def Closed (x : UnitRun) (q : Program) : Prop :=
  ∀ n ∈ (unit (x.tree q)).nodes, ∀ id, some id ∈ n.ids → id < ofBuiltins.symbols.size ∨ x.Adds q id

section

variable {x y : UnitRun} {kind : ScopeKind} {path path' : List String} {q : Program}

lemma Ready.renumber_eq (hx : Ready ofBuiltins x kind path) (hy : Ready ofBuiltins y kind path') {t}
    {i j} (h : (Ready.pairing outer_ofBuiltins hx hy).SameId t i j) : x.renumber y i = j := by
  unfold renumber
  cases h with
  | known hi => exact if_pos hi
  | own h =>
    obtain ⟨hn⟩ := h
    rename_i n
    have hle : ¬ x.start.table.symbols.size + n < ofBuiltins.symbols.size :=
      not_lt.mpr (hx.symbols_le.trans (Nat.le_add_right _ n))
    show (if x.start.table.symbols.size + n < ofBuiltins.symbols.size then x.start.table.symbols.size + n
      else x.start.table.symbols.size + n - x.start.table.symbols.size + y.start.table.symbols.size) =
        y.start.table.symbols.size + n
    rw [if_neg hle, Nat.add_sub_cancel_left, Nat.add_comm]

lemma Ready.sameOn (hx : Ready ofBuiltins x kind path) (hy : Ready ofBuiltins y kind path') (hq : (unit q).Blank) :
    SameOn q x y path path' := by
  obtain ⟨ht, he⟩ := Ready.together outer_ofBuiltins hx hy hq
  refine ⟨fun a => ?_, fun hn hm => ?_, he⟩
  · exact (q.alike_resolveUnit x.site x.start a).trans (q.alike_resolveUnit y.site y.start a).symm
  · have h := ht _ _ _ hn hm
    revert h
    generalize ids _ = xs
    generalize ids _ = ys
    intro h
    induction h with
    | nil => rfl
    | cons hij _ ih =>
      rw [map_cons, ih]
      cases hij with
      | none => rfl
      | some hij => rw [Option.map_some, hx.renumber_eq hy hij]

lemma Ready.closed (hx : Ready ofBuiltins x kind path) (hq : (unit q).Blank) : x.Closed q := by
  obtain ⟨ht, -⟩ := Ready.together outer_ofBuiltins hx hx hq
  intro n hn id hid
  obtain ⟨a, ha⟩ := mem_nodes.mp hn
  cases forall₂_same.mp (ht a n n ha ha) (some id) hid with
  | some h =>
    cases h with
    | known hi => exact .inl hi
    | own h => exact .inr h.bounds

end

end UnitRun

lemma Program.Read.blank {p : Program} (hp : p.Read) : (unit p).Blank := by
  intro n hn symbol hs
  obtain ⟨hnum, -, -, -, -, hm⟩ := hp.fresh n hn
  unfold ids at hs
  split at hs
  · rw [mem_singleton.mp hs]
    exact hm
  · exact hnum symbol hs

/-- A module that is loaded in two places, by one program or by two and under any aliases, is resolved in the same way.
Its numbers differ by a fixed shift and its errors in the aliases around it, and no name in it resolves to a declaration
outside of the module and of those it loads. -/
theorem Program.modules_resolve_alike {p p' q : Program} {a a' : List Nat} {l l' : Location}
    {aliasName aliasName' : Name} {file file' : String} {symbol symbol' : Option SymbolId}
    (hp : (unit p).Blank) (hp' : (unit p').Blank)
    (ha : (unit p).at? a = some (item (.module l aliasName file symbol q)))
    (ha' : (unit p').at? a' = some (item (.module l' aliasName' file' symbol' q))) :
    ∃ path path' x y, (UnitRun.main ofBuiltins).Leads p a path q x ∧ (UnitRun.main ofBuiltins).Leads p' a' path' q y ∧
      x.PartOf p a q ∧ y.PartOf p' a' q ∧ UnitRun.SameOn q x y path path' ∧ x.Closed q ∧ y.Closed q := by
  have hmain : UnitRun.Ready ofBuiltins (.main ofBuiltins) .global [] :=
    UnitRun.ready_main outermost_ofBuiltins.root_lt scopes_ofBuiltins.2
  obtain ⟨path, x, hx⟩ := UnitRun.exists_leads (.main ofBuiltins) ha
  obtain ⟨path', y, hy⟩ := UnitRun.exists_leads (.main ofBuiltins) ha'
  obtain ⟨hrx, hq, htx, hex⟩ := hx.part outer_ofBuiltins hmain hp
  obtain ⟨hry, -, hty, hey⟩ := hy.part outer_ofBuiltins hmain hp'
  rw [UnitRun.tree_main] at htx hty
  rw [UnitRun.errors_main] at hex hey
  exact ⟨path, path', x, y, hx, hy, ⟨htx, hex⟩, ⟨hty, hey⟩, hrx.sameOn hry hq, hrx.closed hq, hry.closed hq⟩

namespace Sample

def strayText : String := "fn f() { f = m }"

def loadAs (aliasName : String) (q : Program) : Item := .module default ⟨aliasName, default⟩ "f.ys" none q

def direct : Program := ⟨"main", none, (ofText "mut int m = 1").items ++ [loadAs "a" (ofText strayText)]⟩

def nested : Program := ⟨"main", none, [loadAs "lib" ⟨"lib.ys", none, [loadAs "c" (ofText strayText)]⟩]⟩

lemma blank_loadAs {q} (aliasName : String) (hq : (Node.unit q).Blank) : (item (loadAs aliasName q)).Blank :=
  .of_children (fun _ hs => mem_singleton.mp hs) fun _ hc => mem_singleton.mp hc ▸ hq

lemma blank_unit {p : Program} (h : ∀ i ∈ p.items, (item i).Blank) : (Node.unit p).Blank := by
  refine .of_children (fun _ hs => absurd hs not_mem_nil) fun c hc => ?_
  obtain ⟨i, hi, rfl⟩ := mem_map.mp hc
  exact h i hi

theorem stray_resolves_alike :
    direct.nameErrors.map (·.value.message) =
      ["Undefined variable 'm'. Did you mean 'f'?", "Cannot assign to constant 'a.f'"] ∧
    nested.nameErrors.map (·.value.message) =
      ["Undefined variable 'm'. Did you mean 'f'?", "Cannot assign to constant 'lib.c.f'"] ∧
    ∃ path path' x y, (UnitRun.main ofBuiltins).Leads direct [1] path (ofText strayText) x ∧
      (UnitRun.main ofBuiltins).Leads nested [0, 0, 0] path' (ofText strayText) y ∧
      x.PartOf direct [1] (ofText strayText) ∧ y.PartOf nested [0, 0, 0] (ofText strayText) ∧
      UnitRun.SameOn (ofText strayText) x y path path' ∧ x.Closed (ofText strayText) ∧ y.Closed (ofText strayText) := by
  have hq : (Node.unit (ofText strayText)).Blank := (read_ofText (by decide +kernel)).blank
  have hm : (Node.unit (ofText "mut int m = 1")).Blank := (read_ofText (by decide +kernel)).blank
  have hlen : (ofText "mut int m = 1").items.length = 1 := by decide +kernel
  have hdirect : (Node.unit direct).Blank := by
    refine blank_unit fun i hi => ?_
    rcases mem_append.mp hi with hi | hi
    · exact hm.child (mem_map_of_mem hi)
    · exact mem_singleton.mp hi ▸ blank_loadAs "a" hq
  have hlib : (Node.unit ⟨"lib.ys", none, [loadAs "c" (ofText strayText)]⟩).Blank :=
    blank_unit fun i hi => mem_singleton.mp hi ▸ blank_loadAs "c" hq
  have hnested : (Node.unit nested).Blank :=
    blank_unit fun i hi => mem_singleton.mp hi ▸ blank_loadAs "lib" hlib
  have hat : (Node.unit direct).at? [1] = some (item (loadAs "a" (ofText strayText))) := by
    unfold direct
    rw [at?, children, getElem?_map, getElem?_append_right (Nat.le_of_eq hlen), hlen]
    rfl
  refine ⟨by decide +kernel, by decide +kernel, ?_⟩
  exact Program.modules_resolve_alike hdirect hnested hat rfl

end Sample

end SketchCompiler
