import SketchCompiler.Proofs.Resolution
import SketchCompiler.Proofs.Scoping

namespace SketchCompiler

open List

namespace SymbolTable

variable {t u v : SymbolTable} {s p id : Nat} {name : String} {x : Symbol}

structure Sound (t : SymbolTable) : Prop where
  root_parent : (t.scope root).parent = none
  parent_lt {s p : Nat} : (t.scope s).parent = some p → p < s
  named_lt {s id : Nat} {name : String} : (name, id) ∈ (t.scope s).names → id < t.symbols.size
  get_named {s id : Nat} {name : String} : (name, id) ∈ (t.scope s).names →
    (t.get id).name = name ∧ (t.get id).scope = s
  nodup_names (s : Nat) : ((t.scope s).names.map (·.1)).Nodup

lemma lookup_eq_some_iff {xs : List (String × SymbolId)} (hx : (xs.map (·.1)).Nodup) :
    xs.lookup name = some id ↔ (name, id) ∈ xs := by
  induction xs with
  | nil => simp
  | cons x xs ih =>
    obtain ⟨key, value⟩ := x
    rw [map_cons, nodup_cons] at hx
    rw [lookup_cons, mem_cons]
    by_cases hk : name = key
    · subst hk
      have hn : (name, id) ∉ xs := by
        intro hm
        exact hx.1 (mem_map.mpr ⟨_, hm, rfl⟩)
      simp [hn, eq_comm]
    · have hb : (name == key) = false := by simpa using hk
      simp [hb, hk, ih hx.2]

lemma Sound.member?_eq_some_iff (ht : t.Sound) : t.member? s name = some id ↔ (name, id) ∈ (t.scope s).names :=
  lookup_eq_some_iff (ht.nodup_names s)

lemma member?_eq_none_iff : t.member? s name = none ↔ ∀ id, (name, id) ∉ (t.scope s).names := by
  simp only [member?, lookup_eq_none_iff, bne_iff_ne, Prod.forall]
  constructor
  · intro h id hm
    exact h name id hm rfl
  · rintro h _ id hm rfl
    exact h id hm

lemma Sound.chainOf_eq (ht : t.Sound) {n m : Nat} (hn : s < n) (hm : s < m) : t.chainOf n s = t.chainOf m s := by
  induction n generalizing s m with
  | zero => omega
  | succ n ih =>
    cases m with
    | zero => omega
    | succ m =>
      rw [chainOf, chainOf]
      cases hp : (t.scope s).parent with
      | none => rfl
      | some p =>
        have hlt : p < s := ht.parent_lt hp
        simp only
        rw [ih (hlt.trans_le (Nat.le_of_lt_succ hn)) (hlt.trans_le (Nat.le_of_lt_succ hm))]

lemma Sound.lookup?_eq (ht : t.Sound) (hp : (t.scope s).parent = some p) :
    t.lookup? s name = (t.member? s name).or (t.lookup? p name) := by
  have hlt : p < s := ht.parent_lt hp
  have hc : t.chainOf s p = t.chainOf (p + 1) p := ht.chainOf_eq hlt (Nat.lt_succ_self p)
  rw [lookup?, chain, chainOf, hp]
  simp only
  rw [hc, findSome?_cons, member?]
  cases (t.scope s).names.lookup name <;> rfl

lemma lookup?_of_no_parent (hp : (t.scope s).parent = none) : t.lookup? s name = t.member? s name := by
  rw [lookup?, chain, chainOf, hp]
  simp only [findSome?_cons, findSome?_nil, member?]
  cases (t.scope s).names.lookup name <;> rfl

/-- `u` has all scopes of `t`, with their parents, paths and names, and all its symbols. -/
structure Later (t u : SymbolTable) : Prop extends t.Extends u where
  parent_eq {s : Nat} : s < t.scopes.size → (u.scope s).parent = (t.scope s).parent
  path_eq {s : Nat} : s < t.scopes.size → (u.scope s).path = (t.scope s).path
  named {s id : Nat} {name : String} : s < t.scopes.size → (name, id) ∈ (t.scope s).names →
    (name, id) ∈ (u.scope s).names

lemma Later.refl (t : SymbolTable) : t.Later t where
  toExtends := .refl t
  parent_eq _ := rfl
  path_eq _ := rfl
  named _ h := h

lemma Later.trans (h : t.Later u) (h' : u.Later v) : t.Later v where
  toExtends := h.toExtends.trans h'.toExtends
  parent_eq hs := (h'.parent_eq (hs.trans_le h.scopes_le)).trans (h.parent_eq hs)
  path_eq hs := (h'.path_eq (hs.trans_le h.scopes_le)).trans (h.path_eq hs)
  named hs hn := h'.named (hs.trans_le h.scopes_le) (h.named hs hn)

/-- The table grew soundly, and of the old scopes only `s` got new names. -/
structure Growth (s : Nat) (t u : SymbolTable) : Prop extends t.Later u where
  sound : u.Sound
  names_eq {x : Nat} : x < t.scopes.size → x ≠ s → (u.scope x).names = (t.scope x).names

lemma Growth.refl (s : Nat) (ht : t.Sound) : Growth s t t where
  toLater := .refl t
  sound := ht
  names_eq _ _ := rfl

lemma Growth.trans (h : Growth s t u) (h' : Growth s u v) : Growth s t v where
  toLater := h.toLater.trans h'.toLater
  sound := h'.sound
  names_eq hx hs := (h'.names_eq (hx.trans_le h.scopes_le) hs).trans (h.names_eq hx hs)

lemma Growth.nested (h : Growth s t u) (h' : Growth p u v) (hp : t.scopes.size ≤ p) : Growth s t v where
  toLater := h.toLater.trans h'.toLater
  sound := h'.sound
  names_eq hx hs := by
    rw [h'.names_eq (hx.trans_le h.scopes_le) (by omega), h.names_eq hx hs]

lemma scope_of_declare (h : t.declare x = .ok (u, id)) : t.member? x.scope x.name = none ∧
    ∀ s, u.scope s = if s = x.scope ∧ s < t.scopes.size then
      { t.scope s with names := (x.name, id) :: (t.scope s).names } else t.scope s := by
  unfold declare at h
  split at h
  · cases h
  · rename_i hn
    simp only [Except.ok.injEq, Prod.mk.injEq] at h
    obtain ⟨rfl, rfl⟩ := h
    refine ⟨hn, fun s => ?_⟩
    simp only [scope, Array.getD_eq_getD_getElem?, Array.getElem?_modify]
    by_cases hs : s < t.scopes.size
    · by_cases he : s = x.scope
      · subst he
        simp [hs]
      · have : x.scope ≠ s := fun h => he h.symm
        simp [he, this]
    · simp [hs]

lemma get_of_declare (h : t.declare x = .ok (u, id)) :
    id = t.symbols.size ∧ u.symbols.size = t.symbols.size + 1 ∧ u.scopes.size = t.scopes.size ∧
      ∀ i, u.get i = if i = id then x else t.get i := by
  unfold declare at h
  split at h
  · cases h
  · cases h
    refine ⟨rfl, Array.size_push _, Array.size_modify, fun i => ?_⟩
    rcases Nat.lt_trichotomy i t.symbols.size with hi | rfl | hi
    · simp [get, hi, hi.ne, Nat.lt_succ_of_lt hi, Array.getElem_push_lt]
    · simp [get]
    · simp [get, hi.ne', not_lt.mpr (hi.le), not_lt.mpr (Nat.succ_le_of_lt hi)]

lemma ofBuiltins_induction {J : SymbolTable → Prop} (hempty : J empty)
    (hdeclare : ∀ t u name id, J t → t.declare { name, scope := root } = .ok (u, id) → J u) : J ofBuiltins := by
  unfold ofBuiltins
  generalize empty = t at hempty
  induction Builtin.names generalizing t with
  | nil => exact hempty
  | cons name names ih =>
    refine ih _ ?_
    dsimp only
    split
    · exact hdeclare _ _ _ _ hempty ‹_›
    · exact hempty

lemma growth_declare {x : Symbol} (ht : t.Sound) (h : t.declare x = .ok (u, id)) : Growth x.scope t u := by
  obtain ⟨he, -, hsize, hget⟩ := extends_declare h
  obtain ⟨hn, hu⟩ := scope_of_declare h
  have hnames {s i : Nat} {name : String} (hm : (name, i) ∈ (u.scope s).names) :
      (name, i) ∈ (t.scope s).names ∨ (s = x.scope ∧ name = x.name ∧ i = id) := by
    rw [hu] at hm
    split at hm
    · rename_i hs
      rcases mem_cons.mp hm with hm | hm
      · cases hm
        exact .inr ⟨hs.1, rfl, rfl⟩
      · exact .inl hm
    · exact .inl hm
  have hparent (s : Nat) : (u.scope s).parent = (t.scope s).parent := by
    rw [hu]
    split <;> rfl
  refine ⟨⟨he, fun _ => hparent _, ?_, ?_⟩, ⟨?_, ?_, ?_, ?_, ?_⟩, ?_⟩
  · intro s _
    rw [hu]
    split <;> rfl
  · intro s i name _ hm
    rw [hu]
    split
    · exact mem_cons_of_mem _ hm
    · exact hm
  · rw [hparent]
    exact ht.root_parent
  · intro s p hp
    rw [hparent] at hp
    exact ht.parent_lt hp
  · intro s i name hm
    rcases hnames hm with hm | ⟨-, -, rfl⟩
    · exact (ht.named_lt hm).trans_le he.symbols_le
    · rw [hsize]
      exact Nat.lt_succ_self _
  · intro s i name hm
    rcases hnames hm with hm | ⟨rfl, rfl, rfl⟩
    · rw [he.get_eq (ht.named_lt hm)]
      exact ht.get_named hm
    · rw [hget]
      exact ⟨rfl, rfl⟩
  · intro s
    rw [hu]
    split
    · rename_i hs
      rw [map_cons, nodup_cons]
      refine ⟨?_, ht.nodup_names s⟩
      rintro hm
      obtain ⟨⟨name, i⟩, hm, rfl⟩ := mem_map.mp hm
      exact member?_eq_none_iff.mp hn i (hs.1 ▸ hm)
    · exact ht.nodup_names s
  · intro s _ hs
    rw [hu, if_neg (fun h => hs h.1)]

lemma named_declare (h : t.declare x = .ok (u, id)) (hs : x.scope < t.scopes.size) :
    (u.scope x.scope).names = (x.name, id) :: (t.scope x.scope).names := by
  rw [(scope_of_declare h).2, if_pos ⟨rfl, hs⟩]

lemma scope_push (t : SymbolTable) (x : Scope) (s : Nat) : SymbolTable.scope { t with scopes := t.scopes.push x } s =
    if s = t.scopes.size then x else t.scope s := by
  by_cases hs : s < t.scopes.size
  · have hne : s ≠ t.scopes.size := hs.ne
    rw [scope_push_of_lt t x hs, if_neg hne]
  · by_cases he : s = t.scopes.size
    · subst he
      rw [scope_push_size, if_pos rfl]
    · have hgt : ¬ s < t.scopes.size + 1 := by omega
      simp [scope, he, hs, hgt]

lemma growth_push (ht : t.Sound) (s : Nat) {x : Scope} (hx : x.names = []) (hp : x.parent = some p)
    (hlt : p < t.scopes.size) : Growth s t { t with scopes := t.scopes.push x } := by
  have hn {y : Nat} : (SymbolTable.scope { t with scopes := t.scopes.push x } y).names = (t.scope y).names := by
    rw [scope_push]
    split
    · rename_i hy
      subst hy
      rw [hx]
      simp [scope]
      rfl
    · rfl
  refine ⟨⟨t.extends_push x, ?_, ?_, ?_⟩, ⟨?_, ?_, ?_, ?_, ?_⟩, ?_⟩
  · intro y hy
    rw [scope_push_of_lt t x hy]
  · intro y hy
    rw [scope_push_of_lt t x hy]
  · intro y i name _ hm
    rwa [hn]
  · have hr : root < t.scopes.size := (Nat.zero_le p).trans_lt hlt
    rw [scope_push_of_lt t x hr]
    exact ht.root_parent
  · intro y q hq
    rw [scope_push] at hq
    split at hq
    · rename_i hy
      rw [hp] at hq
      obtain rfl := Option.some.inj hq
      omega
    · exact ht.parent_lt hq
  · intro y i name hm
    rw [hn] at hm
    exact ht.named_lt hm
  · intro y i name hm
    rw [hn] at hm
    exact ht.get_named hm
  · intro y
    rw [hn]
    exact ht.nodup_names y
  · intro y _ _
    exact hn

lemma growth_pushScope (ht : t.Sound) (hs : s < t.scopes.size) (kind : ScopeKind) (x : Nat) :
    Growth x t (t.pushScope s kind).1 := growth_push ht x rfl rfl hs

lemma growth_pushModule (ht : t.Sound) (hr : root < t.scopes.size) (path : List String) (x : Nat) :
    Growth x t (t.pushModule path).1 := growth_push ht x rfl rfl hr

@[simp]
lemma size_pushScope (t : SymbolTable) (s : Nat) (kind : ScopeKind) :
    (t.pushScope s kind).1.scopes.size = t.scopes.size + 1 := by
  simp [pushScope]

lemma growth_setMembers (ht : t.Sound) (s id members : Nat) : Growth s t (t.setMembers id members) := by
  have he := t.extends_setMembers id members
  refine ⟨⟨he, fun _ => rfl, fun _ => rfl, fun _ hm => hm⟩,
    ⟨ht.root_parent, ht.parent_lt, ?_, ?_, ht.nodup_names⟩, fun _ _ => rfl⟩
  · intro y i name hm
    exact (ht.named_lt hm).trans_le he.symbols_le
  · intro y i name hm
    rw [he.get_eq (ht.named_lt hm)]
    exact ht.get_named hm

/-- All symbols of `t` with their members, and all names of its scopes, are in `u`. -/
structure Keeps (t u : SymbolTable) : Prop where
  scopes_le : t.scopes.size ≤ u.scopes.size
  symbols_le : t.symbols.size ≤ u.symbols.size
  get_eq {id : SymbolId} : id < t.symbols.size → u.get id = t.get id
  member {s : ScopeId} {name : String} {id : SymbolId} : t.member? s name = some id → u.member? s name = some id

lemma lt_of_members {m} (hm : (t.get id).members = some m) : id < t.symbols.size := by
  by_contra hi
  rw [get, Array.getD_eq_getD_getElem?, Array.getElem?_eq_none (not_lt.mp hi)] at hm
  cases hm

namespace Keeps

lemma refl (t : SymbolTable) : t.Keeps t := ⟨le_rfl, le_rfl, fun _ => rfl, fun h => h⟩

lemma trans (h : t.Keeps u) (h' : u.Keeps v) : t.Keeps v where
  scopes_le := h.scopes_le.trans h'.scopes_le
  symbols_le := h.symbols_le.trans h'.symbols_le
  get_eq hi := (h'.get_eq (hi.trans_le h.symbols_le)).trans (h.get_eq hi)
  member hm := h'.member (h.member hm)

lemma members (h : t.Keeps u) {m} (hm : (t.get id).members = some m) : (u.get id).members = some m := by
  rw [h.get_eq (lt_of_members hm), hm]

end Keeps

lemma keeps_push (t : SymbolTable) (x : Scope) : t.Keeps { t with scopes := t.scopes.push x } where
  scopes_le := by simp
  symbols_le := le_rfl
  get_eq _ := rfl
  member {s name id} hm := by
    rw [member?, scope_push]
    split
    case isTrue hs =>
      rw [member?, hs, scope, Array.getD_eq_getD_getElem?, Array.getElem?_eq_none le_rfl] at hm
      cases hm
    case isFalse => exact hm

lemma keeps_declare {x} (h : t.declare x = .ok (u, id)) : t.Keeps u := by
  obtain ⟨he, -⟩ := extends_declare h
  obtain ⟨hn, hu⟩ := scope_of_declare h
  refine ⟨he.scopes_le, he.symbols_le, ?_, ?_⟩
  · intro i hi
    unfold declare at h
    split at h
    · cases h
    · cases h
      simp [get, hi, Nat.lt_succ_of_lt hi, Array.getElem_push_lt]
  · intro s name i hm
    rw [member?, hu]
    split
    · have hne : (name == x.name) = false := by
        simp only [beq_eq_false_iff_ne]
        rintro rfl
        simp_all
      simp only [lookup_cons, hne]
      exact hm
    · exact hm

lemma member?_declare (h : t.declare x = .ok (u, id)) (hs : x.scope < t.scopes.size) :
    u.member? x.scope x.name = some id := by
  rw [member?, named_declare h hs]
  exact lookup_cons_self

lemma keeps_setMembers (hd : t.declare x = .ok (u, id)) (hv : u.Keeps v) (members : ScopeId) :
    t.Keeps (v.setMembers id members) ∧ ((v.setMembers id members).get id).members = some members := by
  obtain ⟨-, rfl, hsize, -⟩ := extends_declare hd
  have hk := (keeps_declare hd).trans hv
  have hlt : t.symbols.size < v.symbols.size := Nat.lt_of_lt_of_le (hsize ▸ Nat.lt_succ_self _) hv.symbols_le
  refine ⟨⟨hk.scopes_le, by simpa [setMembers] using hk.symbols_le, fun {i} hi => ?_, hk.member⟩, ?_⟩
  · rw [← hk.get_eq hi]
    simp [get, setMembers, Array.getElem?_modify, hi.ne']
  · simp [get, setMembers, hlt, Array.getElem_modify]

end SymbolTable

lemma Binder.Stands.mono {x : Binder} {t u : SymbolTable} {id} (h : x.Stands t id) (hu : t.Extends u)
    (hi : id < t.symbols.size) : x.Stands u id :=
  ⟨(hu.kind_eq hi).trans h.1, h.2⟩

/-- From `t` to `u` exactly the names `xs` were added to the scope `s`, which had none of them. -/
structure Adds (s : Nat) (t : SymbolTable) (xs : List Binder) (u : SymbolTable) : Prop
    extends SymbolTable.Growth s t u where
  added {x : Binder} : x ∈ xs → ∃ id, (x.name.text, id) ∈ (u.scope s).names ∧ x.Stands u id
  origin {name : String} {id : Nat} : (name, id) ∈ (u.scope s).names →
    (name, id) ∈ (t.scope s).names ∨ ∃ x ∈ xs, x.name.text = name ∧ x.Stands u id
  fresh {x : Binder} {id : Nat} : x ∈ xs → (x.name.text, id) ∉ (t.scope s).names
  distinct : (xs.map (·.name.text)).Nodup

namespace Adds

variable {s p id : Nat} {t u v : SymbolTable} {xs ys : List Binder} {x : Binder}

lemma refl (s : Nat) (ht : t.Sound) : Adds s t [] t where
  toGrowth := .refl s ht
  added := nofun
  origin h := .inl h
  fresh := nofun
  distinct := nodup_nil

lemma trans (h : Adds s t xs u) (h' : Adds s u ys v) (hs : s < t.scopes.size) : Adds s t (xs ++ ys) v where
  toGrowth := h.toGrowth.trans h'.toGrowth
  added hx := by
    rcases mem_append.mp hx with hx | hx
    · obtain ⟨id, hn, hst⟩ := h.added hx
      exact ⟨id, h'.named (hs.trans_le h.scopes_le) hn, hst.mono h'.toExtends (h.sound.named_lt hn)⟩
    · exact h'.added hx
  origin hn := by
    rcases h'.origin hn with hn | ⟨x, hx, hst⟩
    · rcases h.origin hn with hn' | ⟨x, hx, he, hst⟩
      · exact .inl hn'
      · exact .inr ⟨x, mem_append_left ys hx, he, hst.mono h'.toExtends (h.sound.named_lt hn)⟩
    · exact .inr ⟨x, mem_append_right xs hx, hst⟩
  fresh hx hn := by
    rcases mem_append.mp hx with hx | hx
    · exact h.fresh hx hn
    · exact h'.fresh hx (h.named hs hn)
  distinct := by
    rw [map_append]
    refine nodup_append.mpr ⟨h.distinct, h'.distinct, fun name hn name' hn' hname => ?_⟩
    obtain ⟨x, hx, rfl⟩ := mem_map.mp hn
    obtain ⟨y, hy, rfl⟩ := mem_map.mp hn'
    obtain ⟨id, hn, -⟩ := h.added hx
    rw [hname] at hn
    exact h'.fresh hy hn

lemma nested (h : Adds s t xs u) (h' : SymbolTable.Growth p u v) (hs : s < t.scopes.size) (hp : t.scopes.size ≤ p) :
    Adds s t xs v where
  toGrowth := h.toGrowth.nested h' hp
  added hx := by
    obtain ⟨id, hn, hst⟩ := h.added hx
    exact ⟨id, h'.named (hs.trans_le h.scopes_le) hn, hst.mono h'.toExtends (h.sound.named_lt hn)⟩
  origin hn := by
    rw [h'.names_eq (hs.trans_le h.scopes_le) (by omega)] at hn
    rcases h.origin hn with hn' | ⟨x, hx, he, hst⟩
    · exact .inl hn'
    · exact .inr ⟨x, hx, he, hst.mono h'.toExtends (h.sound.named_lt hn)⟩
  fresh := h.fresh
  distinct := h.distinct

lemma declare {type} (ht : t.Sound) (hs : s < t.scopes.size)
    (h : t.declare { name := x.name.text, kind := x.kind, type, scope := s } = .ok (u, id))
    (hx : x.symbol = some id ∨ x.kind = .variant ∧ x.symbol = none) : Adds s t [x] u := by
  have hn := SymbolTable.named_declare h hs
  have hst : x.Stands u id := by
    refine ⟨?_, hx⟩
    rw [SymbolTable.kind, (SymbolTable.extends_declare h).2.2.2]
  refine ⟨SymbolTable.growth_declare ht h, ?_, ?_, ?_, nodup_singleton _⟩
  · intro y hy
    obtain rfl := mem_singleton.mp hy
    refine ⟨id, ?_, hst⟩
    rw [hn]
    exact mem_cons_self
  · intro name i hm
    rw [hn] at hm
    rcases mem_cons.mp hm with hm | hm
    · cases hm
      exact .inr ⟨x, mem_singleton_self x, rfl, hst⟩
    · exact .inl hm
  · intro y i hy
    obtain rfl := mem_singleton.mp hy
    exact SymbolTable.member?_eq_none_iff.mp (SymbolTable.scope_of_declare h).1 i

end Adds

end SketchCompiler
