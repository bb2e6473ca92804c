import SketchCompiler.Proofs.Hoisting

namespace SketchCompiler

open List

namespace SymbolTable

/-- The tables that are made one step after the other. -/
inductive Reached : SymbolTable → Prop
  | empty : Reached empty
  | pushScope {t s} (kind : ScopeKind) : Reached t → s < t.scopes.size → Reached (t.pushScope s kind).1
  | pushModule {t} (path : List String) : Reached t → Reached (t.pushModule path).1
  | declare {t u x id} : Reached t → x.scope < t.scopes.size → t.declare x = .ok (u, id) → Reached u
  | setMembers {t id m} : Reached t → id < t.symbols.size → m < t.scopes.size → Reached (t.setMembers id m)

/-- On the way outwards from a scope to the scope `a`, no scope before `a` has the name. -/
inductive Exposes (t : SymbolTable) (name : String) (a : ScopeId) : ScopeId → Prop
  | here : Exposes t name a a
  | outer {s p} : t.member? s name = none → (t.scope s).parent = some p → Exposes t name a p → Exposes t name a s

/-- Each symbol is named in its scope, and the outermost scope is there. -/
structure Filed (t : SymbolTable) : Prop extends t.Sound where
  root_lt : root < t.scopes.size
  filed {id : SymbolId} : id < t.symbols.size →
    (t.get id).scope < t.scopes.size ∧ ((t.get id).name, id) ∈ (t.scope (t.get id).scope).names

variable {t u : SymbolTable} {s id : Nat} {name : String} {x : Symbol}

lemma Filed.grow (ht : t.Filed) (hu : Growth s t u) (hnew : ∀ id, t.symbols.size ≤ id → id < u.symbols.size →
    (u.get id).scope < u.scopes.size ∧ ((u.get id).name, id) ∈ (u.scope (u.get id).scope).names) : u.Filed where
  toSound := hu.sound
  root_lt := ht.root_lt.trans_le hu.scopes_le
  filed {id} hi := by
    by_cases hlt : id < t.symbols.size
    · obtain ⟨hs, hn⟩ := ht.filed hlt
      rw [hu.get_eq hlt]
      exact ⟨hs.trans_le hu.scopes_le, hu.named hs hn⟩
    · exact hnew id (not_lt.mp hlt) hi

lemma Filed.declare (ht : t.Filed) (hs : x.scope < t.scopes.size) (h : t.declare x = .ok (u, id)) : u.Filed := by
  have hu := growth_declare ht.toSound h
  obtain ⟨rfl, hsize, -, hget⟩ := get_of_declare h
  refine ht.grow hu fun i hle hlt => ?_
  obtain rfl : i = t.symbols.size := Nat.le_antisymm (Nat.le_of_lt_succ (hlt.trans_eq hsize)) hle
  rw [hget, if_pos rfl, named_declare h hs]
  exact ⟨hs.trans_le hu.scopes_le, mem_cons_self⟩

lemma Reached.filed (h : t.Reached) : t.Filed := by
  induction h with
  | empty => exact ⟨sound_empty, Nat.one_pos, nofun⟩
  | pushScope kind _ hs ht =>
    exact ht.grow (growth_pushScope ht.toSound hs kind root) fun _ hle hlt => absurd hlt (not_lt.mpr hle)
  | pushModule path _ ht =>
    exact ht.grow (growth_pushModule ht.toSound ht.root_lt path root) fun _ hle hlt => absurd hlt (not_lt.mpr hle)
  | declare _ hs hd ht => exact ht.declare hs hd
  | @setMembers t id m _ _ _ ht =>
    refine ht.grow (growth_setMembers ht.toSound root id m) fun _ hle hlt => absurd hlt (not_lt.mpr ?_)
    exact Array.size_modify.trans_le hle

lemma Filed.member?_eq_some_iff (ht : t.Filed) : t.member? s name = some id ↔
    id < t.symbols.size ∧ (t.get id).name = name ∧ (t.get id).scope = s := by
  rw [ht.toSound.member?_eq_some_iff]
  constructor
  · exact fun h => ⟨ht.named_lt h, ht.get_named h⟩
  · rintro ⟨hi, rfl, rfl⟩
    exact (ht.filed hi).2

lemma Sound.chain_eq (ht : t.Sound) (s : ScopeId) : t.chain s = t.scope s :: (t.scope s).parent.elim [] t.chain := by
  rw [chain, chainOf]
  cases hp : (t.scope s).parent with
  | none => rfl
  | some p => exact congrArg _ (ht.chainOf_eq (ht.parent_lt hp) p.lt_succ_self)

lemma Sound.lookup?_eq_elim (ht : t.Sound) (s : ScopeId) (name : String) :
    t.lookup? s name = (t.member? s name).or ((t.scope s).parent.elim none (t.lookup? · name)) := by
  cases hp : (t.scope s).parent with
  | none => rw [lookup?_of_no_parent hp, Option.elim_none, Option.or_none]
  | some p => exact ht.lookup?_eq hp

lemma Sound.lookup?_eq_some_iff (ht : t.Sound) (s : ScopeId) :
    t.lookup? s name = some id ↔ ∃ a, t.Exposes name a s ∧ t.member? a name = some id := by
  constructor
  · induction s using Nat.strongRecOn with
    | ind s ih =>
      rw [ht.lookup?_eq_elim]
      cases hm : t.member? s name with
      | some i => exact fun h => ⟨s, .here, hm.trans h⟩
      | none =>
        cases hp : (t.scope s).parent with
        | none => exact nofun
        | some p =>
          intro h
          obtain ⟨a, ha, hi⟩ := ih p (ht.parent_lt hp) h
          exact ⟨a, .outer hm hp ha, hi⟩
  · rintro ⟨a, ha, hi⟩
    induction ha with
    | here => rw [ht.lookup?_eq_elim, hi, Option.some_or]
    | outer hm hp _ ih => rw [ht.lookup?_eq hp, hm, Option.none_or, ih]

lemma mem_visible_iff : name ∈ t.visible s ↔ (t.lookup? s name).isSome := by
  rw [visible, lookup?, findSome?_isSome_iff, mem_flatMap]
  refine exists_congr fun x => and_congr_right fun _ => ?_
  rw [← not_iff_not, Option.not_isSome_iff_eq_none, lookup_eq_none_iff, mem_map]
  simp only [bne_iff_ne, not_exists, not_and, eq_comm (a := name), ne_eq]

lemma member?_of_declare (h : t.declare x = .ok (u, id)) (hs : x.scope < t.scopes.size) (s : ScopeId) (name : String) :
    u.member? s name = if s = x.scope ∧ name = x.name then some id else t.member? s name := by
  have hlt (he : s = x.scope) : s < t.scopes.size := he ▸ hs
  rw [member?, (scope_of_declare h).2]
  by_cases he : s = x.scope
  · rw [if_pos ⟨he, hlt he⟩, lookup_cons, member?]
    by_cases hn : name = x.name
    · simp [he, hn]
    · simp [he, hn, beq_false_of_ne hn]
  · rw [if_neg fun h => he h.1, if_neg fun h => he h.1, member?]

lemma lookup?_of_declare (ht : t.Sound) (h : t.declare x = .ok (u, id)) (hs : x.scope < t.scopes.size)
    (s : ScopeId) (name : String) : (name = x.name ∧ t.Exposes name x.scope s → u.lookup? s name = some id) ∧
      (¬ (name = x.name ∧ t.Exposes name x.scope s) → u.lookup? s name = t.lookup? s name) := by
  have hu := growth_declare ht h
  have hmember := member?_of_declare h hs
  have hparent (s : ScopeId) : (u.scope s).parent = (t.scope s).parent := by
    rw [(scope_of_declare h).2]
    split <;> rfl
  constructor
  · rintro ⟨rfl, he⟩
    induction he with
    | here => rw [hu.sound.lookup?_eq_elim, hmember, if_pos ⟨rfl, rfl⟩, Option.some_or]
    | @outer s p hm hp _ ih =>
      rw [hu.sound.lookup?_eq_elim, hmember, hparent, hp, Option.elim_some, ih]
      split
      · rfl
      · rw [hm, Option.none_or]
  · induction s using Nat.strongRecOn with
    | ind s ih =>
      intro hn
      have hm : u.member? s name = t.member? s name := by
        rw [hmember, if_neg]
        rintro ⟨rfl, rfl⟩
        exact hn ⟨rfl, .here⟩
      rw [hu.sound.lookup?_eq_elim, ht.lookup?_eq_elim, hm, hparent]
      cases hi : t.member? s name with
      | some i => rfl
      | none =>
        cases hp : (t.scope s).parent with
        | none => rfl
        | some p => exact ih p (ht.parent_lt hp) fun h => hn ⟨h.1, .outer hi hp h.2⟩

/-- In each table that is reached, parents are older than their children, and the way outwards ends; a scope has the
names of the symbols that belong to it, each once, and a symbol belongs to one scope. A look-up finds the entry of the
nearest scope that has the name, and the visible names are those that are found. To declare a name that the scope has
gives its symbol; another name gets the next number, which changes no look-up but those that come to the scope without
meeting the name before. -/
theorem Reached.represents (h : t.Reached) :
    (∀ s p, (t.scope s).parent = some p → p < s) ∧
    (∀ s, t.chain s = t.scope s :: (t.scope s).parent.elim [] t.chain) ∧
    (∀ s, ((t.scope s).names.map (·.1)).Nodup) ∧
    (∀ s name id, t.member? s name = some id ↔
      id < t.symbols.size ∧ (t.get id).name = name ∧ (t.get id).scope = s) ∧
    (∀ id < t.symbols.size, ∃! s, s < t.scopes.size ∧ id ∈ (t.scope s).names.map (·.2)) ∧
    (∀ s name id, t.lookup? s name = some id ↔ ∃ a, t.Exposes name a s ∧ t.member? a name = some id) ∧
    (∀ s name, name ∈ t.visible s ↔ (t.lookup? s name).isSome) ∧
    (∀ x id, t.member? x.scope x.name = some id → t.declare x = .error id) ∧
    ∀ x, x.scope < t.scopes.size → t.member? x.scope x.name = none →
      ∃ u, t.declare x = .ok (u, t.symbols.size) ∧ u.Reached ∧ u.symbols.size = t.symbols.size + 1 ∧
        (∀ id, u.get id = if id = t.symbols.size then x else t.get id) ∧
        ∀ s name, (name = x.name ∧ t.Exposes name x.scope s → u.lookup? s name = some t.symbols.size) ∧
          (¬ (name = x.name ∧ t.Exposes name x.scope s) → u.lookup? s name = t.lookup? s name) := by
  have ht := h.filed
  refine ⟨fun _ _ => ht.parent_lt, ht.chain_eq, ht.nodup_names, fun _ _ _ => ht.member?_eq_some_iff, fun id hi => ?_,
    fun s _ _ => ht.lookup?_eq_some_iff s, fun _ _ => mem_visible_iff, fun x id hm => ?_, fun x hs hm => ?_⟩
  · refine ⟨(t.get id).scope, (ht.filed hi).imp_right fun h => mem_map.mpr ⟨_, h, rfl⟩, ?_⟩
    rintro s ⟨-, hm⟩
    obtain ⟨⟨name, i⟩, hn, rfl⟩ := mem_map.mp hm
    exact (ht.get_named hn).2.symm
  · rw [SymbolTable.declare, hm]
  · obtain ⟨u, hu⟩ : ∃ u, t.declare x = .ok (u, t.symbols.size) := by
      rw [SymbolTable.declare, hm]
      exact ⟨_, rfl⟩
    obtain ⟨-, hsize, -, hget⟩ := get_of_declare hu
    exact ⟨u, hu, h.declare hs hu, hsize, hget, lookup?_of_declare ht.toSound hu hs⟩

end SymbolTable

namespace Sample

/-- The inner of two scopes gets a name that the outer one has. -/
theorem shadowed_represents : ∃ t : SymbolTable, t.Reached ∧ t.lookup? 2 "x" = some 0 ∧
    ∃ u, t.declare { name := "x", scope := 2 } = .ok (u, 1) ∧ u.lookup? 2 "x" = some 1 ∧ u.lookup? 1 "x" = some 0 := by
  have hx : (SymbolTable.empty.pushScope SymbolTable.root .global).1.declare { name := "x", scope := 1 } = .ok _ := rfl
  have ht := ((SymbolTable.Reached.empty.pushScope .global (by decide)).declare (by decide) hx).pushScope .block
    (s := 1) (by decide)
  obtain ⟨-, -, -, -, -, -, -, -, hd⟩ := ht.represents
  obtain ⟨u, hu, -, -, -, hl⟩ := hd { name := "x", scope := 2 } (by decide) rfl
  refine ⟨_, ht, rfl, u, hu, (hl 2 "x").1 ⟨rfl, .here⟩, ((hl 1 "x").2 ?_).trans rfl⟩
  rintro ⟨-, _ | ⟨hm, -⟩⟩
  cases hm

end Sample

end SketchCompiler
