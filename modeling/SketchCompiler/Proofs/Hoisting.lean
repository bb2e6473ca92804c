import SketchCompiler.Proofs.HoistedItems
import SketchCompiler.Proofs.Lookups

namespace SketchCompiler

open Resolve SpotPart SymbolTable List Node

variable {k : Nat} {a : List Nat} {x : Binder} {id : SymbolId}

namespace Item

lemma binders_of_type {i : Item} (h : i.type? = some x) : i.binders = x :: (i.members.filter (·.1)).map (·.2) := by
  cases i with
  | classDecl l d => cases h; simp [binders, members]
  | structDecl l d => cases h; simp [binders, members]
  | enumDecl l d =>
    cases h
    have hv (vs : List Name) : ((vs.flatMap fun v =>
        [(false, Binder.mk v .variant none), (true, ⟨v, .variant, none⟩)]).filter (·.1)).map (·.2) =
          vs.map (⟨·, .variant, none⟩) := by
      induction vs with
      | nil => rfl
      | cons v vs ih => simp_all
    rw [binders, members, hv]
  | _ => cases h

lemma variant_of_beside {i : Item} (h : (true, x) ∈ i.members) : x.kind = .variant ∧ x.symbol = none := by
  cases i with
  | enumDecl l d =>
    obtain ⟨v, -, hx⟩ := mem_flatMap.mp h
    simp only [mem_cons, Prod.mk.injEq, Bool.true_eq_false, false_and, true_and, not_mem_nil, or_false, false_or] at hx
    exact hx ▸ ⟨rfl, rfl⟩
  | _ => simp [members] at h

lemma no_alias_of_type {i : Item} (h : i.type? = some x) : ∀ y ∈ i.binders, y.kind ≠ .moduleAlias := by
  cases i with
  | classDecl | enumDecl | structDecl => simp [binders]
  | _ => cases h

lemma ne_module {i : Item} (h : ∀ x ∈ i.binders, x.kind ≠ .moduleAlias) (l : Location) (aliasName : Name)
    (path : String) (symbol : Option SymbolId) (p : Program) : i ≠ .module l aliasName path symbol p := by
  rintro rfl
  exact h _ (mem_singleton_self _) rfl

end Item

section Adds

variable {s m : ScopeId} {t t₁ t₂ t3 u : SymbolTable}

lemma Declares.adds {xs : List (Bool × Binder)} (h : Declares s m t xs u) {t0 : SymbolTable} {ys}
    (ht : Adds s t0 ys t) (hs : s < t0.scopes.size) (hm : t0.scopes.size ≤ m)
    (hx : ∀ x, (true, x) ∈ xs → x.kind = .variant ∧ x.symbol = none) :
    Adds s t0 (ys ++ (xs.filter (·.1)).map (·.2)) u := by
  induction h generalizing ys with
  | nil => simpa using ht
  | @cons t t₁ u beside x xs id type hd _ _ ih =>
    have hxs : ∀ x, (true, x) ∈ xs → x.kind = .variant ∧ x.symbol = none := fun x h => hx x (mem_cons_of_mem _ h)
    cases beside with
    | false => exact ih (ht.nested (growth_declare ht.sound hd) hs hm) hxs
    | true =>
      have ha := Adds.declare ht.sound (hs.trans_le ht.scopes_le) hd (.inr (hx x mem_cons_self))
      simpa using ih (ht.trans ha hs) hxs

lemma adds_type {i : Item} (hi : i.type? = some x) (hx : x.symbol = some id)
    (hd : t.declare { name := x.name.text, kind := x.kind, scope := s } = .ok (t₁, id))
    (h : Declares s t₁.scopes.size (t₁.pushScope s .members).1 i.members t₂) (ht : t.Sound) (hs : s < t.scopes.size) :
    Adds s t i.binders (t₂.setMembers id t₁.scopes.size) := by
  have h1 := Adds.declare ht hs hd (.inl hx)
  have hg2 := growth_pushScope h1.sound (hs.trans_le h1.scopes_le) .members t₁.scopes.size
  have h3 := h.adds (h1.nested hg2 hs h1.scopes_le) hs h1.scopes_le fun x => Item.variant_of_beside
  rw [Item.binders_of_type hi]
  exact h3.nested (growth_setMembers h3.sound t₁.scopes.size id _) hs h1.scopes_le

lemma adds_module {aliasName : Name} {names} (ht : t.Sound) (hs : s < t.scopes.size)
    (hg : Growth t.scopes.size (t.pushModule names).1 t₂)
    (hd : t₂.declare { name := aliasName.text, kind := .moduleAlias, scope := s } = .ok (t3, id)) :
    Adds s t [⟨aliasName, .moduleAlias, some id⟩] (t3.setMembers id t.scopes.size) := by
  have hpush := growth_pushModule ht ((Nat.zero_le s).trans_lt hs) names t.scopes.size
  have h1 := (Adds.refl s ht).nested (hpush.trans hg) hs le_rfl
  have h2 := Adds.declare (x := ⟨aliasName, .moduleAlias, some id⟩) h1.sound (hs.trans_le h1.scopes_le) hd
    (.inl rfl)
  exact (h1.trans h2 hs).nested (growth_setMembers h2.sound t.scopes.size id _) hs le_rfl

lemma sound_pushModule (ht : t.Sound) (hs : s < t.scopes.size) (names : List String) : (t.pushModule names).1.Sound :=
  (growth_pushModule ht ((Nat.zero_le s).trans_lt hs) names 0).sound

lemma lt_pushModule (t : SymbolTable) (names : List String) : t.scopes.size < (t.pushModule names).1.scopes.size := by
  simp [pushModule]

lemma Hoist.adds {is : List Item} (h : Hoist s t is u) (ht : t.Sound) (hs : s < t.scopes.size) :
    Adds s t (is.flatMap Item.binders) u := by
  induction h with
  | nil => exact .refl _ ht
  | plain hi _ ih =>
    rw [flatMap_cons, hi]
    exact ih ht hs
  | named hi _ hx hd _ ih =>
    have h1 := Adds.declare ht hs hd (.inl hx)
    rw [flatMap_cons, hi]
    exact h1.trans (ih h1.sound (hs.trans_le h1.scopes_le)) hs
  | type hi _ hx hd hmembers _ ih =>
    have h1 := adds_type hi hx hd hmembers ht hs
    exact h1.trans (ih h1.sound (hs.trans_le h1.scopes_le)) hs
  | module _ hwalk _ hd _ ih ih' =>
    have h1 := ih (sound_pushModule ht hs _) (lt_pushModule _ _)
    have h2 := hwalk.adds h1.sound ((lt_pushModule _ _).trans_le h1.scopes_le)
    have h3 := adds_module ht hs (h1.toGrowth.trans h2.toGrowth) hd
    exact h3.trans (ih' h3.sound (hs.trans_le h3.scopes_le)) hs

lemma Hoist.numbered {is} (h : Hoist s t is u) : ∀ i ∈ is, i.MembersNumbered := by
  have plain {i : Item} (hi : ∀ x ∈ i.binders, x.kind.hasMembers = false) : i.MembersNumbered := by
    cases i with
    | classDecl l d => cases hi _ (mem_singleton_self _)
    | _ => trivial
  induction h with
  | nil => exact nofun
  | plain hi _ ih => exact forall_mem_cons.mpr ⟨plain (by simp [hi]), ih⟩
  | named hi hx _ _ _ ih => exact forall_mem_cons.mpr ⟨plain (by simp [hi, hx]), ih⟩
  | type _ hn _ _ _ _ ih => exact forall_mem_cons.mpr ⟨hn, ih⟩
  | module _ _ _ _ _ _ ih => exact forall_mem_cons.mpr ⟨trivial, ih⟩

end Adds

section Keeps

variable {s m : ScopeId} {t u : SymbolTable}

lemma Binds.keeps {xs} (h : Binds s t xs u) : t.Keeps u := by
  induction h with
  | nil => exact .refl _
  | cons hd _ _ ih => exact (keeps_declare hd).trans ih

lemma Walk.keeps {o} {ps} (h : Walk o s t ps u) : t.Keeps u := by
  induction h with
  | nil => exact .refl _
  | child _ _ hd _ _ ih1 ih2 ih3 => exact ih1.trans (hd.keeps.trans (ih2.trans ih3))
  | block hd _ _ ih1 ih2 => exact (keeps_push _ _).trans (hd.keeps.trans (ih1.trans ih2))

lemma Declares.keeps {xs} (h : Declares s m t xs u) : t.Keeps u := by
  induction h with
  | nil => exact .refl _
  | cons hd _ _ ih => exact (keeps_declare hd).trans ih

lemma Hoist.keeps {is} (h : Hoist s t is u) : t.Keeps u := by
  induction h with
  | nil => exact .refl _
  | plain _ _ ih => exact ih
  | named _ _ _ hd _ ih => exact (keeps_declare hd).trans ih
  | type _ _ _ hd hmembers _ ih => exact (keeps_setMembers hd ((keeps_push _ _).trans hmembers.keeps) _).1.trans ih
  | module _ hwalk _ hd _ ih ih' =>
    exact (keeps_push _ _).trans (ih.trans (hwalk.keeps.trans ((keeps_setMembers hd (.refl _) _).1.trans ih')))

end Keeps

/-- The unit at the place `o` is resolved, and the members of its classes have their numbers. -/
structure Program.UnitResolved (F : List (ScopeId × Block)) (u : SymbolTable) (o : List Nat) (q : Program) : Prop where
  resolved : (Spot.node (.unit q)).Resolved F u o []
  members : ∀ i ∈ q.items, i.MembersNumbered

/-- This is so for all units from the node at the place `o` downwards. -/
def Node.UnitsResolved (F : List (ScopeId × Block)) (u : SymbolTable) (o : List Nat) (n : Node) : Prop :=
  ∀ a q, n.at? a = some (.unit q) → q.UnitResolved F u (o ++ a)

lemma Node.UnitsResolved.mono {F F'} {t u : SymbolTable} {o} {n : Node}
    (h : n.UnitsResolved F t o) (ht : t.Sound) (hu : t.Later u) (hF : F ⊆ F') : n.UnitsResolved F' u o :=
  fun a q hq => ⟨(h a q hq).resolved.mono ht hu hF, (h a q hq).members⟩

lemma getElem?_of_forall₂ {α β : Type} {R : α → β → Prop} {as : List α} {bs : List β} (h : List.Forall₂ R as bs)
    {j : Nat} {b : β} (hb : bs[j]? = some b) : ∃ a, as[j]? = some a ∧ R a b := by
  induction h generalizing j with
  | nil => cases hb
  | cons hr _ ih =>
    cases j with
    | zero =>
      cases hb
      exact ⟨_, rfl, hr⟩
    | succ j => exact ih hb

lemma Item.flatMap_kept {α : Type} {f : Item → List α} {is is' : List Item}
    (hf : ∀ {i i' : Item}, i.Kept i' → f i' = f i) (h : List.Forall₂ Item.Kept is is') :
    is'.flatMap f = is.flatMap f := by
  induction h with
  | nil => rfl
  | cons hk _ ih => rw [flatMap_cons, flatMap_cons, hf hk, ih]

section Units

variable {F : List (ScopeId × Block)} {s : ScopeId} {o : List Nat} {t t₁ u : SymbolTable} {is : List Item}

/-- The units below the items are resolved; `k` is the number of the first. -/
def ItemsResolved (F : List (ScopeId × Block)) (t u : SymbolTable) (o : List Nat) (k : Nat) (is : List Item) : Prop :=
  ∃ F', Fresh t.scopes.size u.scopes.size F' ∧
    ∀ j i, is[j]? = some i → (item i).UnitsResolved (F' ++ F) u (o ++ [k + j])

lemma ItemsResolved.cons {i} {G} (hf : Fresh t.scopes.size t₁.scopes.size G)
    (hi : (item i).UnitsResolved (G ++ F) t₁ (o ++ [k])) (h : ItemsResolved F t₁ u o (k + 1) is)
    (hle : t.scopes.size ≤ t₁.scopes.size) (ht1 : t₁.Sound) (hu : t₁.Later u) (hsound : u.Sound) :
    ItemsResolved F t u o k (i :: is) := by
  obtain ⟨F2, hf2, hu2⟩ := h
  refine ⟨G ++ F2, hf.append hf2 hle le_rfl hu.scopes_le, fun j i' hj => ?_⟩
  cases j with
  | zero =>
    cases hj
    exact hi.mono ht1 hu (by grind)
  | succ j =>
    have := hu2 j i' hj
    rw [Nat.add_assoc, Nat.add_comm 1 j] at this
    exact this.mono hsound (.refl u) (by grind)

lemma ItemsResolved.plain {i : Item} (hi : ∀ x ∈ i.binders, x.kind ≠ .moduleAlias)
    (h : ItemsResolved F t₁ u o (k + 1) is) (hle : t.scopes.size ≤ t₁.scopes.size) (ht1 : t₁.Sound) (hu : t₁.Later u)
    (hsound : u.Sound) : ItemsResolved F t u o k (i :: is) := by
  refine .cons (.nil _ _) (fun a q ha => ?_) h hle ht1 hu hsound
  obtain ⟨l, aliasName, path, symbol, p, -, rfl, -⟩ := module_of_unit_at? ha
  exact absurd rfl (Item.ne_module hi l aliasName path symbol p)

lemma UnitWalk.unitsResolved {q : Program} (h : Hoist s t is t₁) (hw : Walk none s t₁ (ofNodes (q.items.map .item)) u)
    (hk : List.Forall₂ Item.Kept is q.items) (ht : t.Sound) (hm : Matches F t s [(⟨o, 0⟩, [])])
    (hu : ItemsResolved F t t₁ o 0 is) : ∃ F', Fresh t.scopes.size u.scopes.size F' ∧
      (Node.unit q).UnitsResolved (F' ++ F) u o := by
  obtain ⟨F1, hf1, hu1⟩ := hu
  have hadds := h.adds ht hm.lt
  have hb := Item.flatMap_kept Item.Kept.binders_eq hk
  have hm1 : Matches F t₁ s [(⟨o, 0⟩, q.items.flatMap Item.binders)] := hb ▸ hm.adds hadds ht
  have ha := hw.adds hadds.sound hm1.lt
  obtain ⟨F2, hf2, hr⟩ := hw.resolved hadds.sound hm1 o 0
  have hF2 : F2 ++ F ⊆ F1 ++ F2 ++ F := by grind
  refine ⟨F1 ++ F2, hf1.append hf2 hadds.scopes_le le_rfl ha.scopes_le, ?_⟩
  intro a q' hq
  cases a with
  | nil =>
    cases hq
    rw [append_nil]
    have hF : F ⊆ F1 ++ F2 ++ F := subset_append_right _ _
    refine ⟨.of_parts ⟨root, u, ha.sound, .refl u, (hm1.adds ha hadds.sound).toRoot.mono hF, nofun⟩ (absurd rfl)
      (.block ?_ (hr.mono ha.sound (.refl u) hF2) (.nil _ _ _ _ _)) (.nil _ _ _ _ _), ?_⟩
    · rw [hb]
      exact (Declared.of_adds hadds hm.mem hm.lt).mono hadds.sound ha.toLater hF
    · intro i' hi'
      obtain ⟨j, hj⟩ := getElem?_of_mem hi'
      obtain ⟨i, hi, hkept⟩ := getElem?_of_forall₂ hk hj
      exact hkept.numbered (h.numbered i (mem_of_getElem? hi))
  | cons j a =>
    obtain ⟨c, hc, hq⟩ := Option.bind_eq_some_iff.mp hq
    rw [children, getElem?_map] at hc
    obtain ⟨i', hi', rfl⟩ := Option.map_eq_some_iff.mp hc
    obtain ⟨i, hi, hkept⟩ := getElem?_of_forall₂ hk hi'
    obtain ⟨l, aliasName, path, symbol, p, -, rfl, -⟩ := module_of_unit_at? hq
    have hF1 : F1 ++ F ⊆ F1 ++ F2 ++ F := by grind
    obtain rfl := hkept.module_iff.mp rfl
    have := (hu1 j _ hi).mono hadds.sound ha.toLater hF1 a q' hq
    simpa using this

lemma Hoist.itemsResolved {b} {xs} (h : Hoist s t is u) (ht : t.Sound)
    (hm : Matches F t s [(b, xs)]) (o : List Nat) (k : Nat) : ItemsResolved F t u o k is := by
  induction h generalizing F b xs o k with
  | nil => exact ⟨[], .nil _ _, nofun⟩
  | plain hi h ih =>
    have ha := h.adds ht hm.lt
    exact .plain (by simp [hi]) (ih ht hm o (k + 1)) le_rfl ht ha.toLater ha.sound
  | named hi hk hx hd h ih =>
    have h1 := Adds.declare ht hm.lt hd (.inl hx)
    have hm1 := hm.adds h1 ht
    have ha := h.adds h1.sound hm1.lt
    refine .plain ?_ (ih h1.sound hm1 o (k + 1)) h1.scopes_le h1.sound ha.toLater ha.sound
    rw [hi, forall_mem_singleton]
    exact fun hmodule => by simp [hmodule, SymbolKind.hasMembers] at hk
  | @type s t t₁ t₂ u i is x id hi hn hx hd hmembers h ih =>
    have h1 := adds_type hi hx hd hmembers ht hm.lt
    have hm1 := hm.adds h1 ht
    have ha := h.adds h1.sound hm1.lt
    exact .plain (Item.no_alias_of_type hi) (ih h1.sound hm1 o (k + 1)) h1.scopes_le h1.sound ha.toLater ha.sound
  | @module s t t₁ t₂ t3 u l aliasName path name mark id items items' is hhoist hwalk hkept hd h ih ih' =>
    have hpush := sound_pushModule ht hm.lt ((t.scope s).path ++ [aliasName.text])
    have hm' : Matches ((t.scopes.size, ⟨o ++ [k] ++ [0], 0⟩) :: F)
        (t.pushModule ((t.scope s).path ++ [aliasName.text])).1 t.scopes.size [(⟨o ++ [k] ++ [0], 0⟩, [])] :=
      (hm.toRoot.mono (subset_cons_self _ _)).push ht rfl rfl mem_cons_self
    obtain ⟨F', hf, hu⟩ := UnitWalk.unitsResolved (q := ⟨name, mark, items'⟩) hhoist hwalk hkept hpush hm'
      (ih hpush hm' _ 0)
    have hg1 := hhoist.adds hpush hm'.lt
    have hg2 := hwalk.adds hg1.sound (hm'.lt.trans_le hg1.scopes_le)
    have h3 := adds_module ht hm.lt (hg1.toGrowth.trans hg2.toGrowth) hd
    have hm3 := hm.adds h3 ht
    have ha := h.adds h3.sound hm3.lt
    have hlast := (growth_declare hg2.sound hd).toLater.trans
      (growth_setMembers (growth_declare hg2.sound hd).sound s id t.scopes.size).toLater
    have hle := hlast.scopes_le
    have hsize := lt_pushModule t ((t.scope s).path ++ [aliasName.text])
    refine .cons (G := [(t.scopes.size, ⟨o ++ [k] ++ [0], 0⟩)] ++ F') ?_ ?_ (ih' h3.sound hm3 o (k + 1)) h3.scopes_le
      h3.sound ha.toLater ha.sound
    · have := hg1.scopes_le
      have := hg2.scopes_le
      exact ((Fresh.singleton _ _).append hf (by omega) (by omega) (by omega)).mono (by omega)
    · intro a q' ha
      obtain ⟨_, _, _, _, _, a', ⟨⟩, rfl, ha⟩ := module_of_unit_at? ha
      have hF : F' ++ (t.scopes.size, ⟨o ++ [k] ++ [0], 0⟩) :: F ⊆
          [(t.scopes.size, ⟨o ++ [k] ++ [0], 0⟩)] ++ F' ++ F := by
        grind
      simpa using hu.mono hg2.sound hlast hF a' q' ha

end Units

lemma sound_empty : empty.Sound := by
  have h (s : Nat) : empty.scope s = { kind := .builtins } := by
    cases s <;> rfl
  refine ⟨rfl, ?_, ?_, ?_, ?_⟩
  · intro s p hp
    rw [h] at hp
    cases hp
  · intro s id name hn
    rw [h] at hn
    cases hn
  · intro s id name hn
    rw [h] at hn
    cases hn
  · intro s
    rw [h]
    exact nodup_nil

lemma matches_declare {t u : SymbolTable} {name} (h : t.Sound ∧ Matches [] t root [])
    (hd : t.declare { name, scope := root } = .ok (u, id)) : u.Sound ∧ Matches [] u root [] := by
  have hg := growth_declare h.1 hd
  refine ⟨hg.sound, ?_⟩
  cases h.2 with
  | outermost hr hn =>
    refine .outermost (hr.trans_le hg.scopes_le) fun name' id' hm => ?_
    rw [named_declare hd hr] at hm
    rcases mem_cons.mp hm with hm | hm
    · cases hm
      rw [kind, (extends_declare hd).2.2.2]
    · rw [hg.kind_eq (h.1.named_lt hm)]
      exact hn name' id' hm

lemma matches_ofBuiltins : ofBuiltins.Sound ∧ Matches [] ofBuiltins root [] := by
  have hempty : empty.Sound ∧ Matches [] empty root [] := ⟨sound_empty, .outermost Nat.zero_lt_one nofun⟩
  exact ofBuiltins_induction (J := fun t => t.Sound ∧ Matches [] t root []) hempty fun _ _ _ _ => matches_declare

lemma SymbolTable.scopes_ofBuiltins : ofBuiltins.scopes.size = 1 ∧ (ofBuiltins.scope root).path = [] := by
  refine ofBuiltins_induction (J := fun t => t.scopes.size = 1 ∧ (t.scope root).path = []) ⟨rfl, rfl⟩ ?_
  refine fun t u name id ht hd => ⟨(get_of_declare hd).2.2.1.trans ht.1, ?_⟩
  rw [(scope_of_declare hd).2]
  split
  · exact ht.2
  · exact ht.2

lemma Program.exists_run {p q : Program} {t} (h : p.resolveNames = (q, .ok t)) :
    ∃ (b : SymbolTable) (s : ScopeId), b.Sound ∧ Matches [(s, ⟨[], 0⟩)] b s [(⟨[], 0⟩, [])] ∧
      b.scope s = { parent := some root, kind := .global } ∧ UnitWalk s b q t := by
  have hrun := run_of_resolveNames h
  obtain ⟨hb, hm⟩ := matches_ofBuiltins
  have hpath := scopes_ofBuiltins.2
  -- What the table of builtins holds does not matter any more, and it is too large to compute with.
  generalize ofBuiltins = builtins at hrun hb hm hpath
  refine ⟨_, _, (growth_pushScope hb hm.lt .global 0).sound,
    (hm.mono (nil_subset _)).push hb rfl rfl (mem_singleton_self _), ?_, hrun⟩
  rw [pushScope, scope_push_size, hpath]

lemma Program.unitsResolved {p q : Program} {t : SymbolTable} (h : p.resolveNames = (q, .ok t)) : ∃ F,
    t.Sound ∧ (F.Pairwise fun f g => f.1 < g.1) ∧ (unit q).UnitsResolved F t [] := by
  obtain ⟨b, s, hsound, hm, -, items, t₁, hhoist, hwalk, hkept⟩ := exists_run h
  have h1 := hhoist.adds hsound hm.lt
  have h2 := hwalk.adds h1.sound (hm.lt.trans_le h1.scopes_le)
  obtain ⟨F, hf, hu⟩ := UnitWalk.unitsResolved hhoist hwalk hkept hsound hm (hhoist.itemsResolved hsound hm [] 0)
  refine ⟨(s, ⟨[], 0⟩) :: F, h2.sound, pairwise_cons.mpr ⟨fun f hf' => ?_, hf.sorted⟩, ?_⟩
  · exact hm.lt.trans_le (hf.lower hf')
  · exact hu.mono h2.sound (.refl _) (by grind)

/-- The table goes on to `u`, and from `lo` on its scopes get no more names. -/
structure SymbolTable.EndsIn (lo : Nat) (t u : SymbolTable) : Prop where
  later : t.Later u
  keeps : t.Keeps u
  names_eq {m : ScopeId} : lo ≤ m → m < t.scopes.size → (u.scope m).names = (t.scope m).names

namespace SymbolTable.EndsIn

variable {lo lo' s : Nat} {t t' u : SymbolTable}

lemma refl (lo : Nat) (t : SymbolTable) : t.EndsIn lo t := ⟨.refl t, .refl t, fun _ _ => rfl⟩

lemma mono (h : t.EndsIn lo u) (hlo : lo ≤ lo') : t.EndsIn lo' u :=
  ⟨h.later, h.keeps, fun hm => h.names_eq (hlo.trans hm)⟩

lemma of_growth (h : t'.EndsIn lo u) (hk : t.Keeps t') (hg : Growth s t t') (hs : s < lo) : t.EndsIn lo u where
  later := hg.toLater.trans h.later
  keeps := hk.trans h.keeps
  names_eq hm hlt := (h.names_eq hm (hlt.trans_le hg.scopes_le)).trans (hg.names_eq hlt ((hs.trans_le hm).ne'))

end SymbolTable.EndsIn

/-- The unit was resolved from the table `t` on in the scope `s`, which was empty; `u` is the table in the end. -/
structure RanFrom (u : SymbolTable) (path : List String) (s : ScopeId) (q : Program) (t t₁ t₂ : SymbolTable)
    (items : List Item) : Prop where
  hoist : Hoist s t items t₁
  walk : Walk none s t₁ (ofNodes (q.items.map .item)) t₂
  kept : List.Forall₂ Item.Kept items q.items
  sound : t.Sound
  lt : s < t.scopes.size
  scope_eq : ∃ kind, (kind = .global ∨ kind = .module) ∧ t.scope s = { parent := some root, kind, path }
  ends : t₂.EndsIn s u

/-- The unit was resolved in the scope `s` with this path, and so were the modules below; `u` is the table in the
end. -/
inductive UnitRan (u : SymbolTable) : List String → ScopeId → Program → Prop
  | mk {path s q t t₁ t₂ items} : RanFrom u path s q t t₁ t₂ items →
      (∀ {l aliasName file symbol p}, .module l aliasName file symbol p ∈ q.items → ∃ id m, symbol = some id ∧
        (u.get id).members = some m) →
      (∀ {l aliasName file id p m}, .module l aliasName file (some id) p ∈ q.items → (u.get id).members = some m →
        UnitRan u (path ++ [aliasName.text]) m p) → UnitRan u path s q

section Ran

variable {u : SymbolTable} {path : List String} {s : ScopeId} {q : Program} {t t₁ t₂ : SymbolTable}
  {items is : List Item}

/-- The modules among the items were resolved, below `path`. -/
def ModulesRan (u : SymbolTable) (path : List String) (is : List Item) : Prop :=
  ∀ ⦃l aliasName file symbol p⦄, .module l aliasName file symbol p ∈ is → ∃ id m, symbol = some id ∧
    (u.get id).members = some m ∧ UnitRan u (path ++ [aliasName.text]) m p

lemma RanFrom.unitRan (h : RanFrom u path s q t t₁ t₂ items) (hm : ModulesRan u path items) : UnitRan u path s q := by
  have hmodule : ModulesRan u path q.items := by
    intro l aliasName file symbol p hi
    obtain ⟨i, hi, hk⟩ := exists_mem_of_forall₂ h.kept.flip hi
    exact hm (hk.module_iff.mp rfl ▸ hi)
  refine .mk h (fun hi => ?_) fun hi hmem => ?_
  · obtain ⟨id, m, hid, hmem, -⟩ := hmodule hi
    exact ⟨id, m, hid, hmem⟩
  · obtain ⟨_, m', ⟨⟩, hmem', hr⟩ := hmodule hi
    obtain rfl := Option.some.inj (hmem.symm.trans hmem')
    exact hr

lemma ModulesRan.cons {i : Item} (hi : ∀ x ∈ i.binders, x.kind ≠ .moduleAlias) (h : ModulesRan u path is) :
    ModulesRan u path (i :: is) := by
  intro l aliasName file symbol p hm
  rcases mem_cons.mp hm with rfl | hm
  · exact absurd rfl (Item.ne_module hi l aliasName file symbol p)
  · exact h hm

lemma Hoist.modulesRan (h : Hoist s t is t₁) (ht : t.Sound) (hs : s < t.scopes.size)
    (hu : t₁.EndsIn t.scopes.size u) : ModulesRan u (t.scope s).path is := by
  induction h with
  | nil => exact nofun
  | plain hi h ih => exact .cons (by simp [hi]) (ih ht hs hu)
  | named hi hk hx hd h ih =>
    have h1 := Adds.declare ht hs hd (.inl hx)
    have his := ih h1.sound (hs.trans_le h1.scopes_le) (hu.mono h1.scopes_le)
    rw [h1.path_eq hs] at his
    refine .cons ?_ his
    rw [hi, forall_mem_singleton]
    exact fun hmodule => by simp [hmodule, SymbolKind.hasMembers] at hk
  | type hi _ hx hd hmembers _ ih =>
    have h1 := adds_type hi hx hd hmembers ht hs
    have his := ih h1.sound (hs.trans_le h1.scopes_le) (hu.mono h1.scopes_le)
    rw [h1.path_eq hs] at his
    exact .cons (Item.no_alias_of_type hi) his
  | @module s t t₁ t₂ t3 t4 l aliasName file name mark id items items' is hhoist hwalk hkept hd h ih ih' =>
    have hpush := sound_pushModule ht hs ((t.scope s).path ++ [aliasName.text])
    have hlt := lt_pushModule t ((t.scope s).path ++ [aliasName.text])
    have hg1 := hhoist.adds hpush hlt
    have hg2 := hwalk.adds hg1.sound (hlt.trans_le hg1.scopes_le)
    have h3 := adds_module ht hs (hg1.toGrowth.trans hg2.toGrowth) hd
    have hs3 := hs.trans_le h3.scopes_le
    have his := ih' h3.sound hs3 (hu.mono h3.scopes_le)
    rw [h3.path_eq hs] at his
    -- The name of the module and all items behind it are in the scope around.
    obtain ⟨hkeep, hmembers⟩ := keeps_setMembers hd (.refl t3) t.scopes.size
    have hdeclare := growth_declare hg2.sound hd
    have hset := growth_setMembers hdeclare.sound s id t.scopes.size
    have hlast := (hdeclare.trans hset).trans (h.adds h3.sound hs3).toGrowth
    have hends := hu.of_growth (hkeep.trans h.keeps) hlast hs
    intro l' aliasName' file' symbol' p' hm
    rcases mem_cons.mp hm with hm | hm
    · cases hm
      refine ⟨id, t.scopes.size, rfl, (h.keeps.trans hu.keeps).members hmembers, RanFrom.unitRan
        ⟨hhoist, hwalk, hkept, hpush, hlt, ⟨.module, .inr rfl, scope_push_size _ _⟩, hends⟩ ?_⟩
      have hrec := ih hpush hlt ((hends.mono (hlt.le)).of_growth hwalk.keeps hg2.toGrowth hlt)
      rwa [pushModule, scope_push_size] at hrec
    · exact his hm

end Ran

lemma Program.unitRan {p q : Program} {t} (h : p.resolveNames = (q, .ok t)) : ∃ s, UnitRan t [] s q := by
  obtain ⟨b, s, hsound, hm, hscope, items, t₁, hhoist, hwalk, hkept⟩ := exists_run h
  have h1 := hhoist.adds hsound hm.lt
  have h2 := hwalk.adds h1.sound (hm.lt.trans_le h1.scopes_le)
  have hends : t₁.EndsIn b.scopes.size t := (EndsIn.refl _ t).of_growth hwalk.keeps h2.toGrowth hm.lt
  have hmodules := hhoist.modulesRan hsound hm.lt hends
  rw [hscope] at hmodules
  exact ⟨s, RanFrom.unitRan ⟨hhoist, hwalk, hkept, hsound, hm.lt, ⟨.global, .inl rfl, hscope⟩, .refl s t⟩ hmodules⟩

lemma UnitRan.of_unit_at? {u} {path} {s} {q v}
    (h : UnitRan u path s q) (ha : (unit q).at? a = some (.unit v)) : ∃ path s, UnitRan u path s v := by
  induction h generalizing a with
  | mk hr hnum hmod ih =>
    rcases at?_unit_cases ha rfl with ⟨-, ⟨⟩⟩ | ⟨j, i, -, ⟨⟩, -⟩ | ⟨j, b, l, aliasName, file, symbol, p, rfl, hj, hb⟩
    · exact ⟨_, _, .mk hr hnum hmod⟩
    · have hi := mem_of_getElem? hj
      obtain ⟨id, m, rfl, hm⟩ := hnum hi
      exact ih hi hm hb

lemma UnitRan.of_item_at? {u} {path} {s} {q : Program} {i}
    (h : UnitRan u path s q) (ha : (unit q).at? a = some (.item i)) :
    ∃ s v, i ∈ v.items ∧ UnitRan u (path ++ q.aliasesTo a) s v := by
  induction h generalizing a with
  | @mk path s q _ _ _ _ hr hnum hmod ih =>
    rcases item_at?_cases ha with ⟨j, rfl, hj⟩ | ⟨j, b, l, aliasName, file, symbol, p, rfl, hj, hb⟩
    · have hnil : q.aliasesTo [j] = [] := rfl
      rw [hnil, append_nil]
      exact ⟨s, q, mem_of_getElem? hj, .mk hr hnum hmod⟩
    · have hi := mem_of_getElem? hj
      obtain ⟨id, m, rfl, hm⟩ := hnum hi
      rw [Program.aliasesTo_below hj, ← singleton_append, ← append_assoc]
      exact ih hi hm hb

end SketchCompiler
