import SketchCompiler.Proofs.Environments
import SketchCompiler.Proofs.Walks

namespace SketchCompiler

open Env SpotPart List

variable {t u : SymbolTable} {b : Block} {F : List (ScopeId × Block)} {xs : List Binder} {env : Env}

lemma Walk.adds {o} {s} {ps : List SpotPart} (h : Walk o s t ps u)
    (ht : t.Sound) (hs : s < t.scopes.size) : Adds s t (ps.flatMap own) u := by
  induction h with
  | nil => exact .refl _ ht
  | @child o s t t1 t2 t3 u x ps _ _ hd _ _ ih1 ih2 ih3 =>
    have h1 := ih1 ht hs
    have hs1 := hs.trans_le h1.scopes_le
    have h2 := h1.trans (hd.adds h1.sound hs1) hs
    have h3 := h2.trans (ih2 h2.sound (hs.trans_le h2.scopes_le)) hs
    rw [Spot.own_eq] at h3
    exact h3.trans (ih3 h3.sound (hs.trans_le h3.scopes_le)) hs
  | @block o s t _ _ _ _ kind _ _ _ hd _ _ ih1 ih2 =>
    have h0 := SymbolTable.growth_pushScope ht hs kind t.scopes.size
    have h1 := hd.adds h0.sound (by simp)
    have h2 := ih1 h1.sound (Nat.lt_of_lt_of_le (by simp) h1.scopes_le)
    have h3 := (Adds.refl s ht).nested ((h0.trans h1.toGrowth).trans h2.toGrowth) hs le_rfl
    exact h3.trans (ih2 h2.sound (hs.trans_le h3.scopes_le)) hs

namespace SymbolTable

/-- The scope has just the names `xs`. -/
structure Names (t : SymbolTable) (s : Nat) (xs : List Binder) : Prop where
  added {x : Binder} : x ∈ xs → ∃ id, (x.name.text, id) ∈ (t.scope s).names ∧ x.Stands t id
  origin {name : String} {id : Nat} : (name, id) ∈ (t.scope s).names → ∃ x ∈ xs, x.name.text = name ∧ x.Stands t id

namespace Names

variable {s p : Nat} {xs ys : List Binder}

lemma adds (h : t.Names s xs) (ha : Adds s t ys u) (ht : t.Sound) (hs : s < t.scopes.size) : u.Names s (xs ++ ys) where
  added hx := by
    rcases mem_append.mp hx with hx | hx
    · obtain ⟨id, hn, hst⟩ := h.added hx
      exact ⟨id, ha.named hs hn, hst.mono ha.toExtends (ht.named_lt hn)⟩
    · exact ha.added hx
  origin hn := by
    rcases ha.origin hn with hn | ⟨x, hx, hst⟩
    · obtain ⟨x, hx, hname, hst⟩ := h.origin hn
      exact ⟨x, mem_append_left ys hx, hname, hst.mono ha.toExtends (ht.named_lt hn)⟩
    · exact ⟨x, mem_append_right xs hx, hst⟩

lemma grow (h : t.Names s xs) (hg : Growth p t u) (ht : t.Sound) (hs : s < t.scopes.size) (hp : s ≠ p) :
    u.Names s xs where
  added hx := by
    obtain ⟨id, hn, hst⟩ := h.added hx
    exact ⟨id, hg.named hs hn, hst.mono hg.toExtends (ht.named_lt hn)⟩
  origin hn := by
    rw [hg.names_eq hs hp] at hn
    obtain ⟨x, hx, hname, hst⟩ := h.origin hn
    exact ⟨x, hx, hname, hst.mono hg.toExtends (ht.named_lt hn)⟩

end Names

end SymbolTable

open SymbolTable (root Growth Later)

/-- From the scope outwards, the scopes are those of the environment's blocks and have their names; `F` has the scopes
that were made, each with its block. -/
inductive Matches (F : List (ScopeId × Block)) (t : SymbolTable) : Nat → Env → Prop
  | outermost : root < t.scopes.size → (∀ name id, (name, id) ∈ (t.scope root).names → t.kind id = .builtin) →
      Matches F t root []
  | block {s p b xs env} : (s, b) ∈ F → s < t.scopes.size → (t.scope s).parent = some p → t.Names s xs →
      Matches F t p env → Matches F t s ((b, xs) :: env)

namespace Matches

variable {F F' : List (ScopeId × Block)} {s p : Nat} {env : Env} {e : Block × List Binder}
  {xs : List Binder}

lemma mono (h : Matches F t s env) (hF : F ⊆ F') : Matches F' t s env := by
  induction h with
  | outermost hr hn => exact .outermost hr hn
  | block hb hs hp hn _ ih => exact .block (hF hb) hs hp hn ih

lemma lt (h : Matches F t s env) : s < t.scopes.size := by
  cases h with
  | outermost hr => exact hr
  | block _ hs => exact hs

lemma mem (h : Matches F t s ((b, xs) :: env)) : (s, b) ∈ F := by
  cases h with
  | block hb => exact hb

lemma grow (h : Matches F t s env) (hg : Growth p t u) (ht : t.Sound) (hp : s < p) : Matches F u s env := by
  induction h with
  | outermost hr hn =>
    refine .outermost (hr.trans_le hg.scopes_le) fun name id hm => ?_
    rw [hg.names_eq hr (hp.ne)] at hm
    rw [hg.kind_eq (ht.named_lt hm)]
    exact hn name id hm
  | block hb hs hpar hn _ ih =>
    refine .block hb (hs.trans_le hg.scopes_le) ((hg.parent_eq hs).trans hpar)
      (hn.grow hg ht hs (hp.ne)) (ih ?_)
    exact (ht.parent_lt hpar).trans hp

lemma adds (h : Matches F t s (e :: env)) (ha : Adds s t xs u) (ht : t.Sound) : Matches F u s (add (e :: env) xs) := by
  cases h with
  | block hb hs hp hn h =>
    exact .block hb (hs.trans_le ha.scopes_le) ((ha.parent_eq hs).trans hp) (hn.adds ha ht hs)
      (h.grow ha.toGrowth ht (ht.parent_lt hp))

lemma name_ne {x y : Binder} {ys} (h : Matches F t s ((b, xs) :: env)) (ha : Adds s t ys u)
    (hx : x ∈ xs) (hy : y ∈ ys) : x.name.text ≠ y.name.text := by
  intro hname
  cases h with
  | block _ _ _ hn _ =>
    obtain ⟨id, hid, -⟩ := hn.added hx
    rw [hname] at hid
    exact ha.fresh hy hid

lemma push {x : Scope} (h : Matches F t p env) (ht : t.Sound) (hx : x.names = []) (hp : x.parent = some p)
    (hb : (t.scopes.size, b) ∈ F) : Matches F { t with scopes := t.scopes.push x } t.scopes.size ((b, []) :: env) := by
  have hscope := SymbolTable.scope_push_size t x
  refine .block (p := p) hb (by simp) (by rw [hscope, hp]) ⟨nofun, fun hn => ?_⟩ ?_
  · rw [hscope, hx] at hn
    cases hn
  · exact h.grow (SymbolTable.growth_push ht t.scopes.size hx hp h.lt) ht h.lt

lemma toRoot (h : Matches F t s env) : Matches F t root [] := by
  induction h with
  | outermost hr hn => exact .outermost hr hn
  | block _ _ _ _ _ ih => exact ih

end Matches

/-- The scopes are new ones, between the two sizes, and in the order they were made. -/
structure Fresh (lo hi : Nat) (F : List (ScopeId × Block)) : Prop where
  sorted : F.Pairwise fun f g => f.1 < g.1
  lower {f : ScopeId × Block} : f ∈ F → lo ≤ f.1
  upper {f : ScopeId × Block} : f ∈ F → f.1 < hi

namespace Fresh

variable {lo mid mid' hi : Nat} {F F' : List (ScopeId × Block)}

lemma nil (lo hi : Nat) : Fresh lo hi [] := ⟨.nil, nofun, nofun⟩

lemma append (h : Fresh lo mid F) (h' : Fresh mid' hi F') (h1 : lo ≤ mid') (h2 : mid ≤ mid') (h3 : mid ≤ hi) :
    Fresh lo hi (F ++ F') where
  sorted := pairwise_append.mpr ⟨h.sorted, h'.sorted, fun _ hf _ hg =>
    (h.upper hf).trans_le (h2.trans (h'.lower hg))⟩
  lower hf := by
    rcases mem_append.mp hf with hf | hf
    · exact h.lower hf
    · exact h1.trans (h'.lower hf)
  upper hf := by
    rcases mem_append.mp hf with hf | hf
    · exact (h.upper hf).trans_le h3
    · exact h'.upper hf

lemma mono (h : Fresh lo mid F) (hhi : mid ≤ hi) : Fresh lo hi F where
  sorted := h.sorted
  lower := h.lower
  upper hf := (h.upper hf).trans_le hhi

lemma singleton (s : Nat) (b : Block) : Fresh s (s + 1) [(s, b)] where
  sorted := pairwise_singleton _ _
  lower hf := by
    rw [mem_singleton.mp hf]
  upper hf := by
    rw [mem_singleton.mp hf]
    exact Nat.lt_succ_self s

end Fresh

/-- The names are declared in the scope of the block, each once. -/
structure Declared (F : List (ScopeId × Block)) (u : SymbolTable) (b : Block) (xs : List Binder) : Prop where
  named {x : Binder} : x ∈ xs → ∃ s id, (s, b) ∈ F ∧ s < u.scopes.size ∧ (x.name.text, id) ∈ (u.scope s).names ∧
    x.Stands u id
  distinct : (xs.map (·.name.text)).Nodup

lemma Declared.mono {F F'} {xs}
    (h : Declared F t b xs) (ht : t.Sound) (hu : t.Later u) (hF : F ⊆ F') : Declared F' u b xs where
  named hx := by
    obtain ⟨s, id, hf, hs, hn, hst⟩ := h.named hx
    exact ⟨s, id, hF hf, hs.trans_le hu.scopes_le, hu.named hs hn, hst.mono hu.toExtends (ht.named_lt hn)⟩
  distinct := h.distinct

lemma Declared.of_adds {s : Nat} (h : Adds s t xs u) (hb : (s, b) ∈ F) (hs : s < t.scopes.size) :
    Declared F u b xs where
  named hx := by
    obtain ⟨id, hn, hst⟩ := h.added hx
    exact ⟨s, id, hb, hs.trans_le h.scopes_le, hn, hst⟩
  distinct := h.distinct

namespace Spot

/-- The use of a name that the spot is was looked up in the environment, and what the spot declares was declared. -/
structure ResolvedHere (F : List (ScopeId × Block)) (u : SymbolTable) (c : List Nat) (x : Spot) (env : Env) : Prop where
  reads : ∃ s t, t.Sound ∧ t.Later u ∧ Matches F t s env ∧ x.Reads s t
  own : x.own ≠ [] → ∃ e, env.head? = some e ∧ Declared F u e.1 x.own ∧
    ∀ y ∈ e.2, ∀ z ∈ x.own, y.name.text ≠ z.name.text
  heads {k : Nat} {xs : List Binder} : (k, xs) ∈ x.heads → Declared F u ⟨c, k⟩ xs

/-- This is so for all spots that are met from the spot on. -/
inductive Resolved (F : List (ScopeId × Block)) (u : SymbolTable) : List Nat → Spot → Env → Prop
  | intro {c x env} : x.ResolvedHere F u c env →
      (∀ i y env', (x.met c env)[i]? = some (y, env') → Resolved F u (c ++ [i]) y env') → Resolved F u c x env

variable {F F' : List (ScopeId × Block)} {c : List Nat} {x : Spot} {env : Env}

lemma ResolvedHere.mono (h : x.ResolvedHere F t c env) (ht : t.Sound) (hu : t.Later u) (hF : F ⊆ F') :
    x.ResolvedHere F' u c env where
  reads := by
    obtain ⟨s, v, hv, hl, hm, hr⟩ := h.reads
    exact ⟨s, v, hv, hl.trans hu, hm.mono hF, hr⟩
  own hx := by
    obtain ⟨e, he, hd, hne⟩ := h.own hx
    exact ⟨e, he, hd.mono ht hu hF, hne⟩
  heads hk := (h.heads hk).mono ht hu hF

lemma Resolved.mono (h : Resolved F t c x env) (ht : t.Sound) (hu : t.Later u) (hF : F ⊆ F') :
    Resolved F' u c x env := by
  induction h with
  | intro hx _ ih => exact .intro (hx.mono ht hu hF) ih

end Spot

lemma Spot.own_after (x : Spot) : x.after.flatMap SpotPart.own = [] := by
  cases x <;> rfl

/-- The blocks of the parts have declared their headers, and the spots are resolved; `k` is the number of the first. -/
structure PartsResolved (F : List (ScopeId × Block)) (u : SymbolTable) (o : List Nat) (k : Nat) (env : Env)
    (ps : List SpotPart) : Prop where
  heads {n : Nat} {xs : List Binder} : (n, xs) ∈ partsHeads ps → Declared F u ⟨o, n⟩ xs
  met {i : Nat} {y : Spot} {env' : Env} : (partsMet o env ps)[i]? = some (y, env') →
    Spot.Resolved F u (o ++ [k + i]) y env'

namespace PartsResolved

variable {F F' : List (ScopeId × Block)} {o : List Nat} {k : Nat} {env : Env} {ps : List SpotPart}
  {x : Spot}

lemma nil (F : List (ScopeId × Block)) (u : SymbolTable) (o : List Nat) (k : Nat) (env : Env) :
    PartsResolved F u o k env [] := ⟨nofun, nofun⟩

lemma mono (h : PartsResolved F t o k env ps) (ht : t.Sound) (hu : t.Later u) (hF : F ⊆ F') :
    PartsResolved F' u o k env ps where
  heads hn := (h.heads hn).mono ht hu hF
  met hi := (h.met hi).mono ht hu hF

lemma child (hx : x.Resolved F u (o ++ [k]) env) (h : PartsResolved F u o (k + 1) (add env x.own) ps) :
    PartsResolved F u o k env (.child x :: ps) where
  heads hn := h.heads hn
  met {i y env'} hi := by
    cases i with
    | zero =>
      cases hi
      exact hx
    | succ i =>
      have := h.met hi
      rwa [Nat.add_assoc, Nat.add_comm 1 i] at this

lemma block {n} {kind} {xs} {parts} (hd : Declared F u ⟨o, n⟩ xs)
    (h : PartsResolved F u o k ((⟨o, n⟩, xs) :: env) parts)
    (h' : PartsResolved F u o (k + (partsSlots parts).length) env ps) :
    PartsResolved F u o k env (.block n kind xs parts :: ps) where
  heads {n' xs'} hn := by
    rw [partsHeads, SpotPart.heads, cons_append, mem_cons, mem_append] at hn
    rcases hn with hn | hn | hn
    · cases hn
      exact hd
    · exact h.heads hn
    · exact h'.heads hn
  met {i y env'} hi := by
    rw [partsMet, SpotPart.met, own_block, add_nil] at hi
    by_cases hlt : i < (partsSlots parts).length
    · rw [getElem?_append_left (by rwa [length_partsMet])] at hi
      exact h.met hi
    · rw [getElem?_append_right (by rw [length_partsMet]; omega), length_partsMet] at hi
      have := h'.met hi
      rwa [Nat.add_assoc, Nat.add_sub_cancel' (by omega)] at this

end PartsResolved

lemma Spot.Resolved.of_parts {c} {x : Spot} (hr : ∃ s t, t.Sound ∧ t.Later u ∧ Matches F t s env ∧ x.Reads s t)
    (ho : x.own ≠ [] → ∃ e, env.head? = some e ∧ Declared F u e.1 x.own ∧ ∀ y ∈ e.2, ∀ z ∈ x.own, y.name.text ≠
    z.name.text) (h : PartsResolved F u c 0 env x.before)
    (h' : PartsResolved F u c (partsSlots x.before).length (add env x.own) x.after) : x.Resolved F u c env := by
  refine .intro ⟨hr, ho, fun hn => ?_⟩ fun i y env' hi => ?_
  · rw [Spot.heads, partsHeads_append] at hn
    rcases mem_append.mp hn with hn | hn
    · exact h.heads hn
    · exact h'.heads hn
  · rw [Spot.met] at hi
    by_cases hlt : i < (partsSlots x.before).length
    · rw [getElem?_append_left (by rwa [length_partsMet])] at hi
      have := h.met hi
      rwa [Nat.zero_add] at this
    · rw [getElem?_append_right (by rw [length_partsMet]; omega), length_partsMet] at hi
      have := h'.met hi
      rwa [Nat.add_sub_cancel' (by omega)] at this

lemma Walk.resolved {owner} {s} {ps} (h : Walk owner s t ps u)
    (ht : t.Sound) (hm : Matches F t s ((b, xs) :: env)) (o : List Nat) (k : Nat) :
    ∃ F', Fresh t.scopes.size u.scopes.size F' ∧ PartsResolved (F' ++ F) u o k ((b, xs) :: env) ps := by
  induction h generalizing F b xs env o k with
  | nil => exact ⟨[], .nil _ _, .nil _ _ _ _ _⟩
  | @child _ s t t1 t2 t3 u x ps hx h1 hd h2 h3 ih1 ih2 ih3 =>
    have hs := hm.lt
    have ha1 := h1.adds ht hs
    have ha2 := hd.adds ha1.sound (hs.trans_le ha1.scopes_le)
    have ha := ha1.trans ha2 hs
    have ha3 := h2.adds ha2.sound (hs.trans_le ha.scopes_le)
    -- All of the spot's names are there before its last parts.
    have hown := x.own_eq
    rw [x.own_after, append_nil] at hown
    rw [hown] at ha
    rw [x.own_after] at ha3
    have hb := ha.trans ha3 hs
    rw [append_nil] at hb
    have ha4 := h3.adds ha3.sound (hs.trans_le hb.scopes_le)
    obtain ⟨F1, hf1, hr1⟩ := ih1 ht hm (o ++ [k]) 0
    obtain ⟨F2, hf2, hr2⟩ := ih2 ha2.sound (hm.adds ha ht) (o ++ [k]) (partsSlots x.before).length
    obtain ⟨F3, hf3, hr3⟩ := ih3 ha3.sound (hm.adds hb ht) o (k + 1)
    have hF : F ⊆ F1 ++ (F2 ++ F3) ++ F := by grind
    have hF1 : F1 ++ F ⊆ F1 ++ (F2 ++ F3) ++ F := by grind
    have hF2 : F2 ++ F ⊆ F1 ++ (F2 ++ F3) ++ F := by grind
    have hF3 : F3 ++ F ⊆ F1 ++ (F2 ++ F3) ++ F := by grind
    have hl3 := ha4.toLater
    have hl1 := (ha2.toLater.trans ha3.toLater).trans hl3
    refine ⟨F1 ++ (F2 ++ F3), ?_, .child (.of_parts ?_ ?_ ?_ ?_) (hr3.mono ha4.sound (.refl u) hF3)⟩
    · have := ha1.scopes_le
      have := ha2.scopes_le
      have := ha3.scopes_le
      have := ha4.scopes_le
      exact hf1.append (hf2.append hf3 (by omega) le_rfl (by omega)) (by omega) (by omega) (by omega)
    · exact ⟨s, t, ht, hb.toLater.trans hl3, hm.mono hF, hx.reads⟩
    · intro _
      refine ⟨_, rfl, (Declared.of_adds hb hm.mem hs).mono ha3.sound hl3 hF, ?_⟩
      exact fun y hy z hz => hm.name_ne hb hy hz
    · exact hr1.mono ha1.sound hl1 hF1
    · exact hr2.mono ha3.sound hl3 hF2
  | @block _ s t t1 t2 u n kind hd parts ps hb h1 h2 ih1 ih2 =>
    have hg := SymbolTable.growth_pushScope ht hm.lt kind t.scopes.size
    have hsize : t.scopes.size < (t.pushScope s kind).1.scopes.size := by simp
    have ha1 := hb.adds hg.sound hsize
    have hm1 : Matches ((t.scopes.size, ⟨o, n⟩) :: F) t1 t.scopes.size ((⟨o, n⟩, hd) :: (b, xs) :: env) :=
      ((hm.mono (subset_cons_self _ _)).push ht rfl rfl mem_cons_self).adds ha1 hg.sound
    have ha2 := h1.adds ha1.sound hm1.lt
    have hm2 := hm.grow ((hg.trans ha1.toGrowth).trans ha2.toGrowth) ht hm.lt
    have ha3 := h2.adds ha2.sound hm2.lt
    obtain ⟨F1, hf1, hr1⟩ := ih1 ha1.sound hm1 o k
    obtain ⟨F2, hf2, hr2⟩ := ih2 ha2.sound hm2 o (k + (partsSlots parts).length)
    have hF1 : F1 ++ (t.scopes.size, ⟨o, n⟩) :: F ⊆ [(t.scopes.size, ⟨o, n⟩)] ++ (F1 ++ F2) ++ F := by grind
    have hF2 : F2 ++ F ⊆ [(t.scopes.size, ⟨o, n⟩)] ++ (F1 ++ F2) ++ F := by grind
    refine ⟨[(t.scopes.size, ⟨o, n⟩)] ++ (F1 ++ F2), ?_, .block ?_ ?_ ?_⟩
    · have := ha1.scopes_le
      have := ha2.scopes_le
      have := ha3.scopes_le
      exact (Fresh.singleton _ _).append (hf1.append hf2 (by omega) le_rfl (by omega)) (by omega) (by omega)
        (by omega)
    · exact (Declared.of_adds ha1 hm1.mem hsize).mono ha1.sound (ha2.toLater.trans ha3.toLater) (by grind)
    · exact hr1.mono ha2.sound ha3.toLater hF1
    · exact hr2.mono ha3.sound (.refl u) hF2

end SketchCompiler
