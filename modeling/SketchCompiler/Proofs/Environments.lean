import SketchCompiler.Proofs.Spots

namespace SketchCompiler

open List

abbrev Env := List (Block × List Binder)

namespace Env

variable {env : Env} {b : Block} {x : Binder} {xs ys : List Binder}

def add : Env → List Binder → Env
  | [], _ => []
  | (b, xs) :: env, ys => (b, xs ++ ys) :: env

def blocks (env : Env) : List Block := env.map (·.1)

def Has (env : Env) (b : Block) (x : Binder) : Prop := ∃ xs, (b, xs) ∈ env ∧ x ∈ xs

@[simp]
lemma add_nil (env : Env) : add env [] = env := by
  cases env <;> simp [add]

@[simp]
lemma blocks_cons (b : Block) (xs : List Binder) (env : Env) : blocks ((b, xs) :: env) = b :: blocks env := rfl

@[simp]
lemma blocks_add (env : Env) (ys : List Binder) : blocks (add env ys) = blocks env := by
  cases env <;> rfl

lemma not_has_nil : ¬ Has [] b x := by
  rintro ⟨xs, h, -⟩
  cases h

lemma has_cons {c} : Has ((c, xs) :: env) b x ↔ (b = c ∧ x ∈ xs) ∨ Has env b x := by
  simp only [Has, mem_cons, Prod.mk.injEq]
  constructor
  · rintro ⟨ys, ⟨rfl, rfl⟩ | h, hx⟩
    · exact .inl ⟨rfl, hx⟩
    · exact .inr ⟨ys, h, hx⟩
  · rintro (⟨rfl, hx⟩ | ⟨ys, h, hx⟩)
    · exact ⟨xs, .inl ⟨rfl, rfl⟩, hx⟩
    · exact ⟨ys, .inr h, hx⟩

lemma has_add : Has (add env ys) b x ↔ Has env b x ∨ (env.blocks.head? = some b ∧ x ∈ ys) := by
  cases env with
  | nil => simp [add, blocks, not_has_nil]
  | cons e env =>
    obtain ⟨c, xs⟩ := e
    simp only [add, has_cons, mem_append, blocks_cons, head?_cons, Option.some.injEq]
    grind

lemma mem_blocks_of_has (h : Has env b x) : b ∈ env.blocks := by
  obtain ⟨xs, h, -⟩ := h
  exact mem_map_of_mem h

end Env

open Env

/-- The names that a spot adds to the block around it. -/
def Spot.own : Spot → List Binder
  | node n => n.binder?.toList
  | declared d => [d.binder]
  | guarded _ _ _ x => [x]
  | _ => []

def SpotPart.own : SpotPart → List Binder
  | child x => x.own
  | block .. => []

namespace SpotPart

@[simp]
lemma own_block (number : Nat) (kind : ScopeKind) (header : List Binder) (parts : List SpotPart) :
    (block number kind header parts).own = [] := rfl

@[simp]
lemma own_child (x : Spot) : (child x).own = x.own := rfl

@[simp]
lemma own_ofBody (number : Nat) (kind : ScopeKind) (header : List Binder) (body : List Stmt) :
    (ofBody number kind header body).own = [] := rfl

@[simp]
lemma own_ofExpr? (e : Option Expr) : (ofNodes (Node.ofExpr? e)).flatMap own = [] := by
  cases e <;> rfl

@[simp]
lemma own_ofRange? (r : Option Range) : (ofNodes (Node.ofRange? r)).flatMap own = [] := by
  cases r <;> rfl

@[simp]
lemma own_ofPatterns (ps : List Pattern) : (ofNodes (ps.flatMap Node.ofPattern)).flatMap own = [] := by
  induction ps with
  | nil => rfl
  | cons p ps ih => cases p <;> simpa [Node.ofPattern, ofNodes, Spot.own, Node.binder?] using ih

@[simp]
lemma own_ofBranches (bs : List Branch) (k : Nat) : (ofBranches bs k).flatMap own = [] := by
  simp [ofBranches, flatMap_assoc, Spot.own, Node.binder?]

@[simp]
lemma own_ofArms (arms : List Arm) (k : Nat) : (ofArms arms k).flatMap own = [] := by
  simp only [ofArms, flatMap_assoc, flatMap_append, own_ofPatterns]
  simp

@[simp]
lemma own_ofMethods (ms : List (Located FunctionDecl)) (k : Nat) : (ofMethods ms k).flatMap own = [] := by
  simp [ofMethods, flatMap_map]

end SpotPart

namespace Spot

open Node SpotPart

attribute [local simp] before after binder? own Node.binder? flatMap_map

lemma own_eq (x : Spot) :
    x.before.flatMap SpotPart.own ++ x.binder?.toList ++ x.after.flatMap SpotPart.own = x.own := by
  cases x with
  | node n =>
    cases n with
    | unit p => rfl
    | item i =>
      cases i with
      | task l d => simp
      | _ => simp [ofNodes, children]
    | var d =>
      have h : ofNodes (var d).children = ofNodes (ofRange? d.range) ++ ofNodes (ofExpr? d.initializer) := map_append
      simp [h]
    | stmt s =>
      cases s with
      | ret l e => simp [children]
      | _ => simp [ofNodes, children]
    | expr e => cases e <;> simp [ofNodes, children]
  | declared d =>
    rcases h : d.initializer with _ | e
    · simp [h]
    · cases e <;> simp [h]
  | field d => simp
  | guarded l e handler y => rfl
  | unread n => rfl

end Spot

namespace SpotPart

variable {o ks : List Nat} {env : Env} {b : Block}

mutual

/-- The children, each with the environment it is met in; `o` is the place of the spot around. -/
def met (o : List Nat) (env : Env) : SpotPart → List (Spot × Env)
  | child x => [(x, env)]
  | block number _ header parts => partsMet o ((⟨o, number⟩, header) :: env) parts

def partsMet (o : List Nat) (env : Env) : List SpotPart → List (Spot × Env)
  | [] => []
  | p :: ps => p.met o env ++ partsMet o (add env p.own) ps

end

def enclosing (o : List Nat) (env : Env) (ks : List Nat) : List Block := ks.reverse.map (⟨o, ·⟩) ++ blocks env

lemma enclosing_cons (o : List Nat) (env : Env) (n : Nat) (ks : List Nat) (h : List Binder) :
    enclosing o env (n :: ks) = enclosing o ((⟨o, n⟩, h) :: env) ks := by
  simp [enclosing]

lemma enclosing_add (o : List Nat) (env : Env) (xs : List Binder) (ks : List Nat) :
    enclosing o (add env xs) ks = enclosing o env ks := by
  simp [enclosing]

lemma mem_enclosing : b ∈ enclosing o env ks ↔ (∃ k ∈ ks, b = ⟨o, k⟩) ∨ b ∈ blocks env := by
  simp [enclosing, eq_comm]

lemma mem_of_head?_enclosing (hk : ks ≠ []) (h : (enclosing o env ks).head? = some b) : ∃ k ∈ ks, b = ⟨o, k⟩ := by
  rw [enclosing, head?_append_of_ne_nil _ (by simpa using hk)] at h
  obtain ⟨k, hk, rfl⟩ := mem_map.mp (mem_of_head? h)
  exact ⟨k, mem_reverse.mp hk, rfl⟩

lemma partsMet_eq (o : List Nat) (env : Env) (ps : List SpotPart) :
    (partsMet o env ps).map (fun m => (m.1, blocks m.2)) = (partsSlots ps).map fun s => (s.2, enclosing o env s.1) := by
  match ps with
  | [] => rfl
  | child x :: ps =>
    have ih := partsMet_eq o (add env x.own) ps
    simp only [enclosing_add] at ih
    simpa [partsMet, met, partsSlots, slots, enclosing] using ih
  | block n kind h parts :: ps =>
    have ih := partsMet_eq o env ps
    have hb := partsMet_eq o ((⟨o, n⟩, h) :: env) parts
    simp only [← enclosing_cons] at hb
    simp only [partsMet, met, own_block, add_nil, partsSlots, slots, map_append, map_map, ih, hb]
    rfl

lemma mem_heads_of_slot {ps} {s : List Nat × Spot} (hs : s ∈ partsSlots ps) {k : Nat} (hk : k ∈ s.1) :
    k ∈ (partsHeads ps).map (·.1) := by
  match ps with
  | [] => cases hs
  | child x :: ps =>
    simp only [partsSlots, slots, singleton_append, mem_cons] at hs
    rcases hs with rfl | hs
    · cases hk
    · simpa [partsHeads, heads] using mem_heads_of_slot hs hk
  | block n kind h parts :: ps =>
    simp only [partsSlots, slots, mem_append, mem_map] at hs
    rcases hs with ⟨s, hs, rfl⟩ | hs
    · simp only at hk
      rcases mem_cons.mp hk with rfl | hk
      · simp [partsHeads, heads]
      · have := mem_heads_of_slot hs hk
        simp_all [partsHeads, heads]
    · have := mem_heads_of_slot hs hk
      simp_all [partsHeads, heads]

lemma nodup_of_slot {ps} (hn : ((partsHeads ps).map (·.1)).Nodup) {s : List Nat × Spot}
    (hs : s ∈ partsSlots ps) : s.1.Nodup := by
  match ps with
  | [] => cases hs
  | child x :: ps =>
    simp only [partsSlots, slots, singleton_append, mem_cons] at hs
    rcases hs with rfl | hs
    · exact nodup_nil
    · exact nodup_of_slot (by simpa [partsHeads, heads] using hn) hs
  | block n kind h parts :: ps =>
    simp only [partsHeads, heads, map_append, map_cons] at hn
    obtain ⟨hn1, hn2, -⟩ := nodup_append.mp hn
    obtain ⟨hnp, hn1⟩ := nodup_cons.mp hn1
    simp only [partsSlots, slots, mem_append, mem_map] at hs
    rcases hs with ⟨s, hs, rfl⟩ | hs
    · exact nodup_cons.mpr ⟨fun hk => hnp (mem_heads_of_slot hs hk), nodup_of_slot hn1 hs⟩
    · exact nodup_of_slot hn2 hs

lemma length_partsMet (o : List Nat) (env : Env) (ps : List SpotPart) :
    (partsMet o env ps).length = (partsSlots ps).length := by
  simpa using congrArg List.length (partsMet_eq o env ps)

/-- What a block around a slot has from its header; `ks` are the numbers of those that the slot is in. -/
def FromHeads (o : List Nat) (hs : List (Nat × List Binder)) (ks : List Nat) (b : Block) (x : Binder) : Prop :=
  ∃ k ∈ ks, b = ⟨o, k⟩ ∧ ∃ h, (k, h) ∈ hs ∧ x ∈ h

/-- What a block around a slot has from the first `i` slots. -/
def FromSlots (o : List Nat) (env : Env) (ss : List (List Nat × Spot)) (i : Nat) (ks : List Nat) (b : Block)
    (x : Binder) : Prop :=
  b ∈ enclosing o env ks ∧ ∃ j < i, ∃ s, ss[j]? = some s ∧ x ∈ s.2.own ∧ (enclosing o env s.1).head? = some b

section

variable {o : List Nat} {env : Env} {hs hs' : List (Nat × List Binder)} {ss ss' : List (List Nat × Spot)}
  {i n : Nat} {ks : List Nat} {b : Block} {x : Binder} {xs : List Binder}

lemma fromHeads_cons (hn : n ∉ hs.map (·.1)) :
    FromHeads o ((n, xs) :: hs) (n :: ks) b x ↔ (b = ⟨o, n⟩ ∧ x ∈ xs) ∨ FromHeads o hs ks b x := by
  constructor
  · rintro ⟨k, hk, rfl, h, hh, hx⟩
    rcases mem_cons.mp hh with he | hm
    · cases he
      exact .inl ⟨rfl, hx⟩
    · have hkn : k ≠ n := by
        rintro rfl
        exact hn (mem_map_of_mem hm)
      exact .inr ⟨k, (mem_cons.mp hk).resolve_left hkn, rfl, h, hm, hx⟩
  · rintro (⟨rfl, hx⟩ | ⟨k, hk, rfl, h, hh, hx⟩)
    · exact ⟨n, mem_cons_self, rfl, xs, mem_cons_self, hx⟩
    · exact ⟨k, mem_cons_of_mem n hk, rfl, h, mem_cons_of_mem _ hh, hx⟩

lemma fromHeads_append : FromHeads o (hs ++ hs') ks b x ↔ FromHeads o hs ks b x ∨ FromHeads o hs' ks b x := by
  simp only [FromHeads, mem_append]
  grind

lemma not_fromHeads (hd : ∀ k ∈ ks, k ∉ hs.map (·.1)) : ¬ FromHeads o hs ks b x := by
  rintro ⟨k, hk, -, h, hh, -⟩
  exact hd k hk (mem_map_of_mem hh)

lemma fromSlots_append_left (hi : i ≤ ss.length) :
    FromSlots o env (ss ++ ss') i ks b x ↔ FromSlots o env ss i ks b x := by
  have hj {j : Nat} (hj : j < i) : (ss ++ ss')[j]? = ss[j]? := getElem?_append_left (hj.trans_le hi)
  constructor
  · rintro ⟨hb, j, hji, s, hs, hx⟩
    exact ⟨hb, j, hji, s, hj hji ▸ hs, hx⟩
  · rintro ⟨hb, j, hji, s, hs, hx⟩
    exact ⟨hb, j, hji, s, (hj hji).trans hs, hx⟩

lemma fromSlots_append_right (hi : ss.length ≤ i)
    (hd : ∀ s ∈ ss, x ∈ s.2.own → (enclosing o env s.1).head? = some b → b ∉ enclosing o env ks) :
    FromSlots o env (ss ++ ss') i ks b x ↔ FromSlots o env ss' (i - ss.length) ks b x := by
  constructor
  · rintro ⟨hb, j, hji, s, hs, hx, hh⟩
    by_cases hj : j < ss.length
    · rw [getElem?_append_left hj] at hs
      exact absurd hb (hd s (mem_of_getElem? hs) hx hh)
    · rw [getElem?_append_right (by omega)] at hs
      exact ⟨hb, j - ss.length, by omega, s, hs, hx, hh⟩
  · rintro ⟨hb, j, hji, s, hs, hx⟩
    refine ⟨hb, ss.length + j, by omega, s, ?_, hx⟩
    rw [getElem?_append_right (Nat.le_add_right _ _), Nat.add_sub_cancel_left, hs]

lemma fromSlots_add : FromSlots o (add env xs) ss i ks b x ↔ FromSlots o env ss i ks b x := by
  simp only [FromSlots, enclosing_add]

lemma fromSlots_child {w : Spot} : FromSlots o env (([], w) :: ss) (i + 1) ks b x ↔
    ((blocks env).head? = some b ∧ x ∈ w.own) ∨ FromSlots o env ss i ks b x := by
  constructor
  · rintro ⟨hb, j, hji, s, hs, hx, hh⟩
    cases j with
    | zero =>
      cases hs
      exact .inl ⟨hh, hx⟩
    | succ j => exact .inr ⟨hb, j, by omega, s, hs, hx, hh⟩
  · rintro (⟨hh, hx⟩ | ⟨hb, j, hji, s, hs, hx⟩)
    · exact ⟨mem_append_right _ (mem_of_head? hh), 0, Nat.succ_pos i, _, rfl, hx, hh⟩
    · exact ⟨hb, j + 1, by omega, s, hs, hx⟩

lemma fromSlots_block (xs : List Binder) : FromSlots o env (ss.map fun s => (n :: s.1, s.2)) i (n :: ks) b x ↔
    FromSlots o ((⟨o, n⟩, xs) :: env) ss i ks b x := by
  constructor
  · rintro ⟨hb, j, hji, s, hs, hx⟩
    rw [getElem?_map] at hs
    obtain ⟨s', hs', rfl⟩ := Option.map_eq_some_iff.mp hs
    refine ⟨?_, j, hji, s', hs', ?_⟩
    · rwa [← enclosing_cons]
    · rwa [← enclosing_cons]
  · rintro ⟨hb, j, hji, s, hs, hx⟩
    rw [← enclosing_cons] at hb hx
    exact ⟨hb, j, hji, _, by rw [getElem?_map, hs, Option.map_some], hx⟩

lemma not_mem_enclosing {js : List Nat} (hj : js ≠ []) (hh : (enclosing o env js).head? = some b)
    (hk : ∀ k ∈ js, k ∉ ks ∧ ⟨o, k⟩ ∉ blocks env) : b ∉ enclosing o env ks := by
  obtain ⟨m, hm, rfl⟩ := mem_of_head?_enclosing hj hh
  intro hb
  rcases mem_enclosing.mp hb with ⟨k, hks, he⟩ | hb
  · cases he
    exact (hk m hm).1 hks
  · exact (hk m hm).2 hb

end

lemma has_partsMet {o} {env env'} {ps} {i} {ks} {y} {b} {x} (hn : ((partsHeads ps).map (·.1)).Nodup)
    (he : ∀ k ∈ (partsHeads ps).map (·.1), ⟨o, k⟩ ∉ blocks env)
    (hs : (partsSlots ps)[i]? = some (ks, y)) (hm : (partsMet o env ps)[i]? = some (y, env')) :
    Has env' b x ↔ Has env b x ∨ FromHeads o (partsHeads ps) ks b x ∨ FromSlots o env (partsSlots ps) i ks b x := by
  match ps with
  | [] => cases hs
  | child w :: ps =>
    cases i with
    | zero =>
      cases hs
      cases hm
      simp [FromHeads, FromSlots]
    | succ i =>
      simp only [partsSlots, slots, singleton_append, getElem?_cons_succ] at hs ⊢
      simp only [partsMet, met, singleton_append, getElem?_cons_succ] at hm
      simp only [partsHeads, heads, nil_append] at hn he ⊢
      rw [has_partsMet hn (by simpa using he) hs hm, has_add, own_child, fromSlots_add, fromSlots_child, or_assoc,
        or_left_comm (b := FromHeads _ _ _ _ _)]
  | block n kind h parts :: ps =>
    simp only [partsHeads, heads, map_append, map_cons] at hn he
    obtain ⟨hn1, hn2, hd⟩ := nodup_append.mp hn
    obtain ⟨hnp, hn1⟩ := nodup_cons.mp hn1
    simp only [partsSlots, slots, partsHeads, heads] at hs ⊢
    simp only [partsMet, met, own_block, add_nil] at hm
    by_cases hi : i < (partsSlots parts).length
    · rw [getElem?_append_left (by simpa using hi), getElem?_map] at hs
      rw [getElem?_append_left (by simpa [length_partsMet] using hi)] at hm
      obtain ⟨⟨ks', y'⟩, hs', h'⟩ := Option.map_eq_some_iff.mp hs
      obtain ⟨rfl, rfl⟩ := Prod.mk.inj h'
      have he' : ∀ k ∈ (partsHeads parts).map (·.1), ⟨o, k⟩ ∉ blocks ((⟨o, n⟩, h) :: env) := by
        intro k hk hm
        rcases mem_cons.mp hm with hm | hm
        · cases hm
          exact hnp hk
        · exact he k (mem_append_left _ (mem_cons_of_mem n hk)) hm
      have hks : ∀ k ∈ n :: ks', k ∉ (partsHeads ps).map (·.1) := by
        intro k hk hk'
        refine hd k (mem_cons.mpr ((mem_cons.mp hk).imp_right fun hk => ?_)) k hk' rfl
        exact mem_heads_of_slot (mem_of_getElem? hs') hk
      rw [has_partsMet hn1 he' hs' hm, has_cons, fromHeads_append, or_iff_left (not_fromHeads hks), fromHeads_cons hnp,
        fromSlots_append_left (by simpa using hi.le), fromSlots_block h, or_assoc, or_left_comm, or_assoc]
    · rw [getElem?_append_right (by simpa using hi), length_map] at hs
      rw [getElem?_append_right (by simpa [length_partsMet] using hi), length_partsMet] at hm
      have hks {k : Nat} (hk : k ∈ ks) : k ∈ (partsHeads ps).map (·.1) := mem_heads_of_slot (mem_of_getElem? hs) hk
      have he' : ∀ k ∈ (partsHeads ps).map (·.1), ⟨o, k⟩ ∉ blocks env := fun k hk => he k (mem_append_right _ hk)
      have hks' : ∀ k ∈ ks, k ∉ ((n, h) :: partsHeads parts).map (·.1) := fun k hk hk' => hd k hk' k (hks hk) rfl
      rw [has_partsMet hn2 he' hs hm, fromHeads_append, or_iff_right (not_fromHeads hks'),
        fromSlots_append_right (by simpa using hi), length_map]
      rintro _ hm _ hh
      obtain ⟨s, hsp, rfl⟩ := mem_map.mp hm
      refine not_mem_enclosing (cons_ne_nil _ _) hh fun k hk => ?_
      have hk' : k ∈ n :: (partsHeads parts).map (·.1) :=
        mem_cons.mpr ((mem_cons.mp hk).imp_right (mem_heads_of_slot hsp))
      exact ⟨fun hkk => hd k hk' k (hks hkk) rfl, he k (mem_append_left _ hk')⟩

end SpotPart

namespace Spot

open Node SpotPart

variable {o : List Nat} {env env' : Env} {x y : Spot} {i : Nat} {ks : List Nat} {b : Block} {z : Binder}

lemma isRead_of_slot {s} (h : x.slots[i]? = some s) : x.isRead := by
  cases x with
  | unread n => cases h
  | _ => rfl

lemma child_of_slot {s : List Nat × Spot} (h : x.slots[i]? = some s) :
    x.toNode.children[i]? = some s.2.toNode ∧ x.toNode.around[i]? = some s.1 := by
  obtain ⟨hn, hb⟩ := slots_of_isRead (isRead_of_slot h)
  rw [← hn, ← hb, getElem?_map, getElem?_map, h]
  exact ⟨rfl, rfl⟩

lemma slot_of_child {c} (hx : x.isRead) (h : x.toNode.children[i]? = some c) :
    ∃ ks y, x.slots[i]? = some (ks, y) ∧ y.toNode = c := by
  rw [← (slots_of_isRead hx).1, getElem?_map] at h
  obtain ⟨s, hs, rfl⟩ := Option.map_eq_some_iff.mp h
  exact ⟨s.1, s.2, hs, rfl⟩

lemma child_mem_of_direct {ps} (h : ([], y) ∈ partsSlots ps) : child y ∈ ps := by
  rw [partsSlots_eq, mem_flatMap] at h
  obtain ⟨p, hp, h⟩ := h
  cases p with
  | child x =>
    obtain ⟨-, rfl⟩ := Prod.mk.inj (mem_singleton.mp h)
    exact hp
  | block n kind header parts =>
    obtain ⟨s, -, hs⟩ := mem_map.mp h
    cases hs

lemma own_of_direct (h : x.slots[i]? = some ([], y)) (hz : z ∈ y.own) : z ∈ x.own := by
  have hc : child y ∈ x.before ++ x.after := child_mem_of_direct (mem_of_getElem? h)
  rw [← own_eq]
  simp only [mem_append, mem_flatMap]
  rcases mem_append.mp hc with hc | hc
  · exact .inl (.inl ⟨_, hc, hz⟩)
  · exact .inr ⟨_, hc, hz⟩

lemma expr_of_mem_var {d} {c} (h : c ∈ (var d).children) : ∃ e, c = expr e := by
  rcases mem_append.mp h with h | h
  · obtain ⟨r, -, rfl | rfl⟩ := mem_ofRange?.mp h
    · exact ⟨_, rfl⟩
    · exact ⟨_, rfl⟩
  · obtain ⟨e, -, rfl⟩ := mem_ofExpr?.mp h
    exact ⟨e, rfl⟩

lemma binder?_of_direct {n : Node} (h : x.slots[i]? = some ([], node n)) : n.binder? = none := by
  cases hn : n.binder? with
  | none => rfl
  | some z =>
    have hz : z ∈ x.own := own_of_direct h (by simp [own, hn])
    obtain ⟨hc, hb⟩ := child_of_slot h
    have hm : n ∈ x.toNode.children := mem_of_getElem? hc
    -- Only few spots add a name, and none has a declaration right below.
    cases x with
    | node m =>
      simp only [own, Option.mem_toList] at hz
      unfold Node.binder? at hz
      split at hz
      · rw [mem_singleton.mp hm] at hn
        cases hn
      · rw [mem_singleton.mp hm] at hn
        cases hn
      · rw [mem_singleton.mp hm] at hn
        cases hn
      · cases hz
    | declared d =>
      obtain ⟨e, rfl⟩ := expr_of_mem_var hm
      cases hn
    | guarded l e handler b =>
      cases i with
      | zero =>
        cases hc
        cases hn
      | succ i =>
        have hb : (handler.map fun _ => [0])[i]? = some [] := hb
        obtain ⟨-, -, hb⟩ := mem_map.mp (mem_of_getElem? hb)
        cases hb
    | _ => cases hz

lemma own_of_slot (h : x.slots[i]? = some (ks, y)) (hz : z ∈ y.own) :
    (∃ n, y = node n ∧ n.binder? = some z ∧ ks ≠ []) ∨ (ks = [] ∧ i + 1 = x.slots.length) := by
  cases below_of_slot h with
  | @node _ _ n =>
    have hn : n.binder? = some z := by simpa [own] using hz
    refine .inl ⟨n, rfl, hn, ?_⟩
    rintro rfl
    rw [binder?_of_direct h] at hn
    cases hn
  | ofItem | ofStmt =>
    cases h
    exact .inr ⟨rfl, rfl⟩
  | guarded hi =>
    simp [slots, before, hi, after, partsSlots, SpotPart.slots] at h ⊢
    exact h
  | _ => cases hz

def met (o : List Nat) (env : Env) (x : Spot) : List (Spot × Env) :=
  partsMet o env x.before ++ partsMet o (add env x.own) x.after

lemma met_eq (o : List Nat) (env : Env) (x : Spot) :
    (x.met o env).map (fun m => (m.1, blocks m.2)) = x.slots.map fun s => (s.2, enclosing o env s.1) := by
  simp [met, slots, partsMet_eq, enclosing_add]

lemma slot_of_met {m : Spot × Env} (h : (x.met o env)[i]? = some m) :
    ∃ ks, x.slots[i]? = some (ks, m.1) ∧ blocks m.2 = enclosing o env ks := by
  have hs := congrArg (·[i]?) (met_eq o env x)
  simp only [getElem?_map, h, Option.map_some] at hs
  obtain ⟨s, hs, he⟩ := Option.map_eq_some_iff.mp hs.symm
  obtain ⟨hm, hb⟩ := Prod.mk.inj he
  exact ⟨s.1, by rw [hs, ← hm], hb.symm⟩

lemma met_of_slot (o : List Nat) (env : Env) {s : List Nat × Spot} (h : x.slots[i]? = some s) :
    ∃ env', (x.met o env)[i]? = some (s.2, env') := by
  have hs := congrArg (·[i]?) (met_eq o env x)
  simp only [getElem?_map, h, Option.map_some] at hs
  obtain ⟨m, hm, he⟩ := Option.map_eq_some_iff.mp hs
  exact ⟨m.2, by rw [hm, ← (Prod.mk.inj he).1]⟩

lemma fromHeads_heads (h : x.slots[i]? = some (ks, y)) :
    FromHeads o x.heads ks b z ↔ ∃ k ∈ ks, b = ⟨o, k⟩ ∧ z ∈ x.toNode.header k := by
  have hr := isRead_of_slot h
  constructor
  · rintro ⟨k, hk, hb, xs, hxs, hz⟩
    exact ⟨k, hk, hb, header_of_mem_heads hr hxs ▸ hz⟩
  · rintro ⟨k, hk, hb, hz⟩
    obtain ⟨⟨k', xs⟩, hxs, rfl⟩ := mem_map.mp (mem_heads_of_slot (mem_of_getElem? h) hk)
    exact ⟨k', hk, hb, xs, hxs, header_of_mem_heads hr hxs ▸ hz⟩

/-- Before slot `i` the blocks of the spot have the names of their headers and of the declarations before; those around
it have one name more if it has declared its own. -/
lemma has_met (he : ∀ c ∈ blocks env, c.place ≠ o) (hs : x.slots[i]? = some (ks, y))
    (hm : (x.met o env)[i]? = some (y, env')) : Has env' b z ↔
      (Has env b z ∨ (partsSlots x.before).length ≤ i ∧ (blocks env).head? = some b ∧ z ∈ x.own) ∨
      FromHeads o x.heads ks b z ∨ FromSlots o env x.slots i ks b z := by
  have hslots : x.slots = partsSlots x.before ++ partsSlots x.after := partsSlots_append _ _
  have hheads : x.heads = partsHeads x.before ++ partsHeads x.after := partsHeads_append _ _
  have hi : i < x.slots.length := lt_of_getElem? hs
  have hne {env : Env} (he : ∀ c ∈ blocks env, c.place ≠ o) (k : Nat) : ⟨o, k⟩ ∉ blocks env := fun hk => he _ hk rfl
  obtain ⟨hn1, hn2, hd⟩ := nodup_append.mp (by simpa [hheads] using x.nodup_heads)
  rw [hslots] at hs
  by_cases hlt : i < (partsSlots x.before).length
  · rw [getElem?_append_left hlt] at hs
    rw [met, getElem?_append_left (by rwa [length_partsMet])] at hm
    have hks : ∀ k ∈ ks, k ∉ (partsHeads x.after).map (·.1) := fun k hk hk' =>
      hd k (mem_heads_of_slot (mem_of_getElem? hs) hk) k hk' rfl
    rw [has_partsMet hn1 (fun k _ => hne he k) hs hm, hheads, fromHeads_append, or_iff_left (not_fromHeads hks), hslots,
      fromSlots_append_left (hlt.le)]
    simp [not_le.mpr hlt]
  · rw [getElem?_append_right (by omega)] at hs
    rw [met, getElem?_append_right (by rw [length_partsMet]; omega), length_partsMet] at hm
    have hks : ∀ k ∈ ks, k ∉ (partsHeads x.before).map (·.1) := fun k hk hk' =>
      hd k hk' k (mem_heads_of_slot (mem_of_getElem? hs) hk) rfl
    have hb : ∀ s ∈ partsSlots x.before, z ∈ s.2.own → (enclosing o env s.1).head? = some b →
        b ∉ enclosing o env ks := by
      intro s hsb hz hh
      obtain ⟨j, hj⟩ := getElem?_of_mem hsb
      have hjl := lt_of_getElem? hj
      have hsj : x.slots[j]? = some (s.1, s.2) := by rw [hslots, getElem?_append_left hjl, hj]
      rcases own_of_slot hsj hz with ⟨-, -, -, hjs⟩ | ⟨-, hlast⟩
      · refine not_mem_enclosing hjs hh fun k hk => ⟨fun hkk => ?_, hne he k⟩
        exact hks k hkk (mem_heads_of_slot hsb hk)
      · omega
    rw [has_partsMet hn2 (fun k _ => hne (blocks_add env x.own ▸ he) k) hs hm, has_add, fromSlots_add, hheads,
      fromHeads_append, or_iff_right (not_fromHeads hks), hslots, fromSlots_append_right (not_lt.mp hlt) hb]
    simp [not_lt.mp hlt]

end Spot

end SketchCompiler
