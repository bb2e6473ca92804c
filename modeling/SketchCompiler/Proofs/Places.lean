import SketchCompiler.Proofs.Nodes

namespace SketchCompiler.Node

open List

variable {P : Node → Prop} {n m : Node} {a : List Nat} {α : Type}

def at? : Node → List Nat → Option Node
  | n, [] => some n
  | n, i :: a => n.children[i]?.bind (at? · a)

/-- The nodes from `n` downwards, with their places below `n`. -/
def places (n : Node) : List (List Nat × Node) :=
  ([], n) :: (List.finRange n.children.length).flatMap fun i =>
    (places (n.children.get i)).map fun x => (i.val :: x.1, x.2)
termination_by sizeOf n
decreasing_by exact sizeOf_lt_of_mem_children (get_mem _ _)

def nodes (n : Node) : List Node := n.places.map (·.2)

lemma mem_places_cons {i : Nat} : (i :: a, m) ∈ n.places ↔ ∃ c, n.children[i]? = some c ∧ (a, m) ∈ c.places := by
  rw [places]
  simp only [mem_cons, Prod.mk.injEq, reduceCtorEq, false_and, false_or, mem_flatMap, mem_finRange,
    true_and, mem_map, List.cons.injEq]
  constructor
  · rintro ⟨j, x, hx, ⟨rfl, rfl⟩, rfl⟩
    exact ⟨n.children.get j, by simp, hx⟩
  · rintro ⟨c, hc, hm⟩
    obtain ⟨hi, rfl⟩ := List.getElem?_eq_some_iff.mp hc
    exact ⟨⟨i, hi⟩, (a, m), hm, ⟨rfl, rfl⟩, rfl⟩

lemma mem_places {a : List Nat} : (a, m) ∈ n.places ↔ n.at? a = some m := by
  induction a generalizing n with
  | nil =>
    rw [places]
    simp [at?, eq_comm]
  | cons i a ih =>
    simp only [mem_places_cons, at?, Option.bind_eq_some_iff, ih]

lemma nodes_eq (n : Node) : n.nodes = n :: n.children.flatMap nodes := by
  have h : (finRange n.children.length).flatMap (fun i => (n.children.get i).nodes) =
      n.children.flatMap nodes := by
    rw [← flatMap_map, map_get_finRange]
  rw [← h, nodes, places]
  simp [map_flatMap, nodes, Function.comp_def]

lemma mem_nodes : m ∈ n.nodes ↔ ∃ a, n.at? a = some m := by
  simp only [nodes, mem_map, Prod.exists, exists_eq_right, mem_places]

lemma mem_nodes_iff : m ∈ n.nodes ↔ m = n ∨ ∃ c ∈ n.children, m ∈ c.nodes := by
  rw [nodes_eq, mem_cons, mem_flatMap]

lemma mem_nodes_self : n ∈ n.nodes := mem_nodes_iff.mpr (.inl rfl)

lemma forall_nodes_iff : (∀ m ∈ n.nodes, P m) ↔ P n ∧ ∀ c ∈ n.children, ∀ m ∈ c.nodes, P m := by
  rw [nodes_eq, forall_mem_cons, forall_mem_flatMap]

lemma at?_map {g : Node → Node} (hg : ∀ n, (g n).children = n.children.map g) (n : Node) (a : List Nat) :
    (g n).at? a = (n.at? a).map g := by
  induction a generalizing n with
  | nil => rfl
  | cons i a ih =>
    rw [at?, at?, hg, getElem?_map]
    cases n.children[i]? with
    | none => rfl
    | some c => exact ih c

lemma mem_nodes_of_mem_children {c} (hm : m ∈ n.nodes) (hc : c ∈ m.children) : c ∈ n.nodes := by
  induction n using induct with
  | h n ih =>
    rcases mem_nodes_iff.mp hm with rfl | ⟨k, hk, hm⟩
    · exact mem_nodes_iff.mpr (.inr ⟨c, hc, mem_nodes_self⟩)
    · exact mem_nodes_iff.mpr (.inr ⟨k, hk, ih k hk hm⟩)

lemma exists_parent (hm : m ∈ n.nodes) : m = n ∨ ∃ k ∈ n.nodes, m ∈ k.children := by
  induction n using induct with
  | h n ih =>
    rcases mem_nodes_iff.mp hm with rfl | ⟨c, hc, hm⟩
    · exact .inl rfl
    · rcases ih c hc hm with rfl | ⟨k, hk, hm⟩
      · exact .inr ⟨n, mem_nodes_self, hc⟩
      · exact .inr ⟨k, mem_nodes_iff.mpr (.inr ⟨c, hc, hk⟩), hm⟩

lemma isInner_of_mem_nodes (hn : n.isInner) (hm : m ∈ n.nodes) : m.isInner := by
  induction n using induct with
  | h n ih =>
    rcases mem_nodes_iff.mp hm with rfl | ⟨c, hc, hm⟩
    · exact hn
    · exact ih c hc (isInner_of_mem_children hn hc) hm

lemma pairwise_places (n : Node) : n.places.Pairwise fun x y => x.1 < y.1 := by
  induction n using induct with
  | h n ih =>
    rw [places]
    -- A node comes before its children, and what is below one child before what is below the next.
    refine pairwise_cons.mpr ⟨?_, pairwise_flatMap.mpr ⟨?_, ?_⟩⟩
    · simp only [mem_flatMap, mem_map]
      rintro _ ⟨i, -, x, -, rfl⟩
      exact nil_lt_cons _ _
    · intro i _
      refine pairwise_map.mpr ((ih _ (get_mem _ _)).imp ?_)
      intro x y h
      exact cons_lt_cons_iff.mpr (.inr ⟨rfl, h⟩)
    · refine (pairwise_lt_finRange _).imp ?_
      rintro i j hij
      simp only [mem_map]
      rintro _ ⟨x, -, rfl⟩ _ ⟨y, -, rfl⟩
      exact cons_lt_cons_iff.mpr (.inl hij)

/-- A function that takes its own share at each node, and then what it takes at the children, takes the shares of all
nodes in their order. -/
lemma flatMap_nodes {own collect : Node → List α} (hP : ∀ {n c : Node}, P n → c ∈ n.children → P c)
    (h : ∀ {n : Node}, P n → collect n = own n ++ n.children.flatMap collect) (hn : P n) :
    collect n = n.nodes.flatMap own := by
  induction n using induct with
  | h n ih =>
    rw [h hn, nodes_eq, flatMap_cons, flatMap_assoc]
    congr 1
    exact flatMap_congr fun c hc => ih c hc (hP hn hc)

/-- Whether a place below `n` lies in the body of an interrupt; child `0` of an interrupt is its pin. -/
def inBody : Node → List Nat → Bool
  | _, [] => false
  | item (.interrupt ..), (_ + 1) :: _ => true
  | n, i :: a => n.children[i]?.any (inBody · a)

/-- The nodes in the bodies of interrupts, with their places below `n`. -/
def bodyPlaces (n : Node) : List (List Nat × Node) := n.places.filter fun x => n.inBody x.1

def bodyNodes (n : Node) : List Node := n.bodyPlaces.map (·.2)

lemma mem_bodyPlaces : (a, m) ∈ n.bodyPlaces ↔ n.at? a = some m ∧ n.inBody a = true := by
  rw [bodyPlaces, mem_filter, mem_places]

lemma pairwise_bodyPlaces (n : Node) : n.bodyPlaces.Pairwise fun x y => x.1 < y.1 := n.pairwise_places.filter _

lemma mem_bodyNodes : m ∈ n.bodyNodes ↔ ∃ a, n.at? a = some m ∧ n.inBody a = true := by
  simp only [bodyNodes, mem_map, Prod.exists, exists_eq_right, mem_bodyPlaces]

lemma bodyNodes_eq_flatMap (n : Node) : n.bodyNodes = (finRange n.children.length).flatMap fun i =>
    ((n.children.get i).places.filter fun x => n.inBody (i.val :: x.1)).map (·.2) := by
  rw [bodyNodes, bodyPlaces, places, filter_cons_of_neg (by simp [inBody]), filter_flatMap, map_flatMap]
  simp only [filter_map, map_map, Function.comp_def]

lemma bodyNodes_eq (h : ∀ l d, n ≠ item (.interrupt l d)) : n.bodyNodes = n.children.flatMap bodyNodes := by
  have hb (i : Fin n.children.length) (a : List Nat) : n.inBody (i.val :: a) = (n.children.get i).inBody a := by
    rw [inBody]
    · simp
    · intro l d _ hn
      exact absurd hn (h l d)
  rw [bodyNodes_eq_flatMap]
  simp only [hb]
  change (finRange n.children.length).flatMap (fun i => (n.children.get i).bodyNodes) = _
  rw [← flatMap_map, map_get_finRange]

lemma bodyNodes_of_isInner (hn : n.isInner) : n.bodyNodes = [] := by
  induction n using induct with
  | h n ih =>
    rw [bodyNodes_eq]
    · exact flatMap_eq_nil_iff.mpr fun c hc => ih c hc (isInner_of_mem_children hn hc)
    · rintro l d rfl
      simp [isInner] at hn

lemma bodyNodes_of_isPlain {i} (hi : isPlain i) : (item i).bodyNodes = [] := by
  rw [bodyNodes_eq]
  · exact flatMap_eq_nil_iff.mpr fun c hc => bodyNodes_of_isInner (isInner_of_mem_item hi hc)
  · rintro l d ⟨⟩
    simp [isPlain] at hi

lemma flatMap_finRange_get_cons (f : Nat → Node → List α) (c : Node) (cs : List Node) :
    ((finRange (c :: cs).length).flatMap fun i => f i.val ((c :: cs).get i)) =
      f 0 c ++ (finRange cs.length).flatMap fun i => f (i.val + 1) (cs.get i) := by
  simp [finRange_succ, flatMap_map]

lemma bodyNodes_interrupt (l : Location) (d : InterruptDecl) :
    (item (.interrupt l d)).bodyNodes = (ofBlock d.body).flatMap nodes := by
  rw [bodyNodes_eq_flatMap, children, flatMap_finRange_get_cons fun i c =>
    (c.places.filter fun x => (item (.interrupt l d)).inBody (i :: x.1)).map (·.2)]
  -- No place below the pin counts, and every place below the body does.
  have hp : (expr d.pin).bodyNodes = [] := bodyNodes_of_isInner rfl
  have h0 (a : List Nat) : (item (.interrupt l d)).inBody (0 :: a) = (expr d.pin).inBody a := rfl
  have hs (i : Nat) (a : List Nat) : (item (.interrupt l d)).inBody ((i + 1) :: a) = true := rfl
  simp only [h0, hs, filter_true]
  change (expr d.pin).bodyNodes ++ (finRange _).flatMap (fun i => ((ofBlock d.body).get i).nodes) = _
  rw [hp, nil_append, ← flatMap_map, map_get_finRange]

lemma mem_bodyNodes_unit {p : Program} {l} {d : InterruptDecl} {s} (hi : .interrupt l d ∈ p.items)
    (hs : s ∈ d.body) (hm : m ∈ (stmt s).nodes) : m ∈ (unit p).bodyNodes := by
  rw [bodyNodes_eq (by simp)]
  refine mem_flatMap.mpr ⟨item (.interrupt l d), mem_map_of_mem hi, ?_⟩
  rw [bodyNodes_interrupt]
  exact mem_flatMap.mpr ⟨stmt s, mem_ofBlock.mpr ⟨s, hs, rfl⟩, hm⟩

end SketchCompiler.Node
