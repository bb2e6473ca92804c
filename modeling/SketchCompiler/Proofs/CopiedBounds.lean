import SketchCompiler.Proofs.ClampPlaces

namespace SketchCompiler

open Env List Node

variable {z : Binder} {r' : Reference} {v : VarDecl} {a : List Nat} {e : Expr}

namespace Node

variable {n : Node} {ks ks' : List Nat} {k : Nat}

lemma around_short (n : Node) : (∀ ks ∈ n.around, ks.length ≤ 1) ∨ ∀ ks ∈ n.around, ks = [0] ∨ ks = [0, 1] := by
  cases n with
  | unit p => simp [around]
  | item i => cases i <;> simp [around] <;> grind
  | var d => simp [around]
  | stmt s =>
    cases s with
    | forLoop l i e u b =>
      right
      simp [around]
      grind
    | _ =>
      left
      simp [around] <;> grind
  | expr e => cases e <;> simp [around]

lemma around_subset (h : ks ∈ n.around) (h' : ks' ∈ n.around) (hk : k ∈ ks) (hk' : ks'.getLast? = some k) :
    ks' ⊆ ks := by
  rcases n.around_short with hs | hs
  · have := hs ks' h'
    match ks', hk' with
    | [k'], hk' =>
      cases hk'
      simpa using hk
    | _ :: _ :: _, _ => simp at this
  · rcases hs ks h with rfl | rfl <;> rcases hs ks' h' with rfl | rfl <;> simp_all

lemma mem_header (h : z ∈ n.header k) :
    z.kind = .param ∨ ∃ p i, n = unit p ∧ k = 0 ∧ i ∈ p.items ∧ z ∈ i.binders := by
  unfold header at h
  split at h
  · obtain ⟨i, hi, hz⟩ := mem_flatMap.mp h
    exact .inr ⟨_, i, rfl, rfl, hi, hz⟩
  · obtain ⟨p, -, rfl⟩ := mem_map.mp h
    exact .inl rfl
  · obtain ⟨p, -, rfl⟩ := mem_map.mp h
    exact .inl rfl
  · obtain ⟨p, -, rfl⟩ := mem_map.mp h
    exact .inl rfl
  · cases h

lemma kind_of_binder? (h : n.binder? = some z) : z.kind = .var ∨ z.kind = .constant := by
  have hd (d : VarDecl) : d.binder.kind = .var ∨ d.binder.kind = .constant := by
    unfold VarDecl.binder
    split <;> simp
  unfold binder? at h
  split at h <;> cases h
  · exact hd _
  · exact hd _
  · exact .inr rfl

lemma field_of_var {l : Location} {d : ClassDecl} {i : Nat}
    (h : (item (.classDecl l d)).children[i]? = some (var v)) : ∃ f, d.fields[i]? = some f ∧ f.value = v := by
  obtain ⟨ks, y, hs, hy⟩ := Spot.slot_of_child (x := .node (item (.classDecl l d))) rfl h
  cases Spot.below_of_slot hs with
  | node =>
    cases hy
    exact absurd rfl (Spot.ne_var_of_slot hs v)
  | field hf =>
    cases hy
    exact ⟨_, hf, rfl⟩

lemma nodup_of_mem_around (h : ks ∈ n.around) : ks.Nodup := by
  rcases n.around_short with hs | hs
  · have := hs ks h
    match ks with
    | [] => exact nodup_nil
    | [k] => exact nodup_singleton k
    | _ :: _ :: _ => simp at this
  · rcases hs ks h with rfl | rfl <;> decide

lemma seen_subset {bs} (n : Node) : n.seen bs ⊆ bs := by
  cases n with
  | unit p => exact nil_subset bs
  | _ => exact Subset.refl bs

lemma Plain.blocksFrom {o} {bs} (hn : n.Plain) : n.blocksFrom o bs a = bs := by
  induction a generalizing n o bs with
  | nil => rfl
  | cons i a ih =>
    rw [Node.blocksFrom]
    cases hc : n.children[i]? with
    | none => rfl
    | some c =>
      obtain ⟨e, rfl⟩ := hn n mem_nodes_self
      have hm := mem_of_getElem? hc
      have hplain : c.Plain := fun m hm' => hn m (mem_nodes_iff.mpr (.inr ⟨c, hm, hm'⟩))
      simp only
      rw [ih hplain, inner]
      have : (expr e).around[i]?.getD [] = [] := by
        cases e with
        | guarded l e handler =>
          cases i with
          | zero => rfl
          | succ i =>
            obtain ⟨s, -, rfl⟩ := mem_ofBlock.mp (mem_of_getElem? hc)
            obtain ⟨e, he⟩ := hplain _ mem_nodes_self
            cases he
        | _ => simp [around]
      rw [this]
      rfl

end Node

namespace Program

variable {q : Program} {b c d : List Nat} {n m : Node} {B : Block} {j i : Nat}

lemma blocksAt_child (hn : (unit q).at? a = some n) (hm : (unit q).at? (a ++ [i]) = some m) :
    q.blocksAt (a ++ [i]) = n.inner a (q.blocksAt a) i := by
  rw [at?_concat, hn] at hm
  exact blocksFrom_concat hn (lt_of_getElem? hm)

lemma mem_blocksAt_concat (hn : (unit q).at? a = some n) (hm : (unit q).at? (a ++ [i]) = some m) :
    B ∈ q.blocksAt (a ++ [i]) ↔ (B.place = a ∧ ∃ ks, n.around[i]? = some ks ∧ B.number ∈ ks) ∨
      B ∈ n.seen (q.blocksAt a) := by
  rw [blocksAt_child hn hm, Node.inner, mem_append]
  refine or_congr ?_ Iff.rfl
  obtain ⟨o, k⟩ := B
  cases n.around[i]? with
  | none => simp
  | some ks => simp; grind

lemma place_of_mem_blocksAt (ha : (unit q).at? a = some n) (hB : B ∈ q.blocksAt a) :
    ∃ j d, a = B.place ++ j :: d := by
  induction a using reverseRecOn generalizing n with
  | nil => cases hB
  | append_singleton a i ih =>
    have ha' := ha
    rw [at?_concat] at ha'
    obtain ⟨m, hm, -⟩ := Option.bind_eq_some_iff.mp ha'
    rcases (mem_blocksAt_concat hm ha).mp hB with ⟨rfl, -⟩ | hB
    · exact ⟨i, [], rfl⟩
    · obtain ⟨j, d, rfl⟩ := ih hm (seen_subset m hB)
      exact ⟨j, d ++ [i], by simp⟩

lemma blocksAt_subset (ha : (unit q).at? a = some n) (hB : B ∈ q.blocksAt a)
    (hb : (unit q).at? (B.place ++ [j]) = some m) (hj : (q.blocksAt (B.place ++ [j])).head? = some B) :
    q.blocksAt (B.place ++ [j]) ⊆ q.blocksAt a := by
  induction a using List.reverseRecOn generalizing n with
  | nil => cases hB
  | append_singleton a i ih =>
    have ha' := ha
    rw [at?_concat] at ha'
    obtain ⟨k, hk, -⟩ := Option.bind_eq_some_iff.mp ha'
    rcases (mem_blocksAt_concat hk ha).mp hB with ⟨rfl, ks, hks, hmem⟩ | hB'
    · -- Both are right below the node that holds the block.
      rw [blocksAt_child hk hb, Node.inner] at hj ⊢
      rw [blocksAt_child hk ha, Node.inner, hks, Option.getD_some]
      refine append_subset.mpr ⟨?_, subset_append_right _ _⟩
      refine subset_append_of_subset_left _ (map_subset _ fun x hx => ?_)
      rw [mem_reverse] at hx ⊢
      cases hks' : k.around[j]? with
      | none => simp [hks'] at hx
      | some ks' =>
        rw [hks', Option.getD_some] at hj hx
        have hne : ks' ≠ [] := ne_nil_of_mem hx
        refine around_subset (mem_of_getElem? hks) (mem_of_getElem? hks') hmem ?_ hx
        rw [head?_append_of_ne_nil _ (by simpa using hne), head?_map, head?_reverse] at hj
        obtain ⟨x, hx, hxB⟩ := Option.map_eq_some_iff.mp hj
        rw [hx, ← hxB]
    · have hsub := ih hk (seen_subset k hB')
      intro C hC
      refine (mem_blocksAt_concat hk ha).mpr (.inr ?_)
      cases k with
      | unit p => cases hB'
      | _ => exact hsub hC

lemma inHandler_mono {e : List Nat} (hm : (unit q).at? (b ++ e ++ [j]) = some m) (hz : m.binder? = some z)
    (hji : j ≤ i) (h : q.InHandler b (b ++ e ++ j :: 0 :: c)) : q.InHandler b (b ++ e ++ i :: d) := by
  obtain ⟨x, l, v, handler, k, c', hx, hi, he⟩ := h
  have he : e ++ j :: 0 :: c = 0 :: (ofRange? x.range).length :: (k + 1) :: c' := by simpa using he
  refine ⟨x, l, v, handler, ?_⟩
  match e, he with
  | [], he =>
    -- Right below the declaration stands its variable.
    obtain rfl := (cons.inj he).1
    rw [append_nil, hx] at hm
    cases hm
    cases hz
  | [_], he => cases he
  | [_, _], he =>
    cases he
    obtain ⟨k', rfl⟩ := Nat.exists_eq_add_of_le' (show 1 ≤ i by omega)
    exact ⟨k', d, hx, hi, by simp⟩
  | _ :: _ :: _ :: e, he =>
    cases he
    exact ⟨k, e ++ i :: d, hx, hi, by simp⟩

lemma inForce_mono {o : List Nat} {y} (hm : (unit q).at? (o ++ [j]) = some m) (hz : m.binder? = some z)
    (hB : B ∈ q.blocksAt (o ++ [j])) (hn : ¬ q.InHandler (o ++ [j]) (o ++ j :: 0 :: c)) (hji : j ≤ i)
    (hy : q.InForce (o ++ j :: 0 :: c) B y) : q.InForce (o ++ i :: d) B y := by
  obtain ⟨j0, e, he⟩ := place_of_mem_blocksAt hm hB
  obtain ⟨n, hplace, -⟩ : ∃ n, (unit q).at? B.place = some n ∧ n.at? (j0 :: e) = some m := by
    rw [he, at?_append] at hm
    exact Option.bind_eq_some_iff.mp hm
  rcases eq_nil_or_concat e with rfl | ⟨e, j', rfl⟩
  · -- The block is held by the node right above the declaration.
    obtain ⟨rfl, hj⟩ := append_inj' he rfl
    cases hj
    rw [inForce_iff hplace] at hy ⊢
    refine hy.imp_right ?_
    rintro ⟨k, m', hm', hz', hblock, hk | ⟨rfl, hh⟩⟩
    · exact ⟨k, m', hm', hz', hblock, .inl (by omega)⟩
    · exact absurd hh hn
  · have he : o ++ [j] = (B.place ++ j0 :: e) ++ [j'] := by simpa using he
    obtain ⟨rfl, hj⟩ := append_inj' he rfl
    cases hj
    rw [append_assoc, cons_append, inForce_iff hplace] at hy ⊢
    refine hy.imp_right ?_
    rintro ⟨k, m', hm', hz', hblock, hk | ⟨rfl, hh⟩⟩
    · exact ⟨k, m', hm', hz', hblock, .inl hk⟩
    · refine ⟨k, m', hm', hz', hblock, .inr ⟨rfl, ?_⟩⟩
      have hh := inHandler_mono (i := i) (d := d) (b := B.place ++ [k]) (e := e) (c := c) (by simpa using hm) hz hji
        (by simpa using hh)
      simpa using hh

lemma nodup_blocksAt (ha : (unit q).at? a = some n) : (q.blocksAt a).Nodup := by
  induction a using List.reverseRecOn generalizing n with
  | nil => exact nodup_nil
  | append_singleton a i ih =>
    have ha' := ha
    rw [at?_concat] at ha'
    obtain ⟨k, hk, -⟩ := Option.bind_eq_some_iff.mp ha'
    have hks : (k.around[i]?.getD []).Nodup := by
      cases hks : k.around[i]? with
      | none => exact nodup_nil
      | some ks => exact nodup_of_mem_around (mem_of_getElem? hks)
    rw [blocksAt_child hk ha, Node.inner]
    refine nodup_append.mpr ⟨(nodup_reverse.mpr hks).map fun x y hxy => (Block.mk.inj hxy).2, ?_, ?_⟩
    · cases k with
      | unit p => exact nodup_nil
      | _ => exact ih hk
    · intro B hB C hC hBC
      obtain ⟨x, -, rfl⟩ := mem_map.mp hB
      subst hBC
      obtain ⟨j, d, hd⟩ := place_of_mem_blocksAt hk (seen_subset k hC)
      simpa using congrArg List.length hd

/-- The blocks around the place that are nearer than the one that declares the symbol. -/
def nearer (q : Program) (t : SymbolTable) (blockOf : ScopeId → Block) (a : List Nat) (id : SymbolId) : List Block :=
  if t.kind id = .builtin then q.blocksAt a else (q.blocksAt a).takeWhile (· ≠ blockOf (t.get id).scope)

/-- The symbol is one that every program knows, or its declaration is in force at the place. -/
def InSight (q : Program) (t : SymbolTable) (blockOf : ScopeId → Block) (a : List Nat) (name : String)
    (id : SymbolId) : Prop :=
  ∃ ss, q.ScopesAt t blockOf a ss ∧ ((t.get id).scope = SymbolTable.root ∧ t.kind id = .builtin ∨
    (t.get id).scope ∈ ss ∧ ∃ x, q.InForce a (blockOf (t.get id).scope) x ∧ x.name.text = name ∧ x.Stands t id)

/-- A nearer declaration of the name is in force at the place. -/
def Hidden (q : Program) (t : SymbolTable) (blockOf : ScopeId → Block) (a : List Nat) (name : String)
    (id : SymbolId) : Prop :=
  ∃ block ∈ q.nearer t blockOf a id, ∃ x, q.InForce a block x ∧ x.name.text = name

section

variable {t : SymbolTable} {blockOf : ScopeId → Block} {name : String} {id : SymbolId} {inner outer : List ScopeId}

lemma Declares.kind_ne_builtin {since} (h : q.Declares B since z) : z.kind ≠ .builtin := by
  cases h with
  | header _ hz =>
    rcases mem_header hz with hk | ⟨p, i, -, -, -, hz⟩
    · simp [hk]
    · cases i <;> simp only [Item.binders, mem_cons, mem_map, not_mem_nil, or_false] at hz <;> grind
  | behind _ hz => rcases kind_of_binder? hz with hk | hk <;> simp [hk]

lemma nearer_eq (ha : (unit q).at? a = some n) (hk : t.kind id ≠ .builtin)
    (hs : q.ScopesAt t blockOf a (inner ++ (t.get id).scope :: outer)) :
    q.nearer t blockOf a id = inner.map blockOf := by
  have hb := hs.1
  have hd := nodup_blocksAt ha
  rw [map_append, map_cons] at hb
  rw [← hb] at hd
  rw [nearer, if_neg hk, ← hb, takeWhile_append_of_pos, takeWhile_cons_of_neg (by simp), append_nil]
  intro B hB
  rw [decide_eq_true_eq]
  exact (nodup_append.mp hd).2.2 B hB _ mem_cons_self

lemma nearer_subset : q.nearer t blockOf a id ⊆ q.blocksAt a := by
  unfold nearer
  split
  · exact Subset.refl _
  · exact IsPrefix.subset <| takeWhile_prefix _

lemma denotes_iff (ha : (unit q).at? a = some n) :
    q.Denotes t blockOf a name id ↔ q.InSight t blockOf a name id ∧ ¬ q.Hidden t blockOf a name id := by
  have hkind {B : Block} {x : Binder} (hx : q.InForce a B x) (hst : x.Stands t id) : t.kind id ≠ .builtin := by
    obtain ⟨since, hx, -⟩ := hx
    rw [hst.1]
    exact hx.kind_ne_builtin
  constructor
  · rintro (⟨hs, hfree, hx, hname, hst⟩ | ⟨hs, hfree, hscope, hkind⟩)
    · refine ⟨⟨_, hs, .inr ⟨by simp, _, hx, hname, hst⟩⟩, ?_⟩
      rintro ⟨B, hB, y, hy, hyn⟩
      rw [nearer_eq ha (hkind hx hst) hs] at hB
      obtain ⟨s, hs, rfl⟩ := mem_map.mp hB
      exact hfree s hs y hy hyn
    · refine ⟨⟨_, hs, .inl ⟨hscope, hkind⟩⟩, ?_⟩
      rintro ⟨B, hB, y, hy, hyn⟩
      rw [nearer, if_pos hkind, ← hs.1] at hB
      obtain ⟨s, hs, rfl⟩ := mem_map.mp hB
      exact hfree s hs y hy hyn
  · rintro ⟨⟨ss, hs, ⟨hscope, hkind⟩ | ⟨hmem, x, hx, hname, hst⟩⟩, hh⟩
    · refine .builtin hs (fun s hm y hy hyn => hh ⟨_, ?_, y, hy, hyn⟩) hscope hkind
      rw [nearer, if_pos hkind, ← hs.1]
      exact mem_map_of_mem hm
    · obtain ⟨inner, outer, rfl⟩ := append_of_mem hmem
      refine .declared hs (fun s hm y hy hyn => hh ⟨_, ?_, y, hy, hyn⟩) hx hname hst
      rw [nearer_eq ha (hkind hx hst) hs]
      exact mem_map_of_mem hm

end

end Program

section

variable {q : Program} {F : List (ScopeId × Block)} {t u : SymbolTable} {blockOf : ScopeId → Block} {s : Nat}
  {ss : List ScopeId} {env : Env}

lemma Matches.scope_eq (h : Matches F u s env) (hu : u.Sound) (ht : u.Later t)
    (he : ∀ e ∈ env, ∀ x, x ∈ e.2 ↔ q.InForce a e.1 x) (hss : ss.map blockOf = blocks env)
    (hhead : (ss ++ [SymbolTable.root]).head? = some s)
    (hchain : (ss ++ [SymbolTable.root]).IsChain fun s s' => (t.scope s).parent = some s') :
    ∀ s ∈ ss, ∀ x id, q.InForce a (blockOf s) x → x.symbol = some id → (t.get id).scope = s := by
  induction h generalizing ss with
  | outermost =>
    obtain rfl := map_eq_nil_iff.mp hss
    nofun
  | @block s p b xs env _ hs hp hn _ ih =>
    obtain ⟨s', ss, rfl, hb, hblocks⟩ := map_eq_cons_iff.mp hss
    cases hhead
    obtain ⟨hpar, hchain⟩ := isChain_cons.mp hchain
    refine forall_mem_cons.mpr ⟨?_, ih (fun e h => he e (mem_cons_of_mem _ h)) hblocks ?_ hchain⟩
    · intro x id hx hid
      rw [hb] at hx
      obtain ⟨id', hm, -, hs' | ⟨-, hs'⟩⟩ := hn.added ((he _ mem_cons_self x).mpr hx)
      · cases hid.symm.trans hs'
        rw [ht.get_eq (hu.named_lt hm)]
        exact (hu.get_named hm).2
      · cases hid.symm.trans hs'
    · cases hh : (ss ++ [SymbolTable.root]).head? with
      | none => simp at hh
      | some s' => rw [← hpar s' hh, ht.parent_eq hs, hp]

end

namespace Program

variable {q : Program} {F : List (ScopeId × Block)} {t : SymbolTable} {blockOf : ScopeId → Block} {c d : List Nat}
  {i j : Nat} {x : Spot} {env : Env} {m : Node} {B : Block} {y : Binder} {name : String} {id : SymbolId}
  {l : Location} {range : Range}

lemma Meets.exists_scopes (h : q.Meets a x env) (hq : (Node.unit q).UnitsResolved F t [])
    (hF : ∀ f ∈ F, blockOf f.1 = f.2) (hx : x.isRead) (hu : ∀ u, x.toNode ≠ .unit u) : ∃ ss, q.ScopesAt t blockOf a ss ∧
      (∀ s ∈ ss, ∀ x id, q.InForce a (blockOf s) x → x.symbol = some id → (t.get id).scope = s) ∧
      ∀ r, x.reference? = some r → ∃ id, r.symbol = some id ∧ q.LooksUp t blockOf a ss r.name.text id := by
  obtain ⟨s, v, hv, hl, hm, hreads⟩ := (h.resolvedHere hq).reads
  have he : ∀ e ∈ env, ∀ x, x ∈ e.2 ↔ q.InForce a e.1 x := fun e he z => h.mem_iff he
  obtain ⟨ss, hblocks, hhead, hchain, hss⟩ := hm.looksUp hv hl hF he
  refine ⟨ss, ⟨hblocks.trans (h.blocks_of_ne_unit hx hu), hchain⟩, hm.scope_eq hv hl he hblocks hhead hchain, ?_⟩
  intro r hr
  obtain ⟨id, hid, hlookup⟩ := hreads r hr
  exact ⟨id, hid, (hss _ _ hlookup).2⟩

lemma exists_numbered (hq : (unit q).UnitsResolved F t []) (hy : q.InForce a B y) (hs : y.Stands t id) :
    ∃ z k, q.InForce a B z ∧ z.symbol = some k := by
  rcases hs.2 with hid | ⟨hv, -⟩
  · exact ⟨y, id, hy, hid⟩
  · obtain ⟨since, hd, -⟩ := hy
    cases hd with
    | header hn hm =>
      rcases mem_header hm with hk | ⟨p, i, rfl, hB, hi, hm⟩
      · cases hk.symm.trans hv
      · cases i with
        | enumDecl l e =>
          have hz : (⟨e.name, .enumType, e.symbol⟩ : Binder) ∈ (unit p).header B.number := by
            rw [hB]
            exact mem_flatMap.mpr ⟨_, hi, mem_cons_self⟩
          obtain ⟨k, hk⟩ := Option.ne_none_iff_exists'.mp ((Meets.unit hn).header_numbered hq rfl hz nofun)
          exact ⟨_, k, ⟨none, .header hn hz, nofun⟩, hk⟩
        | _ =>
          simp only [Item.binders, mem_cons, not_mem_nil, or_false] at hm <;>
          grind
    | behind hn hz => rcases kind_of_binder? hz with hk | hk <;> cases hk.symm.trans hv

lemma Meets.value {b : List Nat} {n : Node} {symbol} (h : q.Meets b x env)
    (hx : x.isRead) (hn : x.toNode = n) (hs : n.store? = some (symbol, e)) (hi : i + 1 = n.children.length) :
    ∃ y env', q.Meets (b ++ [i]) y env' ∧ y.isRead ∧ y.toNode = .expr e := by
  subst hn
  obtain ⟨cs, hcs, -⟩ := children_store {} hs
  have hc : x.toNode.children[i]? = some (.expr e) := by
    have : i = cs.length := by simpa [hcs] using hi
    rw [hcs, this, getElem?_concat_length]
  obtain ⟨ks, y, hy, hye⟩ := Spot.slot_of_child hx hc
  obtain ⟨env', hm⟩ := Spot.met_of_slot b env hy
  refine ⟨y, env', h.step hm, ?_, hye⟩
  cases Spot.below_of_slot hy with
  | @bound d n _ hn =>
    -- The value stands behind the range.
    obtain ⟨e', he', -⟩ := Option.map_eq_some_iff.mp (show d.initializer.map (d.symbol, ·) = some (symbol, e) from hs)
    have hlt := lt_of_getElem? hn
    have hlen : i + 1 = (Node.ofRange? d.range).length + 1 := by simpa [Node.children, Node.ofExpr?, he'] using hi
    omega
  | entry => cases hs
  | module => cases hs
  | _ => rfl

variable {p : Program} {b : List Nat} {n : Node} {r : Reference} {o : Except (List (Located NameError)) SymbolTable}

lemma meets_of_numbered (hp : p.Unnumbered) (h : p.resolveNames = (q, o)) (hb : (unit q).at? b = some n)
    (hu : q.UsesAt (b ++ c) r) (hr : r.symbol ≠ none) : ∃ x env, q.Meets b x env ∧ x.isRead ∧ x.toNode = n := by
  refine (meets_or_unread hb).resolve_right fun hun => ?_
  obtain ⟨m, hm, hmr⟩ := hu
  have hun : q.InConfig (b ++ c) ∨ q.InFieldRange (b ++ c) := hun.imp (·.append c) (·.append c)
  exact hr ((unnumbered_of_unread hp h hun hm).2 m mem_nodes_self _ (symbol_mem_numbers hmr))

lemma meets_use (hp : p.Unnumbered) (h : p.resolveNames = (q, o)) (hu : q.UsesAt a r) (hr : r.symbol ≠ none) :
    ∃ x env, q.Meets a x env ∧ x.isRead ∧ x.reference? = some r ∧ ∀ u, x.toNode ≠ .unit u := by
  obtain ⟨n, hn, hnr⟩ := id hu
  obtain ⟨x, env, hx, hread, rfl⟩ := meets_of_numbered (c := []) hp h hn (by rwa [append_nil]) hr
  refine ⟨x, env, hx, hread, ?_, ?_⟩
  · cases x with
    | node n => exact hnr
    | unread n => cases hread
    | _ => cases hnr
  · intro u hxu
    rw [hxu] at hnr
    cases hnr

/-- The name is used in the bounds of a variable that the block declares: the declaration is child `j` of the node that
holds the block, and the use stands at `c` below its variable. -/
structure UsedInBounds (q : Program) (B : Block) (j : Nat) (v : VarDecl) (c : List Nat) (r : Reference) : Prop where
  declared : ∃ n l, (unit q).at? (B.place ++ [j]) = some n ∧ (n = .item (.var l v) ∨ n = .stmt (.var l v))
  head : (q.blocksAt (B.place ++ [j])).head? = some B
  use : q.UsesAt (B.place ++ j :: 0 :: c) r
  blocks : q.blocksAt (B.place ++ j :: 0 :: c) = q.blocksAt (B.place ++ [j])
  outside : ¬ q.InHandler (B.place ++ [j]) (B.place ++ j :: 0 :: c)

lemma UsedInBounds.binder (hb : q.UsedInBounds B j v c r) :
    ∃ n, (unit q).at? (B.place ++ [j]) = some n ∧ n.binder? = some v.binder := by
  obtain ⟨n, l, hn, hv⟩ := hb.declared
  exact ⟨n, hn, by rcases hv with rfl | rfl <;> rfl⟩

lemma blocksAt_var (hn : (unit q).at? b = some n) (hv : n = .item (.var l v) ∨ n = .stmt (.var l v)) :
    q.blocksAt (b ++ [0]) = q.blocksAt b := by
  rcases hv with rfl | rfl <;> exact (blocksFrom_concat hn Nat.zero_lt_one).trans rfl

lemma UsedInBounds.blocksAt_child (hb : q.UsedInBounds B j v c r)
    (hm : (unit q).at? (B.place ++ [j, 0, i]) = some m) :
    q.blocksAt (B.place ++ [j, 0, i]) = q.blocksAt (B.place ++ [j]) := by
  obtain ⟨n, l, hn, hv⟩ := hb.declared
  have hvar : (unit q).at? (B.place ++ [j] ++ [0]) = some (.var v) := by
    rw [at?_concat, hn]
    rcases hv with rfl | rfl <;> rfl
  have hplace : B.place ++ [j, 0, i] = B.place ++ [j] ++ [0] ++ [i] := by simp
  rw [hplace] at hm ⊢
  rw [← blocksAt_var hn hv, Program.blocksAt_child hvar hm]
  simp [Node.inner, Node.around, Node.seen]

section

variable (hp : p.Unnumbered) (h : p.resolveNames = (q, .ok t)) (hq : (unit q).UnitsResolved F t [])
  (hF : ∀ f ∈ F, blockOf f.1 = f.2)

include hp h hq hF

lemma UsedInBounds.inSight (hb : q.UsedInBounds B j v c r) (hid : r.symbol = some id)
    (ha : q.Meets (B.place ++ i :: d) x env) (hx : x.isRead) (hu : ∀ u, x.toNode ≠ .unit u)
    (hB : B ∈ q.blocksAt (B.place ++ i :: d)) (hji : j ≤ i) :
    q.InSight t blockOf (B.place ++ i :: d) r.name.text id := by
  obtain ⟨n, hn, hz⟩ := hb.binder
  obtain ⟨y, env', hc, hy, hyr, hyu⟩ := meets_use hp h hb.use (by simp [hid])
  obtain ⟨ss, hss, hscope, hlook⟩ := hc.exists_scopes hq hF hy hyu
  obtain ⟨ss', hss', hscope', -⟩ := ha.exists_scopes hq hF hx hu
  obtain ⟨id', hid', hlook⟩ := hlook r hyr
  cases hid.symm.trans hid'
  rcases hlook with ⟨inner, outer, w, rfl, -, hw, hname, hst⟩ | ⟨-, hroot⟩
  · have hmem : blockOf (t.get id).scope ∈ q.blocksAt (B.place ++ [j]) := by
      rw [← hb.blocks, ← hss.1]
      exact mem_map_of_mem (by simp)
    have hforce {z : Binder} (hz' : q.InForce (B.place ++ j :: 0 :: c) (blockOf (t.get id).scope) z) :
        q.InForce (B.place ++ i :: d) (blockOf (t.get id).scope) z :=
      inForce_mono hn hz hmem hb.outside hji hz'
    have hmem' := blocksAt_subset ha.at?_eq hB hn hb.head hmem
    rw [← hss'.1] at hmem'
    obtain ⟨s, hs, hblock⟩ := mem_map.mp hmem'
    -- The scope is the same, as it is the one of a symbol that is in force at both places.
    obtain ⟨z, k, hz', hk⟩ := exists_numbered hq hw hst
    have hsame : (t.get id).scope = s := by
      rw [← hscope _ (by simp) z k hz' hk]
      exact hscope' s hs z k (hblock ▸ hforce hz') hk
    exact ⟨ss', hss', .inr ⟨hsame ▸ hs, w, hforce hw, hname, hst⟩⟩
  · exact ⟨ss', hss', .inl hroot⟩

end

lemma name_mem_of_commonUnits (h : expr (.name l r) ∈ (expr (e.transform commonUnits)).nodes) :
    expr (.name l r) ∈ (expr e).nodes := by
  obtain ⟨a, ha⟩ := mem_nodes.mp h
  have hkeep := at?_keep (f := commonUnits) (fun _ _ => rfl) (.expr e) a
  obtain ⟨n, hn, he⟩ := Option.map_eq_some_iff.mp (hkeep.symm.trans ha)
  refine mem_nodes.mpr ⟨a, hn.trans (congrArg some ?_)⟩
  cases n with
  | expr e => cases e <;> cases he; rfl
  | _ => cases he

lemma usesAt_bound (hp : p.Read) (h : p.resolveNames = (q, o)) (hv : (unit q).at? b = some (.var v))
    (hr : v.range = some range)
    (hm : expr (.name l r) ∈ (expr range.min).nodes ∨ expr (.name l r) ∈ (expr range.max).nodes) :
    ∃ k c, k < (Node.ofRange? v.range).length ∧ q.UsesAt (b ++ k :: c) r ∧ q.blocksAt (b ++ k :: c) = q.blocksAt b := by
  obtain ⟨k, e, hk, he⟩ : ∃ (k : Nat) (e : Expr), (Node.ofRange? v.range)[k]? = some (.expr e) ∧
      expr (.name l r) ∈ (expr e).nodes := by
    rcases hm with hm | hm
    · exact ⟨0, range.min, by rw [hr]; rfl, hm⟩
    · exact ⟨1, range.max, by rw [hr]; rfl, hm⟩
  obtain ⟨c, hc⟩ := mem_nodes.mp he
  have hlt := lt_of_getElem? hk
  have hchild : (var v).children[k]? = some (.expr e) := by rw [Node.children, getElem?_append_left hlt, hk]
  have hat : (unit q).at? (b ++ [k]) = some (.expr e) := by rw [at?_concat, hv, Option.bind_some, hchild]
  have hplain := hp.plain_settings h (mem_nodes.mpr ⟨b, hv⟩) (mem_of_getElem? hk)
  refine ⟨k, c, hlt, ⟨.expr (.name l r), ?_, rfl⟩, ?_⟩
  · rw [append_cons, at?_append, hat]
    exact hc
  · rw [append_cons, blocksAt, blocksFrom_append hat, hplain.blocksFrom]
    refine (blocksAt_child hv hat).trans ?_
    simp [Node.inner, Node.around, Node.seen]

lemma exists_usedInBounds (hp : p.Read) (h : p.resolveNames = (q, .ok t)) (hv : (unit q).at? b = some (.var v))
    (hr : v.range = some range)
    (hm : expr (.name l r) ∈ (expr range.min).nodes ∨ expr (.name l r) ∈ (expr range.max).nodes)
    (hs : r.symbol ≠ none) : ∃ B j c, b = B.place ++ [j, 0] ∧ q.UsedInBounds B j v c r := by
  have hu := hp.unnumbered
  obtain ⟨F, -, -, hq⟩ := unitsResolved h
  obtain ⟨k, c, hk, huse, hblocks⟩ := usesAt_bound hp h hv hr hm
  rcases eq_nil_or_concat b with rfl | ⟨b, i, rfl⟩
  · cases hv
  · rw [concat_eq_append] at *
    have hv' := hv
    rw [at?_concat] at hv'
    obtain ⟨n, hn, hi⟩ := Option.bind_eq_some_iff.mp hv'
    have hvar : i = 0 ∧ ∃ l, n = .item (.var l v) ∨ n = .stmt (.var l v) := by
      rcases parent_of_var (mem_of_getElem? hi) with ⟨l, rfl⟩ | ⟨l, rfl⟩ | ⟨l, d, rfl⟩
      · exact ⟨by simpa [Node.children] using lt_of_getElem? hi, l, .inl rfl⟩
      · exact ⟨by simpa [Node.children] using lt_of_getElem? hi, l, .inr rfl⟩
      · -- The bounds of fields have no numbers.
        obtain ⟨f, hf, rfl⟩ := field_of_var hi
        obtain ⟨m, hm, hmr⟩ := huse
        have hun := unnumbered_of_unread hu h (.inr ⟨b, l, d, i, f, k, c, hn, hf, hk, by simp⟩) hm
        exact absurd (hun.2 m mem_nodes_self _ (symbol_mem_numbers hmr)) hs
    obtain ⟨rfl, l, hvar⟩ := hvar
    have hz : n.binder? = some v.binder := by rcases hvar with rfl | rfl <;> rfl
    obtain ⟨x, env, hx, hread, rfl⟩ := meets_of_numbered (c := 0 :: k :: c) hu h hn (by simpa using huse) hs
    have hown : v.binder ∈ x.own := by
      cases x with
      | node n => exact Option.mem_toList.mpr hz
      | unread n => cases hread
      | _ => rcases hvar with hvar | hvar <;> cases hvar
    obtain ⟨B, hB⟩ : ∃ B, (q.blocksAt b).head? = some B := by
      obtain ⟨e, he, -⟩ := (hx.resolvedHere hq).own (ne_nil_of_mem hown)
      rw [← hx.blocks_of_ne_unit hread (by rcases hvar with hvar | hvar <;> simp [hvar])]
      exact ⟨e.1, by rw [Env.blocks, head?_map, he]; rfl⟩
    obtain ⟨j, rfl⟩ := place_of_declared hn hz hB
    refine ⟨B, j, k :: c, by simp, ⟨_, l, hn, hvar⟩, hB, by simpa using huse, ?_, ?_⟩
    · rw [blocksAt_var hn hvar] at hblocks
      simpa using hblocks
    · rintro ⟨d, l, e, handler, i, c', hd, hi, hc'⟩
      cases hv.symm.trans hd
      have hc' : k :: c = (Node.ofRange? v.range).length :: (i + 1) :: c' := by simpa using hc'
      have := (List.cons.inj hc').1
      omega

section

variable (hp : p.Unnumbered) (h : p.resolveNames = (q, .ok t)) (ht : t.Sound)
  (hq : (unit q).UnitsResolved F t []) (hF : ∀ f ∈ F, blockOf f.1 = f.2)

include hp h hq hF

include ht in
lemma UsedInBounds.store {l l'}
    (hb : q.UsedInBounds B j v c r) (hs : (unit q).at? b = some (.stmt (.assign l (.name l' r') e)))
    (hid : r'.symbol = some id) (hv : v.symbol = some id) :
    B ∈ q.blocksAt b ∧ ∃ i d, b = B.place ++ i :: d ∧ j ≤ i := by
  obtain ⟨n, hn, hz⟩ := hb.binder
  have hdecl : q.Declares B (some (B.place ++ [j])) v.binder := .behind hn hz hb.head
  obtain ⟨xs, hxs, hd⟩ := declared_of_declares hp h hq hdecl (by simp [VarDecl.binder, hv])
  obtain ⟨hname, hkind, hblock⟩ := hd.symbol_eq ht hF hxs hv
  have huse : q.UsesAt (b ++ [0]) r' := ⟨.expr (.name l' r'), by rw [at?_concat, hs]; rfl, rfl⟩
  obtain ⟨x, env, hx, -, hxr, -⟩ := meets_use hp h huse (by simp [hid])
  obtain ⟨id', hid', hname', hden⟩ := hx.denotes hq hF hxr
  cases hid.symm.trans hid'
  have hblocks : q.blocksAt (b ++ [0]) = q.blocksAt b := (blocksFrom_concat hs (by simp [children])).trans rfl
  have hk := kind_of_binder? hz
  rw [← hkind] at hk
  cases hden with
  | @declared _ _ y hss _ hy hyn hst =>
    rw [hblock] at hy
    obtain ⟨since, hy, hlt⟩ := hy
    have hyid : y.symbol = some id := by
      refine hst.2.resolve_right fun hv => ?_
      rw [← hst.1] at hv
      rcases hk with hk | hk <;> cases hk.symm.trans hv.1
    obtain ⟨rfl, -⟩ := declares_unique hp h hq hy hdecl (by simp [hyid]) (by simp [VarDecl.binder, hv])
      (hyn.trans (hname'.symm.trans hname))
    have hB : B ∈ q.blocksAt b := by
      rw [← hblocks, ← hss.1, ← hblock]
      exact mem_map_of_mem (by simp)
    obtain ⟨i, d, rfl⟩ := place_of_mem_blocksAt hs hB
    refine ⟨hB, i, d, rfl, ?_⟩
    have hlt := (hlt _ rfl).1
    rw [append_assoc, append_lt_append_iff, cons_append, cons_lt_cons_iff] at hlt
    omega
  | builtin _ _ _ hbuiltin => rcases hk with hk | hk <;> cases hk.symm.trans hbuiltin

lemma UsedInBounds.denotes_initializer (hb : q.UsedInBounds B j v c r) (hid : r.symbol = some id)
    (ha : q.Meets (B.place ++ [j, 0, i]) x env) (hx : x.isRead) (hu : ∀ u, x.toNode ≠ .unit u) :
    q.Denotes t blockOf (B.place ++ [j, 0, i]) r.name.text id := by
  obtain ⟨n, hn, hz⟩ := hb.binder
  have hblocks := hb.blocksAt_child ha.at?_eq
  have hB : B ∈ q.blocksAt (B.place ++ [j, 0, i]) := hblocks ▸ mem_of_head? hb.head
  refine (denotes_iff ha.at?_eq).mpr ⟨hb.inSight hp h hq hF hid ha hx hu hB le_rfl, ?_⟩
  obtain ⟨y, env', hy, -, hyr, -⟩ := meets_use hp h hb.use (by simp [hid])
  obtain ⟨id', hid', -, hden⟩ := hy.denotes hq hF hyr
  cases hid.symm.trans hid'
  -- What is in force at the initializer is in force at the bounds, where the name is not hidden.
  rintro ⟨C, hC, z, hz', hname⟩
  refine ((denotes_iff hy.at?_eq).mp hden).2 ⟨C, ?_, z, ?_, hname⟩
  · rwa [nearer, hb.blocks, ← hblocks]
  · have hC' : C ∈ q.blocksAt (B.place ++ [j]) := hblocks ▸ nearer_subset hC
    refine inForce_mono (c := [i]) hn hz hC' ?_ le_rfl hz'
    rintro ⟨_, _, _, _, _, _, -, -, he⟩
    simp at he

end

/-- The name in copied bounds that stands for the symbol, at the place of a store. -/
structure CopiedName (q : Program) (t : SymbolTable) (blockOf : ScopeId → Block) (a : List Nat) (name : String)
    (id : SymbolId) : Prop where
  denotes_iff : q.Denotes t blockOf a name id ↔ q.InSight t blockOf a name id ∧ ¬ q.Hidden t blockOf a name id
  initializer {b : List Nat} {v : VarDecl} : a = b ++ [2] → (unit q).at? b = some (.var v) →
    q.Denotes t blockOf a name id
  byName {b : List Nat} {l l' : Location} {r : Reference} {e : Expr} : a = b ++ [1] →
    (unit q).at? b = some (.stmt (.assign l (.name l' r) e)) → q.InSight t blockOf a name id

section

variable (hp : p.Read) (h : p.resolveNames = (q, .ok t)) (ht : t.Sound) (hq : (unit q).UnitsResolved F t [])
  (hF : ∀ f ∈ F, blockOf f.1 = f.2) {l : Location} {range : Range}
  (hm : expr (.name l r) ∈ (expr range.min).nodes ∨ expr (.name l r) ∈ (expr range.max).nodes)
  (hid : r.symbol = some id)

include hp h hq hF hm hid

lemma denotes_at_initializer (hv : (unit q).at? b = some (.var v)) (hr : v.range = some range)
    (ha : (unit q).at? (b ++ [2]) = some n) : q.Denotes t blockOf (b ++ [2]) r.name.text id := by
  have hu := hp.unnumbered
  obtain ⟨B, j, c, rfl, hb⟩ := exists_usedInBounds hp h hv hr hm (by simp [hid])
  obtain ⟨x, env, hx, hread, hxv⟩ := meets_of_numbered (c := c) hu h hv (by simpa using hb.use) (by simp [hid])
  obtain ⟨qualifier, type, name, _ | e, _, symbol⟩ := v
  · cases hr
    rw [at?_concat, hv] at ha
    cases ha
  · cases hr
    obtain ⟨y, env', hy, hyr, hye⟩ := hx.value (i := 2) hread hxv rfl rfl
    have := hb.denotes_initializer hu h hq hF hid (i := 2) (by simpa using hy) hyr (by simp [hye])
    simpa using this

include ht in
lemma inSight_at_store {l1 l2} {k}
    (hs : (unit q).at? b = some (.stmt (.assign l1 (.name l2 r') e))) (hv : v ∈ q.vars) (hr : v.range = some range)
    (hk : r'.symbol = some k) (hvk : v.symbol = some k) : q.InSight t blockOf (b ++ [1]) r.name.text id := by
  have hu := hp.unnumbered
  obtain ⟨b', hv⟩ := mem_vars_iff.mp hv
  obtain ⟨B, j, c, -, hb⟩ := exists_usedInBounds hp h hv hr hm (by simp [hid])
  have huse : q.UsesAt (b ++ [0]) r' := ⟨.expr (.name l2 r'), by rw [at?_concat, hs]; rfl, rfl⟩
  obtain ⟨x, env, hx, hread, hxs⟩ := meets_of_numbered hu h hs huse (by simp [hk])
  obtain ⟨y, env', hy, hyr, hye⟩ := hx.value (i := 1) hread hxs rfl rfl
  have hblocks : q.blocksAt (b ++ [1]) = q.blocksAt b := (blocksFrom_concat hs (by simp [children])).trans rfl
  obtain ⟨hB, i, d, rfl, hji⟩ := hb.store hu h ht hq hF hs hk hvk
  rw [← hblocks] at hB
  rw [append_assoc, cons_append] at hB hy ⊢
  exact hb.inSight hu h hq hF hid hy hyr (by simp [hye]) hB hji

end

lemma Ranged.of_initializer (hg : q.Ranged (b ++ [2]) range) (hv : (unit q).at? b = some (.var v)) :
    v.range = some range := by
  generalize ha : b ++ [2] = a at hg
  cases hg with
  | initializer hv' hr =>
    obtain ⟨rfl, -⟩ := append_inj' ha rfl
    cases hv.symm.trans hv'
    exact hr
  | assigned => cases (append_inj' ha rfl).2

lemma Ranged.of_assigned {target : Expr} (hg : q.Ranged (b ++ [1]) range)
    (hs : (unit q).at? b = some (.stmt (.assign l target e))) :
    ∃ v k, v ∈ q.vars ∧ target.symbol? = some k ∧ v.symbol = some k ∧ v.range = some range := by
  generalize ha : b ++ [1] = a at hg
  cases hg with
  | initializer => cases (append_inj' ha rfl).2
  | assigned hs' hk hv hvk hr =>
    obtain ⟨rfl, -⟩ := append_inj' ha rfl
    cases hs.symm.trans hs'
    exact ⟨_, _, hv, hk, hvk, hr⟩

lemma exists_ranged {q'} {ranges} {l'} {min max} (hp : p.Read)
    (h : p.resolveNames = (q, .ok t)) (hr : q.clampRanges = (q', .ok ranges))
    (hc : (unit q').within? a = some (.expr (.clamp l e min max)))
    (hm : expr (.name l' r) ∈ (expr min).nodes ++ (expr max).nodes) :
    ∃ n range, (unit q).at? a = some n ∧ q.Ranged a range ∧
      (expr (.name l' r) ∈ (expr range.min).nodes ∨ expr (.name l' r) ∈ (expr range.max).nodes) := by
  obtain ⟨range, hg⟩ := (clamped_clampRanges hp h hr hc).mp rfl
  obtain ⟨-, -, rfl, rfl⟩ := bounds_clampRanges hp h hr hc hg
  have hin := map_inside_clampRanges hp h hr a
  rw [hc, Option.map_some] at hin
  obtain ⟨n, hn, -⟩ := Option.map_eq_some_iff.mp hin.symm
  exact ⟨n, range, hn, hg, (mem_append.mp hm).imp name_mem_of_commonUnits name_mem_of_commonUnits⟩

/-- A name in bounds that are copied to a store still denotes its symbol just if the declaration is in sight and no
nearer one hides it; at an initializer this is so, and at a store by name the declaration is in sight. -/
theorem copied_bounds_denote {q' : Program} {ranges : RangeTable} (hp : p.Read) (h : p.resolveNames = (q, .ok t))
    (hr : q.clampRanges = (q', .ok ranges)) : ∃ blockOf : ScopeId → Block,
      (∀ block since x id, q.Declares block since x → x.symbol = some id → blockOf (t.get id).scope = block) ∧
      ∀ a l e min max l' r id, (Node.unit q').within? a = some (.expr (.clamp l e min max)) →
        Node.expr (.name l' r) ∈ (Node.expr min).nodes ++ (Node.expr max).nodes → r.symbol = some id →
          q.CopiedName t blockOf a r.name.text id := by
  have hu := hp.unnumbered
  obtain ⟨F, ht, hsorted, hq⟩ := unitsResolved h
  obtain ⟨blockOf, hF⟩ := exists_blockOf hsorted
  refine ⟨blockOf, ?_, ?_⟩
  · intro block since x id hx hid
    obtain ⟨xs, hxs, hd⟩ := declared_of_declares hu h hq hx (by simp [hid])
    exact (hd.symbol_eq ht hF hxs hid).2.2
  · intro a l e min max l' r id hc hm hid
    obtain ⟨n, range, hn, hg, hm⟩ := exists_ranged hp h hr hc hm
    refine ⟨denotes_iff hn, ?_, ?_⟩
    · rintro b v rfl hv
      exact denotes_at_initializer hp h hq hF hm hid hv (hg.of_initializer hv) hn
    · rintro b l l' r' e rfl hs
      obtain ⟨v, k, hv, hk, hvk, hrange⟩ := hg.of_assigned hs
      exact inSight_at_store hp h ht hq hF hm hid hs hv hrange hk hvk

end Program

namespace Sample

def hidingText : String := "mut int limit = 10
mut int v in 0...limit = 5
fn f(int limit) { v = 50 }"

def upperName? : Node → Option Reference
  | .expr (.clamp _ _ _ (.name _ r)) => some r
  | _ => none

def assignedName? : Node → Option Reference
  | .stmt (.assign _ (.name _ r) _) => some r
  | _ => none

def isVar : Node → Bool
  | .var _ => true
  | _ => false

lemma exists_upperName {q} {name} {symbol}
    (h : (((Node.unit q).within? a).bind upperName?).map (fun r => (r.name.text, r.symbol)) = some (name, symbol)) :
    ∃ l e min l' r, (Node.unit q).within? a = some (.expr (.clamp l e min (.name l' r))) ∧ r.name.text = name ∧
      r.symbol = symbol := by
  obtain ⟨r, hr, hx⟩ := Option.map_eq_some_iff.mp h
  obtain ⟨n, hn, hnr⟩ := Option.bind_eq_some_iff.mp hr
  unfold upperName? at hnr
  split at hnr
  · cases hnr
    exact ⟨_, _, _, _, _, hn, congrArg Prod.fst hx, congrArg Prod.snd hx⟩
  · cases hnr

lemma exists_assignedName {q} (h : (((Node.unit q).at? a).bind assignedName?).isSome) :
    ∃ l l' r e, (Node.unit q).at? a = some (.stmt (.assign l (.name l' r) e)) := by
  obtain ⟨r, hr⟩ := Option.isSome_iff_exists.mp h
  obtain ⟨n, hn, hnr⟩ := Option.bind_eq_some_iff.mp hr
  unfold assignedName? at hnr
  split at hnr
  · exact ⟨_, _, _, _, hn⟩
  · cases hnr

theorem hidden_bound : ∃ q t q' ranges blockOf, (ofText hidingText).Read ∧
    (ofText hidingText).resolveNames = (q, .ok t) ∧ q.clampRanges = (q', .ok ranges) ∧
    (∀ block since x id, q.Declares block since x → x.symbol = some id → blockOf (t.get id).scope = block) ∧
    (∃ l e min l' r, (Node.unit q').within? [2, 0, 1] = some (.expr (.clamp l e min (.name l' r))) ∧
      r.name.text = "limit" ∧ r.symbol = some 30) ∧
    q.InSight t blockOf [2, 0, 1] "limit" 30 ∧ q.Hidden t blockOf [2, 0, 1] "limit" 30 ∧
    ¬ q.Denotes t blockOf [2, 0, 1] "limit" 30 ∧ q.Denotes t blockOf [1, 0, 2] "limit" 30 := by
  have hall : passes hidingText = true ∧
      let q := (ofText hidingText).resolveNames.1
      let upper (a : List Nat) := (((Node.unit q.clampRanges.1).within? a).bind upperName?).map fun r =>
        (r.name.text, r.symbol)
      upper [2, 0, 1] = some ("limit", some 30) ∧ upper [1, 0, 2] = some ("limit", some 30) ∧
        (((Node.unit q).at? [2, 0]).bind assignedName?).isSome ∧ ((Node.unit q).at? [1, 0]).map isVar = some true ∧
        (((Node.unit q).at? [0]).bind Node.binder?).map (·.symbol) = some (some 30) ∧
        ((Node.unit q).at? [2]).map (fun n => (n.header 0).map (·.name.text)) = some ["limit"] ∧
        q.blocksAt [0] = [⟨[], 0⟩] ∧ q.blocksAt [2, 0, 1] = [⟨[2], 0⟩, ⟨[], 0⟩] ∧
        (tableOf (ofText hidingText)).kind 30 = .var := by decide +kernel
  obtain ⟨hpasses, hstore, hinit, hassign, hvar, hlimit, hparam, htop, hblocks, hkind⟩ := hall
  obtain ⟨hp, h, hr⟩ := of_passes hidingText hpasses
  generalize (ofText hidingText).resolveNames.1 = q at *
  generalize tableOf (ofText hidingText) = t at *
  generalize q.clampRanges.1 = q' at *
  obtain ⟨blockOf, hblock, hcopied⟩ := Program.copied_bounds_denote hp h hr
  have copied {a : List Nat} {l : Location} {e min : Expr} {l' : Location} {r : Reference}
      (hc : (Node.unit q').within? a = some (.expr (.clamp l e min (.name l' r)))) (hname : r.name.text = "limit")
      (hid : r.symbol = some 30) : q.CopiedName t blockOf a "limit" 30 := by
    rw [← hname]
    exact hcopied a l e min _ l' r 30 hc (mem_append_right _ (mem_nodes.mpr ⟨[], rfl⟩)) hid
  obtain ⟨l, e, min, l', r, hc, hname, hid⟩ := exists_upperName hstore
  obtain ⟨_, _, _, _, hs⟩ := exists_assignedName hassign
  have hin := (copied hc hname hid).byName (b := [2, 0]) rfl hs
  have hhidden : q.Hidden t blockOf [2, 0, 1] "limit" 30 := by
    obtain ⟨m, hm, hx⟩ := Option.map_eq_some_iff.mp hparam
    obtain ⟨x, hx, hname⟩ : ∃ x ∈ m.header 0, x.name.text = "limit" := by
      rw [← mem_map, hx]
      exact mem_singleton_self _
    refine ⟨⟨[2], 0⟩, ?_, x, ⟨none, .header hm hx, nofun⟩, hname⟩
    obtain ⟨y, hy, hid⟩ := Option.map_eq_some_iff.mp hlimit
    obtain ⟨n, hn, hy⟩ := Option.bind_eq_some_iff.mp hy
    have hglobal := hblock ⟨[], 0⟩ (some [0]) y 30 (.behind hn hy (by rw [htop]; rfl)) hid
    rw [Program.nearer, if_neg (by simp [hkind]), hblocks, hglobal]
    decide
  refine ⟨q, t, q', _, blockOf, hp, h, hr, hblock, ⟨l, e, min, l', r, hc, hname, hid⟩, hin, hhidden, ?_, ?_⟩
  · intro hd
    exact ((copied hc hname hid).denotes_iff.mp hd).2 hhidden
  · obtain ⟨_, _, _, _, _, hc, hname, hid⟩ := exists_upperName hinit
    obtain ⟨n, hn, hv⟩ := Option.map_eq_some_iff.mp hvar
    cases n with
    | var v => exact (copied hc hname hid).initializer (b := [1, 0]) rfl hn
    | _ => cases hv

end Sample

end SketchCompiler
