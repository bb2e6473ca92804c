import SketchCompiler.Proofs.Environments

namespace SketchCompiler

open List

lemma Node.module_of_unit_mem {n : Node} {p} (h : unit p ∈ n.children) :
    ∃ l aliasName path symbol, n = item (.module l aliasName path symbol p) := by
  cases n with
  | unit q =>
    obtain ⟨i, -, hi⟩ := mem_map.mp h
    cases hi
  | item i =>
    obtain ⟨j, hj⟩ := getElem?_of_mem h
    have hu : (item i).at? [j] = some (unit p) := Option.bind_eq_some_iff.mpr ⟨_, hj, rfl⟩
    obtain ⟨l, aliasName, path, symbol, q, rfl, -, hq⟩ := module_of_at?_item hu rfl
    cases hq
    exact ⟨l, aliasName, path, symbol, rfl⟩
  | _ => cases isInner_of_mem_children rfl h

open Env Node SpotPart

namespace Spot

variable {x y : Spot} {i : Nat} {ks : List Nat} {z : Binder}

lemma ne_unit_of_slot (h : x.slots[i]? = some (ks, y)) (p : Program) : y ≠ node (unit p) := by
  rintro rfl
  obtain ⟨l, aliasName, path, symbol, hx⟩ := module_of_unit_mem (mem_of_getElem? (child_of_slot h).1)
  cases x with
  | node n =>
    obtain rfl : n = _ := hx
    cases i with
    | zero => cases h
    | succ i => cases h
  | unread n => cases h
  | _ => cases hx

lemma eq_node_of_binder (h : x.slots[i]? = some (ks, y)) (hz : y.toNode.binder? = some z) : y = node y.toNode := by
  cases below_of_slot h with
  | node => rfl
  | bound hn =>
    obtain ⟨r, -, rfl | rfl⟩ := mem_ofRange?.mp (mem_of_getElem? hn) <;> cases hz
  | _ => cases hz

lemma direct_of_own (h : x.slots[i]? = some (ks, y)) (hy : y.own ≠ []) (hn : y.isNode = false) : ks = [] := by
  obtain ⟨z, hz⟩ := exists_mem_of_ne_nil _ hy
  rcases own_of_slot h hz with ⟨n, rfl, -⟩ | ⟨hk, -⟩
  · cases hn
  · exact hk

end Spot

namespace Program

variable {p : Program} {a b c d : List Nat} {x y : Spot} {env env' : Env} {i j k : Nat} {ks : List Nat} {n m : Node}
  {block : Block} {z : Binder}

lemma blocksAt_concat (hc : (unit p).at? c = some x.toNode) (hs : x.slots[i]? = some (ks, y)) :
    p.blocksAt (c ++ [i]) = ks.reverse.map (⟨c, ·⟩) ++ x.toNode.seen (p.blocksAt c) := by
  obtain ⟨hn, ha⟩ := Spot.child_of_slot hs
  rw [blocksAt, blocksFrom_concat hc (lt_of_getElem? hn), Node.inner, ha]
  rfl

/-- At the place `c` the spot is met in the environment. -/
inductive Meets (p : Program) : List Nat → Spot → Env → Prop
  | unit {o : List Nat} {u : Program} : (unit p).at? o = some (.unit u) → Meets p o (.node (.unit u)) []
  | step {c : List Nat} {x y : Spot} {env env' : Env} {i : Nat} : Meets p c x env → (x.met c env)[i]? = some (y, env') →
      Meets p (c ++ [i]) y env'

namespace Meets

variable (h : p.Meets c x env)

include h

lemma at?_eq : (Node.unit p).at? c = some x.toNode := by
  induction h with
  | unit ho => exact ho
  | step _ hm ih =>
    obtain ⟨ks, hs, -⟩ := Spot.slot_of_met hm
    rw [at?_concat, ih]
    exact (Spot.child_of_slot hs).1

lemma place_of_mem (hb : block ∈ blocks env) : ∃ j d, c = block.place ++ j :: d := by
  induction h with
  | unit => cases hb
  | @step c x y env env' i _ hm ih =>
    obtain ⟨ks, -, he⟩ := Spot.slot_of_met hm
    rw [he] at hb
    rcases mem_enclosing.mp hb with ⟨k, -, rfl⟩ | hb
    · exact ⟨i, [], rfl⟩
    · obtain ⟨j, d, rfl⟩ := ih hb
      exact ⟨j, d ++ [i], by simp⟩

lemma place_ne : ∀ b ∈ blocks env, b.place ≠ c := by
  intro b hb hc
  obtain ⟨j, d, hd⟩ := h.place_of_mem hb
  have hl := congrArg List.length hd
  simp [hc] at hl

lemma blocks_eq (hx : x.isRead) : blocks env = x.toNode.seen (p.blocksAt c) := by
  induction h with
  | unit => rfl
  | @step c x y env env' i hc hm ih =>
    obtain ⟨ks, hs, he⟩ := Spot.slot_of_met hm
    have hy : y.toNode.seen (p.blocksAt (c ++ [i])) = p.blocksAt (c ++ [i]) := by
      cases y with
      | node n =>
        cases n with
        | unit u => exact absurd rfl (Spot.ne_unit_of_slot hs u)
        | _ => rfl
      | unread n => cases hx
      | _ => rfl
    rw [hy, he, blocksAt_concat hc.at?_eq hs, ← ih (Spot.isRead_of_slot hs), enclosing]

lemma blocksAt_slot (hs : x.slots[i]? = some (ks, y)) : p.blocksAt (c ++ [i]) = enclosing c env ks := by
  rw [blocksAt_concat h.at?_eq hs, ← h.blocks_eq (Spot.isRead_of_slot hs), enclosing]

end Meets

lemma place_of_declared (hb : (unit p).at? b = some n) (hz : n.binder? = some z)
    (hblock : (p.blocksAt b).head? = some block) : ∃ j, b = block.place ++ [j] := by
  rcases eq_nil_or_concat b with rfl | ⟨c, j, rfl⟩
  · cases hblock
  · rw [concat_eq_append] at hb hblock ⊢
    rw [at?_concat] at hb
    obtain ⟨m, hm, hc⟩ := Option.bind_eq_some_iff.mp hb
    obtain ⟨ks, y, hs, rfl⟩ := Spot.slot_of_child (x := .node m) rfl hc
    have hk : ks ≠ [] := by
      rintro rfl
      rw [Spot.eq_node_of_binder hs hz] at hs
      rw [Spot.binder?_of_direct hs] at hz
      cases hz
    rw [blocksAt_concat (x := .node m) hm hs, head?_append_of_ne_nil _ (by simpa using hk)] at hblock
    obtain ⟨k, -, rfl⟩ := mem_map.mp (mem_of_head? hblock)
    exact ⟨j, rfl⟩

lemma append_lt_append_iff (c : List Nat) {a b : List Nat} : c ++ a < c ++ b ↔ a < b := by
  induction c with
  | nil => rfl
  | cons i c ih => rw [cons_append, cons_append, cons_lt_cons_iff]; simp [ih]

lemma inForce_iff (hn : (unit p).at? block.place = some n) :
    p.InForce (block.place ++ i :: d) block z ↔ z ∈ n.header block.number ∨
      ∃ j m, (unit p).at? (block.place ++ [j]) = some m ∧ m.binder? = some z ∧
        (p.blocksAt (block.place ++ [j])).head? = some block ∧
        (j < i ∨ j = i ∧ p.InHandler (block.place ++ [j]) (block.place ++ i :: d)) := by
  constructor
  · rintro ⟨_, hd, hc⟩
    cases hd with
    | header hn' hz =>
      rw [hn] at hn'
      cases hn'
      exact .inl hz
    | @behind b m _ hb hz hblock =>
      obtain ⟨j, rfl⟩ := place_of_declared hb hz hblock
      refine .inr ⟨j, m, hb, hz, hblock, ?_⟩
      obtain ⟨hlt, hp⟩ := hc _ rfl
      rw [append_lt_append_iff, cons_lt_cons_iff] at hlt
      rcases hlt with hlt | ⟨rfl, -⟩
      · exact .inl hlt
      · exact .inr ⟨rfl, hp (by simp)⟩
  · rintro (hz | ⟨j, m, hb, hz, hblock, hc⟩)
    · exact ⟨none, .header hn hz, nofun⟩
    · refine ⟨_, .behind hb hz hblock, ?_⟩
      rintro _ ⟨⟩
      rw [append_lt_append_iff, cons_lt_cons_iff]
      rcases hc with hlt | ⟨rfl, hh⟩
      · refine ⟨.inl hlt, fun hp => ?_⟩
        rw [prefix_append_right_inj, cons_prefix_cons] at hp
        omega
      · obtain ⟨_, _, _, _, m, e, -, -, he⟩ := id hh
        rw [append_assoc, append_cancel_left_eq] at he
        cases he
        exact ⟨.inr ⟨rfl, nil_lt_cons _ _⟩, fun _ => hh⟩

lemma inHandler_concat : p.InHandler b (c ++ [i]) ↔ p.InHandler b c ∨ ∃ d l e handler,
    (unit p).at? (b ++ [0]) = some (.var d) ∧ d.initializer = some (.guarded l e handler) ∧
      c = b ++ [0, (ofRange? d.range).length] ∧ 0 < i := by
  constructor
  · rintro ⟨d, l, e, handler, m, a, hd, hi, ha⟩
    rcases eq_nil_or_concat a with rfl | ⟨a, q, rfl⟩
    · have ha : c ++ [i] = (b ++ [0, (ofRange? d.range).length]) ++ [m + 1] := by simpa using ha
      obtain ⟨rfl, hm⟩ := append_inj' ha rfl
      cases hm
      exact .inr ⟨d, l, e, handler, hd, hi, rfl, Nat.succ_pos m⟩
    · have ha : c ++ [i] = (b ++ 0 :: (ofRange? d.range).length :: (m + 1) :: a) ++ [q] := by simpa using ha
      exact .inl ⟨d, l, e, handler, m, a, hd, hi, (append_inj' ha rfl).1⟩
  · rintro (⟨d, l, e, handler, m, a, hd, hi, rfl⟩ | ⟨d, l, e, handler, hd, hi, rfl, h⟩)
    · exact ⟨d, l, e, handler, m, a ++ [i], hd, hi, by simp⟩
    · obtain ⟨m, rfl⟩ := Nat.exists_eq_succ_of_ne_zero (h.ne')
      exact ⟨d, l, e, handler, m, [], hd, hi, by simp⟩

lemma inForce_concat (hn : (unit p).at? block.place = some n) (hc : c = block.place ++ k :: d) :
    p.InForce (c ++ [i]) block z ↔ p.InForce c block z ∨ ∃ b m d l e handler, (unit p).at? b = some m ∧
      m.binder? = some z ∧ (p.blocksAt b).head? = some block ∧ (unit p).at? (b ++ [0]) = some (.var d) ∧
      d.initializer = some (.guarded l e handler) ∧ c = b ++ [0, (ofRange? d.range).length] ∧ 0 < i := by
  have hc' : c ++ [i] = block.place ++ k :: (d ++ [i]) := by simp [hc]
  have h1 := inForce_iff (i := k) (d := d) (z := z) hn
  have h2 := inForce_iff (i := k) (d := d ++ [i]) (z := z) hn
  rw [← hc] at h1
  rw [← hc'] at h2
  rw [h1, h2]
  constructor
  · rintro (hz | ⟨j, m, hm, hz, hb, hj | ⟨rfl, hh⟩⟩)
    · exact .inl (.inl hz)
    · exact .inl (.inr ⟨j, m, hm, hz, hb, .inl hj⟩)
    · rcases inHandler_concat.mp hh with hh | ⟨d, l, e, handler, hh⟩
      · exact .inl (.inr ⟨j, m, hm, hz, hb, .inr ⟨rfl, hh⟩⟩)
      · exact .inr ⟨_, m, d, l, e, handler, hm, hz, hb, hh⟩
  · rintro ((hz | ⟨j, m, hm, hz, hb, hj | ⟨rfl, hh⟩⟩) | ⟨b, m, d', l, e, handler, hm, hz, hb, hh⟩)
    · exact .inl hz
    · exact .inr ⟨j, m, hm, hz, hb, .inl hj⟩
    · exact .inr ⟨j, m, hm, hz, hb, .inr ⟨rfl, inHandler_concat.mpr (.inl hh)⟩⟩
    · obtain ⟨j, rfl⟩ := place_of_declared hm hz hb
      have hjk : j :: [0, (ofRange? d'.range).length] = k :: d := by
        have := hh.2.2.1.symm.trans hc
        simpa using this
      obtain ⟨rfl, -⟩ := List.cons.inj hjk
      exact .inr ⟨_, m, hm, hz, hb, .inr ⟨rfl, inHandler_concat.mpr (.inr ⟨d', l, e, handler, hh⟩)⟩⟩

namespace Meets

variable {l : Location} {e : Expr} {handler : List Stmt} {d : VarDecl}

lemma has_inner (h : p.Meets c x env) (hs : x.slots[i]? = some (ks, y)) (hm : (x.met c env)[i]? = some (y, env'))
    (hk : k ∈ ks) : Has env' ⟨c, k⟩ z ↔ p.InForce (c ++ [i]) ⟨c, k⟩ z := by
  have hc := h.at?_eq
  have hne (hb : (⟨c, k⟩ : Block) ∈ blocks env) : False := h.place_ne _ hb rfl
  have hplace : (Node.unit p).at? (Block.mk c k).place = some x.toNode := hc
  rw [Spot.has_met h.place_ne hs hm, Spot.fromHeads_heads hs, inForce_iff hplace]
  constructor
  · rintro ((hz | ⟨-, hb, -⟩) | ⟨_, -, ⟨⟩, hz⟩ | ⟨-, j, hj, ⟨ks', w⟩, hsj, hz, hb⟩)
    · exact (hne (mem_blocks_of_has hz)).elim
    · exact (hne (mem_of_head? hb)).elim
    · exact .inl hz
    · rcases Spot.own_of_slot hsj hz with ⟨m, rfl, hz, -⟩ | ⟨rfl, -⟩
      · refine .inr ⟨j, m, ?_, hz, ?_, .inl hj⟩
        · rw [at?_concat, hc]
          exact (Spot.child_of_slot hsj).1
        · rw [h.blocksAt_slot hsj]
          exact hb
      · exact (hne (mem_of_head? hb)).elim
  · rintro (hz | ⟨j, m, hm, hz, hb, hj | ⟨rfl, hh⟩⟩)
    · exact .inr (.inl ⟨k, hk, rfl, hz⟩)
    · rw [at?_concat, hc] at hm
      obtain ⟨ks', w, hsj, rfl⟩ := Spot.slot_of_child (Spot.isRead_of_slot hs) hm
      refine .inr (.inr ⟨mem_enclosing.mpr (.inl ⟨k, hk, rfl⟩), j, hj, _, hsj, ?_, ?_⟩)
      · rw [Spot.eq_node_of_binder hsj hz]
        simp [Spot.own, hz]
      · rw [← h.blocksAt_slot hsj]
        exact hb
    · obtain ⟨_, _, _, _, m, e, -, -, he⟩ := hh
      simp at he

lemma parent (h : p.Meets c y env) (hy : ∀ u, y ≠ .node (.unit u)) : ∃ c0 x env0 i ks, p.Meets c0 x env0 ∧
    x.slots[i]? = some (ks, y) ∧ blocks env = enclosing c0 env0 ks ∧ c = c0 ++ [i] := by
  cases h with
  | unit => exact absurd rfl (hy _)
  | step h hm =>
    obtain ⟨ks, hs, he⟩ := Spot.slot_of_met hm
    exact ⟨_, _, _, _, ks, h, hs, he, rfl⟩

lemma of_guarded (h : p.Meets c (.guarded l e handler z) env) :
    ∃ b n d, (Node.unit p).at? b = some n ∧ n.binder? = some z ∧ p.blocksAt b = blocks env ∧
      (Node.unit p).at? (b ++ [0]) = some (.var d) ∧ d.initializer = some (.guarded l e handler) ∧
      c = b ++ [0, (ofRange? d.range).length] := by
  obtain ⟨c1, x1, env1, i1, ks1, h1, hs1, he1, rfl⟩ := h.parent nofun
  obtain rfl := Spot.direct_of_own hs1 nofun rfl
  cases Spot.below_of_slot hs1 with
  | @guarded _ d _ _ hi =>
    obtain ⟨b, x0, env0, i0, ks0, h0, hs0, he0, rfl⟩ := h1.parent nofun
    obtain rfl := Spot.direct_of_own hs0 nofun rfl
    have hblocks : blocks env = blocks env0 := he1.trans he0
    have hd := h1.at?_eq
    cases Spot.below_of_slot hs0 with
    | ofItem => exact ⟨b, _, d, h0.at?_eq, rfl, hblocks ▸ (h0.blocks_eq rfl).symm, hd, hi, by simp⟩
    | ofStmt => exact ⟨b, _, d, h0.at?_eq, rfl, hblocks ▸ (h0.blocks_eq rfl).symm, hd, hi, by simp⟩

lemma eq_declared (h : p.Meets (b ++ [0]) x env) (hb : (Node.unit p).at? b = some n) (hz : n.binder? = some z)
    (hd : (Node.unit p).at? (b ++ [0]) = some (.var d)) :
    x = .declared d ∧ z = d.binder ∧ blocks env = p.blocksAt b := by
  have hx : x.toNode = .var d := Option.some.inj (h.at?_eq.symm.trans hd)
  have hu (u : Program) : x ≠ .node (.unit u) := by
    rintro rfl
    cases hx
  obtain ⟨c0, x0, env0, i0, ks0, h0, hs0, he0, hc0⟩ := h.parent hu
  obtain ⟨rfl, hi0⟩ := append_inj' hc0 rfl
  cases hi0
  have hn : x0.toNode = n := Option.some.inj (h0.at?_eq.symm.trans hb)
  have hx0 : x0 = .node n := by
    cases x0 with
    | node m => rw [← hn, Spot.toNode]
    | unread m => cases hs0
    | _ =>
      subst hn
      cases hz
  subst hx0
  have hr := h0.blocks_eq rfl
  unfold binder? at hz
  split at hz
  · cases hs0
    cases hx
    cases hz
    exact ⟨rfl, rfl, he0.trans hr⟩
  · cases hs0
    cases hx
    cases hz
    exact ⟨rfl, rfl, he0.trans hr⟩
  · cases hs0
    cases hx
  · cases hz

lemma eq_guarded (h : p.Meets (b ++ [0, (ofRange? d.range).length]) x env) (hb : (Node.unit p).at? b = some n)
    (hz : n.binder? = some z) (hd : (Node.unit p).at? (b ++ [0]) = some (.var d))
    (hi : d.initializer = some (.guarded l e handler)) : x = .guarded l e handler z ∧ blocks env = p.blocksAt b := by
  have hc : b ++ [0, (ofRange? d.range).length] = (b ++ [0]) ++ [(ofRange? d.range).length] := by simp
  rw [hc] at h
  have hx : x.toNode = .expr (.guarded l e handler) := by
    have hx := h.at?_eq
    rw [at?_concat, hd] at hx
    simpa [children, hi, ofExpr?] using hx.symm
  have hu (u : Program) : x ≠ .node (.unit u) := by
    rintro rfl
    cases hx
  obtain ⟨c1, x1, env1, i1, ks1, h1, hs1, he1, hc1⟩ := h.parent hu
  obtain ⟨rfl, hi1⟩ := append_inj' hc1 rfl
  cases hi1
  obtain ⟨rfl, rfl, hr⟩ := h1.eq_declared hb hz hd
  have hs : (Spot.declared d).slots[(ofRange? d.range).length]? = some ([], .guarded l e handler d.binder) := by
    simp [Spot.slots, Spot.before, Spot.after, partsSlots, SpotPart.slots, hi]
  rw [hs1] at hs
  cases hs
  exact ⟨rfl, he1.trans hr⟩

lemma has_outer (h : p.Meets c x env) (hs : x.slots[i]? = some (ks, y)) (hm : (x.met c env)[i]? = some (y, env'))
    (hb : block ∈ blocks env) (ih : Has env block z ↔ p.InForce c block z) :
    Has env' block z ↔ p.InForce (c ++ [i]) block z := by
  obtain ⟨k, d, hc⟩ := h.place_of_mem hb
  have hat := h.at?_eq
  rw [hc, at?_append] at hat
  obtain ⟨n, hn, -⟩ := Option.bind_eq_some_iff.mp hat
  rw [Spot.has_met h.place_ne hs hm, Spot.fromHeads_heads hs, inForce_concat hn hc, ← ih]
  constructor
  · rintro ((hz | ⟨hi, hblock, hz⟩) | ⟨_, -, rfl, -⟩ | ⟨-, j, hj, ⟨ks', w⟩, hsj, hz, hblock⟩)
    · exact .inl hz
    · have hlen := lt_of_getElem? hs
      cases x with
      | guarded l e handler y =>
        obtain rfl := mem_singleton.mp hz
        obtain ⟨b, m, d, hb, hz, hr, hd, hg⟩ := h.of_guarded
        exact .inr ⟨b, m, d, l, e, handler, hb, hz, hr ▸ hblock, hd, hg.1, hg.2, hi⟩
      | _ =>
        simp only [Spot.slots, Spot.after, append_nil] at hlen
        omega
    · exact absurd rfl (h.place_ne _ hb)
    · rcases Spot.own_of_slot hsj hz with ⟨-, -, -, hk⟩ | ⟨-, hlast⟩
      · obtain ⟨_, -, rfl⟩ := mem_of_head?_enclosing hk hblock
        exact absurd rfl (h.place_ne _ hb)
      · have hlen := lt_of_getElem? hs
        omega
  · rintro (hz | ⟨b, m, d, l, e, handler, hb', hz, hblock, hd, hi, rfl, hpos⟩)
    · exact .inl (.inl hz)
    · obtain ⟨rfl, hr⟩ := h.eq_guarded hb' hz hd hi
      exact .inl (.inr ⟨hpos, hr ▸ hblock, mem_singleton_self z⟩)

lemma has_iff (h : p.Meets c x env) (hb : block ∈ blocks env) : Has env block z ↔ p.InForce c block z := by
  induction h with
  | unit => cases hb
  | step h hm ih =>
    obtain ⟨ks, hs, he⟩ := Spot.slot_of_met hm
    rw [he] at hb
    rcases mem_enclosing.mp hb with ⟨k, hk, rfl⟩ | hb
    · exact h.has_inner hs hm hk
    · exact h.has_outer hs hm hb (ih hb)

lemma nodup_blocks (h : p.Meets c x env) : (blocks env).Nodup := by
  induction h with
  | unit => exact nodup_nil
  | @step c x y env env' i h hm ih =>
    obtain ⟨ks, hs, he⟩ := Spot.slot_of_met hm
    rw [he, enclosing]
    have hk : ks.Nodup := nodup_of_slot x.nodup_heads (mem_of_getElem? hs)
    refine nodup_append.mpr ⟨(nodup_reverse.mpr hk).map ?_, ih, ?_⟩
    · intro k k' hkk
      cases hkk
      rfl
    · intro b hb b' hb' hbb
      obtain ⟨k, -, rfl⟩ := mem_map.mp hb
      exact h.place_ne b' hb' (hbb ▸ rfl)

lemma mem_iff (h : p.Meets c x env) {e : Block × List Binder} (he : e ∈ env) : z ∈ e.2 ↔ p.InForce c e.1 z := by
  rw [← h.has_iff (mem_map_of_mem he)]
  constructor
  · exact fun hz => ⟨e.2, he, hz⟩
  · rintro ⟨xs, hxs, hz⟩
    rw [← inj_on_of_nodup_map h.nodup_blocks hxs he rfl]
    exact hz

end Meets

end Program

end SketchCompiler
