import SketchCompiler.Proofs.ClampedInterrupts
import SketchCompiler.Proofs.DeclaredVariables
import SketchCompiler.Proofs.ResolvedTrees

namespace SketchCompiler

open List Node

variable {α : Type} {d : VarDecl}

namespace Node

/-- A literal is changed, all other nodes stay. -/
def withLiteral (g : Literal → Literal) : Node → Node
  | expr (.literal l v) => expr (.literal l (g v))
  | n => n

lemma withLiteral_id (n : Node) : n.withLiteral id = n := by
  cases n with
  | expr e => cases e <;> rfl
  | _ => rfl

section Transform

variable (f : Transform)

attribute [local simp] transform withLiteral bare Function.comp_def

lemma bareBlock_transform (body : List Stmt) : bareBlock (transformBlock f body) = bareBlock body := by
  simp [bareBlock, transformBlock_eq]

lemma bareBlock?_transform (body : Option (List Stmt)) :
    (transformBlock? f body).map bareBlock = body.map bareBlock := by
  cases body with
  | none => rfl
  | some body => exact congrArg some (bareBlock_transform f body)

lemma bareBranches_transform (bs : List Branch) : (transformBranches f bs).map bareBranch = bs.map bareBranch := by
  induction bs with
  | nil => rfl
  | cons b bs ih =>
    obtain ⟨e, body⟩ := b
    simp [transformBranches, bareBranch, bareBlock_transform, ih]

lemma barePatterns_transform (ps : List Pattern) : (transformPatterns f ps).map barePattern = ps.map barePattern := by
  induction ps with
  | nil => rfl
  | cons p ps ih => cases p <;> simp [transformPatterns, barePattern, ih]

lemma bareArms_transform (as : List Arm) : (transformArms f as).map bareArm = as.map bareArm := by
  induction as with
  | nil => rfl
  | cons a as ih =>
    obtain ⟨patterns, body⟩ := a
    simp [transformArms, bareArm, bareBlock_transform, barePatterns_transform, ih]

lemma bareFields_transform (fs : List FieldValue) : (transformFields f fs).map bareField = fs.map bareField := by
  simp [transformFields_eq, bareField]

lemma bareClass_transform (d : ClassDecl) : bareClass (d.transform f) = bareClass d := by
  obtain ⟨_, _, constructor, _, _⟩ := d
  cases constructor <;>
    simp [bareClass, ClassDecl.transform, bareFunction, FunctionDecl.transform, bareBlock_transform]

lemma map_transformExpr? (c : α) (e : Option Expr) : (transformExpr? f e).map (fun _ => c) = e.map fun _ => c := by
  cases e <;> rfl

lemma map_transformStmt? (c : α) (s : Option Stmt) : (transformStmt? f s).map (fun _ => c) = s.map fun _ => c := by
  cases s <;> rfl

lemma map_transformRange? (c : α) (r : Option Range) : (transformRange? f r).map (fun _ => c) = r.map fun _ => c := by
  rcases r with _ | ⟨min, max⟩ <;> rfl

lemma bare_transform (n : Node) : (n.transform f).bare = (n.withLiteral f.literal).bare := by
  cases n with
  | unit p =>
    cases p
    simp [Program.transform, transformItems_eq]
  | item i =>
    cases i <;> simp [Item.transform, bareItem, bareFields_transform, bareBlock_transform, bareFunction,
      FunctionDecl.transform, bareClass_transform, map_transformExpr?]
  | var d =>
    cases d
    simp [VarDecl.transform, map_transformExpr?, map_transformRange?]
  | stmt s =>
    cases s <;> simp [Stmt.transform, bareStmt, bareBlock_transform, bareBlock?_transform, bareBranches_transform,
      bareArms_transform, map_transformExpr?, map_transformStmt?]
  | expr e =>
    cases e <;> simp [Expr.transform, bareExpr, bareBlock_transform, bareFields_transform, transformExprs_eq]

lemma eq_literal_of_transform {n : Node} {l} {w} (h : n.transform f = expr (.literal l w)) :
    ∃ v, n = expr (.literal l v) ∧ f.literal v = w := by
  cases n with
  | expr e =>
    cases e with
    | literal l' v =>
      cases h
      exact ⟨v, rfl, rfl⟩
    | _ => cases h
  | _ => cases h

lemma length_children_transform (n : Node) : (n.transform f).children.length = n.children.length := by
  cases hs : n.store? with
  | none => rw [children_transform f hs, length_map]
  | some x =>
    obtain ⟨cs, hc, ht⟩ := children_store f hs
    simp [-transform, hc, ht]

lemma store?_transform (n : Node) :
    (n.transform f).store? = n.store?.map fun x => (x.1, f.stored x.1 (x.2.transform f)) := by
  cases n with
  | var d =>
    obtain ⟨_, _, _, initializer, _, symbol⟩ := d
    cases initializer <;> rfl
  | stmt s =>
    cases s with
    | assign l target e => simp [Stmt.transform, store?, symbol?_transform]
    | _ => rfl
  | _ => rfl

end Transform

/-- The node without a clamp around it. -/
def inside : Node → Node
  | expr (.clamp _ e _ _) => expr e
  | n => n

/-- The node at a place, where a clamp is no step of its own. -/
def within? : Node → List Nat → Option Node
  | n, [] => some n
  | n, i :: a => n.inside.children[i]?.bind (within? · a)

lemma within?_concat (n : Node) (a : List Nat) (i : Nat) :
    n.within? (a ++ [i]) = (n.within? a).bind fun m => m.inside.children[i]? := by
  induction a generalizing n with
  | nil => simp [within?]
  | cons j a ih =>
    rw [cons_append, within?, within?]
    cases n.inside.children[j]? with
    | none => rfl
    | some c => exact ih c

section Keep

variable {f : Transform} (hf : ∀ symbol e, f.stored symbol e = e)

include hf

lemma children_keep (n : Node) : (n.transform f).children = n.children.map (transform f) := by
  cases hs : n.store? with
  | none => exact children_transform f hs
  | some x =>
    obtain ⟨symbol, e⟩ := x
    obtain ⟨cs, hc, ht⟩ := children_store f hs
    rw [hc, ht, hf]
    simp [transform]

lemma at?_keep (n : Node) (a : List Nat) : (n.transform f).at? a = (n.at? a).map (transform f) :=
  at?_map (children_keep hf) n a

lemma eq_transform_of_mem_nodes {n m : Node} (hm : m ∈ (n.transform f).nodes) :
    ∃ k ∈ n.nodes, m = k.transform f := by
  obtain ⟨a, ha⟩ := mem_nodes.mp hm
  rw [at?_keep hf] at ha
  obtain ⟨k, hk, rfl⟩ := Option.map_eq_some_iff.mp ha
  exact ⟨k, mem_nodes.mpr ⟨a, hk⟩, rfl⟩

end Keep

lemma comesFrom_of_mem_nodes {f : Transform} {added : Option SymbolId → Expr → List Node} {n m : Node}
    (ha : ∀ symbol e m, m ∈ (expr (f.stored symbol e)).nodes ↔ m ∈ (expr e).nodes ∨ m ∈ added symbol e)
    (hm : m ∈ (n.transform f).nodes) : ∃ k ∈ n.nodes, ComesFrom f added m k := by
  induction n using induct with
  | h n ih =>
    have below {c : Node} (hc : c ∈ n.children) (hm : m ∈ (c.transform f).nodes) :
        ∃ k ∈ n.nodes, ComesFrom f added m k := by
      obtain ⟨k, hk, hmk⟩ := ih c hc hm
      exact ⟨k, mem_nodes_iff.mpr (.inr ⟨c, hc, hk⟩), hmk⟩
    rcases mem_nodes_iff.mp hm with rfl | ⟨c, hc, hm⟩
    · exact ⟨n, mem_nodes_self, .inl rfl⟩
    cases hs : n.store? with
    | none =>
      rw [children_transform f hs] at hc
      obtain ⟨c0, hc0, rfl⟩ := mem_map.mp hc
      exact below hc0 hm
    | some x =>
      obtain ⟨symbol, e⟩ := x
      obtain ⟨cs, hcs, ht⟩ := children_store f hs
      rw [ht, mem_append, mem_singleton] at hc
      rcases hc with hc | rfl
      · obtain ⟨c0, hc0, rfl⟩ := mem_map.mp hc
        exact below (hcs ▸ mem_append_left _ hc0) hm
      · rcases (ha _ _ _).mp hm with hm | hm
        · exact below (c := expr e) (hcs ▸ mem_append_right _ (mem_singleton_self _)) hm
        · exact ⟨n, mem_nodes_self, .inr ⟨symbol, e, hs, hm⟩⟩

section Clamps

variable {ranges : RangeTable} {n c : Node}

def clamps (ranges : RangeTable) : Transform := { stored := Expr.clampTo ranges }

lemma isClamp_transform (f : Transform) (n : Node) : (n.transform f).isClamp = n.isClamp := by
  cases n with
  | expr e => cases e <;> rfl
  | _ => rfl

lemma inside_of_not_isClamp (hn : n.isClamp = false) : n.inside = n := by
  cases n with
  | expr e =>
    cases e with
    | clamp l e min max => cases hn
    | _ => rfl
  | _ => rfl

lemma inside_clampTo {e : Expr} (he : (expr e).isClamp = false) (symbol : Option SymbolId) :
    (expr (e.clampTo ranges symbol)).inside = expr e := by
  unfold Expr.clampTo
  split
  · rfl
  · exact inside_of_not_isClamp he

lemma inside_children_clamps (hc : ∀ c ∈ n.children, c.isClamp = false) :
    (n.transform (clamps ranges)).children.map inside = n.children.map (transform (clamps ranges)) := by
  have hin : ∀ c ∈ n.children, (c.transform (clamps ranges)).inside = c.transform (clamps ranges) := by
    intro c hm
    exact inside_of_not_isClamp ((isClamp_transform _ c).trans (hc c hm))
  cases hs : n.store? with
  | none =>
    rw [children_transform _ hs, map_map]
    exact map_congr_left hin
  | some x =>
    obtain ⟨symbol, e⟩ := x
    obtain ⟨cs, hcs, ht⟩ := children_store (clamps ranges) hs
    rw [hcs] at hin hc ⊢
    have hcs' : cs.map (inside ∘ transform (clamps ranges)) = cs.map (transform (clamps ranges)) :=
      map_congr_left fun c hm => hin c (mem_append_left _ hm)
    have he : (expr (e.transform (clamps ranges))).isClamp = false :=
      (isClamp_transform (clamps ranges) (expr e)).trans (hc (expr e) (by simp))
    rw [ht, map_append, map_append, map_map, hcs']
    congr 1
    exact congrArg (fun x => [x]) (inside_clampTo he symbol)

lemma child_clamps {i : Nat} (hn : ∀ c ∈ n.children, c.isClamp = false)
    (hc : (n.transform (clamps ranges)).children[i]? = some c) :
    (c.isClamp = false ∧ ∀ symbol e, n.store? = some (symbol, e) → i + 1 ≠ n.children.length) ∨
      ∃ symbol e, n.store? = some (symbol, e) ∧ i + 1 = n.children.length ∧
        c = expr ((e.transform (clamps ranges)).clampTo ranges symbol) := by
  -- All children but a stored value are transformed, and stay what they are.
  have kept {cs : List Node} (hcs : ∀ c ∈ cs, c ∈ n.children)
      (h : (cs.map (transform (clamps ranges)))[i]? = some c) : c.isClamp = false := by
    rw [getElem?_map] at h
    obtain ⟨c0, hc0, rfl⟩ := Option.map_eq_some_iff.mp h
    exact (isClamp_transform _ c0).trans (hn c0 (hcs c0 (mem_of_getElem? hc0)))
  cases hs : n.store? with
  | none =>
    rw [children_transform _ hs] at hc
    exact .inl ⟨kept (fun c hc => hc) hc, nofun⟩
  | some x =>
    obtain ⟨symbol, e⟩ := x
    obtain ⟨cs, hcs, ht⟩ := children_store (clamps ranges) hs
    rw [ht] at hc
    have hlen : n.children.length = cs.length + 1 := by simp [hcs]
    rcases Nat.lt_trichotomy i cs.length with hi | rfl | hi
    · rw [getElem?_append_left (by simpa using hi)] at hc
      refine .inl ⟨kept (fun c hc => ?_) hc, fun _ _ _ => by omega⟩
      rw [hcs]
      exact mem_append_left _ hc
    · rw [getElem?_append_right (by simp)] at hc
      simp only [length_map, Nat.sub_self, getElem?_cons_zero, Option.some.injEq] at hc
      exact .inr ⟨symbol, e, rfl, hlen.symm, hc.symm⟩
    · rw [getElem?_eq_none (by simp; omega)] at hc
      cases hc

lemma map_inside_within? (hn : ∀ m ∈ n.nodes, m.isClamp = false) (hc : c.inside = n.transform (clamps ranges))
    (a : List Nat) : (c.within? a).map inside = (n.at? a).map (transform (clamps ranges)) := by
  induction a generalizing n c with
  | nil => simp [within?, at?, hc]
  | cons i a ih =>
    have hch : ∀ m ∈ n.children, m.isClamp = false := fun m hm =>
      hn m (mem_nodes_iff.mpr (.inr ⟨m, hm, mem_nodes_self⟩))
    have hi := congrArg (·[i]?) (@inside_children_clamps ranges n hch)
    simp only [getElem?_map] at hi
    rw [within?, at?, hc]
    cases hn' : n.children[i]? with
    | none =>
      rw [hn', Option.map_none, Option.map_eq_none_iff] at hi
      rw [hi]
      rfl
    | some m =>
      rw [hn', Option.map_some] at hi
      obtain ⟨m', hm', he⟩ := Option.map_eq_some_iff.mp hi
      rw [hm']
      refine ih (fun k hk => hn k ?_) he
      exact mem_nodes_iff.mpr (.inr ⟨m, mem_of_getElem? hn', hk⟩)

end Clamps

end Node

def Expr.ConvertedFrom (e' e : Expr) : Prop := ∀ a, ((expr e').at? a).map Node.bare =
  ((expr e).at? a).map fun n => (n.withLiteral Literal.inCommonUnit).bare

def commonUnits : Transform := { literal := Literal.inCommonUnit }

def Range.inCommonUnits (r : Range) : Range := ⟨r.min.transform commonUnits, r.max.transform commonUnits⟩

lemma RangeTable.lookup_insert (ranges : RangeTable) (x : SymbolId × Range) (id : SymbolId) :
    (ranges.insert x).lookup id = if id = x.1 then some x.2 else ranges.lookup id :=
  lookup_replaced

lemma RangeTable.lookup_foldl_insert {xs : List (SymbolId × Range)}
    (hx : ∀ x ∈ xs, ∀ y ∈ xs, x.1 = y.1 → x.2 = y.2) {id} {r} :
    (xs.foldl RangeTable.insert []).lookup id = some r ↔ (id, r) ∈ xs := by
  induction xs using reverseRecOn with
  | nil => simp
  | append_singleton xs x ih =>
    have ih := ih fun y hy z hz => hx y (mem_append_left _ hy) z (mem_append_left _ hz)
    rw [foldl_append, foldl_cons, foldl_nil, RangeTable.lookup_insert]
    split
    case isTrue he =>
      subst he
      constructor
      · intro hr
        cases hr
        simp
      · intro hm
        exact congrArg some (hx x (by simp) (x.1, r) hm rfl)
    case isFalse hne =>
      rw [ih, mem_append, mem_singleton]
      refine (or_iff_left ?_).symm
      rintro rfl
      exact hne rfl

namespace Program

variable {p q q' : Program} {t : SymbolTable} {ranges : RangeTable} {id : SymbolId} {r : Range}

lemma Read.unnumbered (hp : p.Read) : p.Unnumbered := fun n hn => (hp.fresh n hn).1

lemma Read.vars_unnumbered (hp : p.Read) : ∀ d ∈ p.vars, d.symbol = none := fun d hd =>
  (hp.fresh _ (mem_vars (n := .unit p) |>.mp hd)).1 d.symbol (mem_singleton_self _)

lemma Read.numberedOnce (hp : p.Read) (h : p.resolveNames = (q, .ok t)) : q.NumberedOnce :=
  Program.numberedOnce hp.vars_unnumbered h

lemma Read.vars_unique (hp : p.Read) (h : p.resolveNames = (q, .ok t)) {e : VarDecl} (hd : d ∈ q.vars)
    (he : e ∈ q.vars) (hid : d.symbol = some id) (hie : e.symbol = some id) : d = e :=
  (hp.numberedOnce h).var_eq hd he hid hie

lemma Read.numbered (hp : p.Read) (h : p.resolveNames = (q, .ok t)) (hd : d ∈ q.vars) : d.symbol ≠ none := by
  obtain ⟨a, ha⟩ := mem_nodes.mp (Node.mem_vars (n := .unit q) |>.mp hd)
  obtain ⟨F, -, -, hq⟩ := unitsResolved h
  -- No variable stands in settings or in a range.
  have hs {b : List Nat} {n : Node} {i : Nat} {c : List Nat} (hb : (unit q).at? b = some n)
      (hi : i < n.settings.length) (hc : (unit q).at? (b ++ i :: c) = some (.var d)) : False := by
    obtain ⟨ns, hns⟩ := n.children_eq_settings
    rw [at?_append, hb, Option.bind_some, Node.at?, hns, getElem?_append_left hi, getElem?_eq_getElem hi] at hc
    obtain ⟨e, he⟩ := hp.plain_settings h (mem_nodes.mpr ⟨b, hb⟩) (getElem_mem hi) _
      (mem_nodes.mpr ⟨c, hc⟩)
    cases he
  rcases meets_or_unread ha with ⟨x, env, hx, hr, hd⟩ | ⟨b, l, entries, i, c, hb, rfl⟩ |
    ⟨b, l, k, j, f, i, c, hb, hf, hi, rfl⟩
  · exact hx.numbered hq hr (hd ▸ mem_singleton_self d.symbol)
  · have ha' := ha
    rw [at?_append, hb, Option.bind_some, Node.at?] at ha'
    obtain ⟨m, hm, -⟩ := Option.bind_eq_some_iff.mp ha'
    exact absurd ha (hs hb (lt_of_getElem? hm))
  · have hv : (unit q).at? (b ++ [j]) = some (.var f.value) := by
      have hj : j < (k.fields.map fun f => var f.value).length := by
        simpa using lt_of_getElem? hf
      rw [at?_concat, hb, Option.bind_some, Node.children, append_assoc, getElem?_append_left hj, getElem?_map, hf]
      rfl
    rw [append_cons] at ha
    exact absurd ha (hs hv hi)

lemma mem_vars_iff : d ∈ q.vars ↔ ∃ a, (unit q).at? a = some (.var d) := by
  rw [← mem_nodes]
  exact mem_vars (n := .unit q)

lemma at?_convertUnits (a : List Nat) : (unit q.convertUnits).at? a =
    ((unit q).at? a).map (Node.transform commonUnits) :=
  at?_keep (fun _ _ => rfl) (.unit q) a

lemma mem_vars_convertUnits : d ∈ q.convertUnits.vars ↔ ∃ e ∈ q.vars, e.transform commonUnits = d := by
  simp only [mem_vars_iff, at?_convertUnits, Option.map_eq_some_iff]
  constructor
  · rintro ⟨a, m, hm, he⟩
    cases m with
    | var e =>
      cases he
      exact ⟨e, ⟨a, hm⟩, rfl⟩
    | _ => cases he
  · rintro ⟨e, ⟨a, hm⟩, rfl⟩
    exact ⟨a, _, hm, rfl⟩

lemma eq_rangeTable (hr : q.clampRanges = (q', .ok ranges)) : ranges = q.convertUnits.rangeTable := by
  unfold clampRanges at hr
  dsimp only at hr
  split at hr
  · cases hr
    rfl
  · cases hr

lemma mem_symbolRanges_iff : (id, r) ∈ q.convertUnits.vars.filterMap (·.symbolRange?) ↔
      ∃ d ∈ q.vars, d.symbol = some id ∧ d.range.map Range.inCommonUnits = some r := by
  have hd (d : VarDecl) : (d.transform commonUnits).symbolRange? = some (id, r) ↔
      d.symbol = some id ∧ d.range.map Range.inCommonUnits = some r := by
    obtain ⟨_, _, _, _, range, _⟩ := d
    rcases range with _ | ⟨min, max⟩ <;> simp [VarDecl.symbolRange?, VarDecl.transform, Option.bind_eq_some_iff,
      transformRange?, Range.inCommonUnits]
  simp only [mem_filterMap, mem_vars_convertUnits, exists_exists_and_eq_and, hd]

lemma Read.lookup_ranges_iff (hp : p.Read) (h : p.resolveNames = (q, .ok t)) (hr : q.clampRanges = (q', .ok ranges)) :
    ranges.lookup id = some r ↔ ∃ d ∈ q.vars, d.symbol = some id ∧ d.range.map Range.inCommonUnits = some r := by
  rw [eq_rangeTable hr, rangeTable, RangeTable.lookup_foldl_insert ?_, mem_symbolRanges_iff]
  rintro ⟨id, r⟩ hx ⟨_, r'⟩ hy rfl
  obtain ⟨d, hd, hid, hdr⟩ := mem_symbolRanges_iff.mp hx
  obtain ⟨e, he, hie, her⟩ := mem_symbolRanges_iff.mp hy
  cases hp.vars_unique h hd he hid hie
  exact Option.some.inj (hdr.symm.trans her)

/-- What stands at the place is stored into a variable with the range: it is the initializer of the variable, behind the
bounds, or it is assigned to it. -/
inductive Ranged (q : Program) : List Nat → Range → Prop
  | initializer {b d r} : (unit q).at? b = some (.var d) → d.range = some r → Ranged q (b ++ [2]) r
  | assigned {b l target e d id r} : (unit q).at? b = some (.stmt (.assign l target e)) →
      target.symbol? = some id → d ∈ q.vars → d.symbol = some id → d.range = some r → Ranged q (b ++ [1]) r

/-- The program is the other with its literals in common units, and with clamps around the values that are stored into
variables with ranges. -/
structure ClampedFrom (q' q : Program) : Prop where
  nodes : ∀ a, ((Node.unit q').within? a).map (fun n => n.inside.bare) =
    ((Node.unit q).at? a).map fun n => (n.withLiteral Literal.inCommonUnit).bare
  no_units : ∀ l v unit, Node.expr (.literal l (.number v unit)) ∈ (Node.unit q').nodes → unit = none
  clamped : ∀ a n, (Node.unit q').within? a = some n → (n.isClamp ↔ ∃ r, q.Ranged a r)
  bounds : ∀ a l e min max r, (Node.unit q').within? a = some (.expr (.clamp l e min max)) → q.Ranged a r →
    l = e.loc ∧ (Node.expr e).isClamp = false ∧ min.ConvertedFrom r.min ∧ max.ConvertedFrom r.max

section

variable (hp : p.Read) (h : p.resolveNames = (q, .ok t)) (hr : q.clampRanges = (q', .ok ranges)) {b a : List Nat}
  {n c : Node} {i : Nat} {r : Range} {e : Expr} {l : Location}

include hp h hr

lemma map_inside_clampRanges (a : List Nat) : ((unit q').within? a).map inside =
    ((unit q).at? a).map fun n => (n.transform commonUnits).transform (clamps ranges) := by
  have hq : unit q' = (unit q.convertUnits).transform (clamps ranges) :=
    congrArg unit (eq_insertClamps hr)
  have hn : ∀ m ∈ (unit q.convertUnits).nodes, m.isClamp = false := by
    intro m hm
    obtain ⟨a, ha⟩ := mem_nodes.mp hm
    rw [at?_convertUnits] at ha
    obtain ⟨k, hk, rfl⟩ := Option.map_eq_some_iff.mp ha
    rw [isClamp_transform]
    exact hp.not_isClamp h (mem_nodes.mpr ⟨a, hk⟩)
  rw [map_inside_within? hn (congrArg inside hq), at?_convertUnits, Option.map_map]
  rfl

lemma nodes_clampRanges (a : List Nat) : ((unit q').within? a).map (fun n => n.inside.bare) =
    ((unit q).at? a).map fun n => (n.withLiteral Literal.inCommonUnit).bare := by
  have hb (n : Node) : ((n.transform commonUnits).transform (clamps ranges)).bare =
      (n.withLiteral Literal.inCommonUnit).bare := by
    rw [bare_transform, clamps, withLiteral_id, bare_transform]
    rfl
  have := congrArg (Option.map bare) (map_inside_clampRanges hp h hr a)
  simpa [Function.comp_def, hb] using this

lemma lookup_of_ranged (hn : (unit q).at? b = some n) (hi : i < n.children.length) (hg : q.Ranged (b ++ [i]) r) :
    ∃ symbol e, n.store? = some (symbol, e) ∧ i + 1 = n.children.length ∧
      symbol.bind (ranges.lookup ·) = some r.inCommonUnits := by
  have lookup {d : VarDecl} {id : SymbolId} (hd : d ∈ q.vars) (hid : d.symbol = some id) (hdr : d.range = some r) :
      ranges.lookup id = some r.inCommonUnits :=
    (hp.lookup_ranges_iff h hr).mpr ⟨d, hd, hid, congrArg (Option.map _) hdr⟩
  generalize ha : b ++ [i] = a at hg
  cases hg with
  | @initializer b' d _ hd hdr =>
    obtain ⟨rfl, hi'⟩ := append_inj' ha rfl
    cases hi'
    cases hn.symm.trans hd
    obtain ⟨_, _, _, initializer, _, symbol⟩ := d
    cases hdr
    cases initializer with
    | none => simp [children, ofRange?, ofExpr?] at hi
    | some e =>
      have hv := mem_vars_iff.mpr ⟨b, hd⟩
      obtain ⟨id, hid⟩ := Option.ne_none_iff_exists'.mp (hp.numbered h hv)
      refine ⟨symbol, e, rfl, rfl, ?_⟩
      rw [show symbol = some id from hid, Option.bind_some]
      exact lookup hv hid rfl
  | @assigned b' l target e d id _ hs hid hd hdid hdr =>
    obtain ⟨rfl, hi'⟩ := append_inj' ha rfl
    cases hi'
    cases hn.symm.trans hs
    refine ⟨target.symbol?, e, rfl, rfl, ?_⟩
    rw [hid, Option.bind_some]
    exact lookup hd hdid hdr

lemma ranged_of_lookup {symbol : Option SymbolId} (hn : (unit q).at? b = some n)
    (hs : n.store? = some (symbol, e)) (hi : i + 1 = n.children.length) (hl : symbol.bind (ranges.lookup ·) = some r) :
    ∃ r, q.Ranged (b ++ [i]) r := by
  obtain ⟨id, rfl, hl⟩ := Option.bind_eq_some_iff.mp hl
  obtain ⟨d, hd, hid, hdr⟩ := (hp.lookup_ranges_iff h hr).mp hl
  obtain ⟨r0, hr0, -⟩ := Option.map_eq_some_iff.mp hdr
  refine ⟨r0, ?_⟩
  cases n with
  | var d' =>
    obtain ⟨e', he', hs'⟩ := Option.map_eq_some_iff.mp hs
    -- The variable is the one that has the range.
    obtain rfl := hp.vars_unique h (mem_vars_iff.mpr ⟨b, hn⟩) hd (congrArg Prod.fst hs') hid
    have hi' : i = 2 := by simpa [children, hr0, he', ofRange?, ofExpr?] using hi
    subst hi'
    exact .initializer hn hr0
  | stmt s =>
    cases s with
    | assign l target e' =>
      obtain ⟨hsymbol, -⟩ := Prod.mk.inj (Option.some.inj hs)
      have hi' : i = 1 := by simpa [children] using hi
      subst hi'
      exact .assigned hn hsymbol hd hid hr0
    | _ => cases hs
  | _ => cases hs

lemma child_clampRanges (hc : (unit q').within? (b ++ [i]) = some c) :
    ∃ n, (unit q).at? b = some n ∧ i < n.children.length ∧
      ((c.isClamp = false ∧ ∀ symbol e, n.store? = some (symbol, e) → i + 1 ≠ n.children.length) ∨
        ∃ symbol e e', n.store? = some (symbol, e) ∧ i + 1 = n.children.length ∧ (expr e').isClamp = false ∧
          c = .expr (e'.clampTo ranges symbol)) := by
  rw [within?_concat] at hc
  obtain ⟨m, hm, hc⟩ := Option.bind_eq_some_iff.mp hc
  have hm' := map_inside_clampRanges hp h hr b
  rw [hm, Option.map_some] at hm'
  obtain ⟨n, hn, hnm⟩ := Option.map_eq_some_iff.mp hm'.symm
  rw [← hnm] at hc
  have hch : (n.transform commonUnits).children = n.children.map (Node.transform commonUnits) :=
    children_keep (fun _ _ => rfl) n
  have hclamp : ∀ k ∈ (n.transform commonUnits).children, k.isClamp = false := by
    rw [hch, forall_mem_map]
    intro k hk
    rw [isClamp_transform]
    exact hp.not_isClamp h (mem_nodes_of_mem_children (mem_nodes.mpr ⟨b, hn⟩) hk)
  have hi := lt_of_getElem? hc
  rw [length_children_transform, length_children_transform] at hi
  have hc := child_clamps hclamp hc
  simp only [store?_transform, length_children_transform, Option.map_eq_some_iff, Prod.exists, Prod.mk.injEq] at hc
  refine ⟨n, hn, hi, hc.imp ?_ ?_⟩
  · rintro ⟨hk, hs⟩
    exact ⟨hk, fun symbol e he => hs symbol _ ⟨symbol, e, he, rfl, rfl⟩⟩
  · rintro ⟨symbol, _, ⟨_, e, he, rfl, rfl⟩, hi', rfl⟩
    obtain ⟨cs, -, hcs⟩ := children_store commonUnits he
    refine ⟨_, e, _, he, hi', (isClamp_transform _ (.expr _)).trans (hclamp _ ?_), rfl⟩
    simp [hcs]

lemma clamped_clampRanges (hc : (unit q').within? a = some c) : c.isClamp ↔ ∃ r, q.Ranged a r := by
  induction a using reverseRecOn with
  | nil =>
    cases hc
    refine iff_of_false (by simp [isClamp]) ?_
    rintro ⟨r, hg⟩
    generalize ha : [] = a at hg
    cases hg <;> simp at ha
  | append_singleton b i _ =>
    obtain ⟨n, hn, hi, ⟨hclamp, hs⟩ | ⟨symbol, e, e', hs, hi', he', rfl⟩⟩ := child_clampRanges hp h hr hc
    · refine iff_of_false (by simp [hclamp]) ?_
      rintro ⟨r, hg⟩
      obtain ⟨symbol, e, hs', hi', -⟩ := lookup_of_ranged hp h hr hn hi hg
      exact hs symbol e hs' hi'
    · constructor
      · intro hclamp
        unfold Expr.clampTo at hclamp
        split at hclamp
        · rename_i r hl
          exact ranged_of_lookup hp h hr hn hs hi' hl
        · simp [he'] at hclamp
      · rintro ⟨r, hg⟩
        obtain ⟨symbol', e0, hs', -, hl⟩ := lookup_of_ranged hp h hr hn hi hg
        cases hs.symm.trans hs'
        rw [Expr.clampTo, hl]
        rfl

lemma bounds_clampRanges {min max} (hc : (unit q').within? a = some (.expr (.clamp l e min max)))
    (hg : q.Ranged a r) : l = e.loc ∧ (expr e).isClamp = false ∧ min = r.inCommonUnits.min ∧ max =
    r.inCommonUnits.max := by
  induction a using reverseRecOn with
  | nil => cases hc
  | append_singleton b i _ =>
    obtain ⟨n, hn, hi, ⟨hclamp, -⟩ | ⟨symbol, e0, e', hs, hi', he', hc'⟩⟩ := child_clampRanges hp h hr hc
    · cases hclamp
    · obtain ⟨symbol', e1, hs', -, hl⟩ := lookup_of_ranged hp h hr hn hi hg
      cases hs.symm.trans hs'
      rw [Expr.clampTo, hl] at hc'
      cases hc'
      exact ⟨rfl, he', rfl, rfl⟩

lemma node_of_clamped {m : Node} (hm : m ∈ (unit q').nodes) :
    (∃ n ∈ (unit q).nodes, m = (n.transform commonUnits).transform (clamps ranges)) ∨ m.isClamp ∨
      ∃ d ∈ q.vars, ∃ x ∈ ofRange? d.range, ∃ n ∈ x.nodes, m = n.transform commonUnits := by
  rw [eq_insertClamps hr] at hm
  obtain ⟨k, hk, hmk⟩ := comesFrom_of_mem_nodes (n := .unit q.convertUnits) mem_nodes_clampTo hm
  obtain ⟨n, hn, rfl⟩ := eq_transform_of_mem_nodes (n := .unit q) (fun _ _ => rfl) hk
  rcases hmk with hmk | ⟨symbol, e, -, hmk⟩
  · exact .inl ⟨n, hn, hmk⟩
  · unfold Node.clamping at hmk
    split at hmk
    · rename_i r hl
      obtain ⟨id, -, hl⟩ := Option.bind_eq_some_iff.mp hl
      obtain ⟨d, hd, -, hdr⟩ := (hp.lookup_ranges_iff h hr).mp hl
      obtain ⟨⟨min, max⟩, hrange, rfl⟩ := Option.map_eq_some_iff.mp hdr
      have bound {x : Expr} (hm : m ∈ (expr (x.transform commonUnits)).nodes) :=
        eq_transform_of_mem_nodes (n := .expr x) (fun _ _ => rfl) hm
      rcases mem_cons.mp hmk with rfl | hmk
      · exact .inr (.inl rfl)
      · refine .inr (.inr ⟨d, hd, ?_⟩)
        rw [hrange]
        rcases mem_append.mp hmk with hmk | hmk
        · exact ⟨_, .head _, bound hmk⟩
        · exact ⟨_, .tail _ (.head _), bound hmk⟩
    · cases hmk

lemma no_units_clampRanges {v} {unit}
    (hm : Node.expr (.literal l (.number v unit)) ∈ (Node.unit q').nodes) : unit = none := by
  -- Such a literal is one of the converted program, or stands in bounds, which are converted as well.
  have hconv : ∃ k : Node, .expr (.literal l (.number v unit)) = k.transform commonUnits := by
    rcases node_of_clamped hp h hr hm with ⟨n, -, hn⟩ | hclamp | ⟨-, -, -, -, n, -, hn⟩
    · obtain ⟨v', hn, rfl⟩ := eq_literal_of_transform _ hn.symm
      exact ⟨n, hn.symm⟩
    · cases hclamp
    · exact ⟨n, hn⟩
  obtain ⟨k, hk⟩ := hconv
  obtain ⟨w, -, hw⟩ := eq_literal_of_transform _ hk.symm
  rcases w with ⟨v', _ | unit'⟩ | text | b
  · cases hw
    rfl
  · cases hw
    rfl
  · cases hw
  · cases hw

end

lemma convertedFrom_transform (e : Expr) : (e.transform commonUnits).ConvertedFrom e := by
  intro a
  rw [show expr (e.transform commonUnits) = (expr e).transform commonUnits from rfl,
    at?_keep (fun _ _ => rfl), Option.map_map]
  congr 1
  funext n
  exact bare_transform commonUnits n

/-- Clamping converts all literals, clamps what is stored into variables with ranges, and changes nothing else. -/
theorem clampRanges_clampedFrom (hp : p.Read) (h : p.resolveNames = (q, .ok t))
    (hr : q.clampRanges = (q', .ok ranges)) : q'.ClampedFrom q where
  nodes := nodes_clampRanges hp h hr
  no_units _ _ _ hm := no_units_clampRanges hp h hr hm
  clamped _ _ hc := clamped_clampRanges hp h hr hc
  bounds a l e min max r hc hg := by
    obtain ⟨hl, he, rfl, rfl⟩ := bounds_clampRanges hp h hr hc hg
    exact ⟨hl, he, convertedFrom_transform r.min, convertedFrom_transform r.max⟩

end Program

namespace Sample

def rangesOf (p : Program) : RangeTable :=
  match p.clampRanges.2 with
  | .ok ranges => ranges
  | .error _ => []

def passes (text : String) : Bool :=
  match Program.ofText "main" text with
  | .ok p => isResolved p && p.resolveNames.1.clampRanges.2.isOk
  | .error _ => false

lemma read_ofText {text} (h : (Program.ofText "main" text).isOk) : (ofText text).Read := by
  unfold ofText
  cases ht : Program.ofText "main" text with
  | error e => simp [ht, Except.isOk, Except.toBool] at h
  | ok p => exact .text ht

lemma clampRanges_eq {q : Program} (h : q.clampRanges.2.isOk) :
    q.clampRanges = (q.clampRanges.1, .ok (rangesOf q)) := by
  have hr : q.clampRanges.2 = .ok (rangesOf q) := by
    unfold rangesOf
    cases hc : q.clampRanges.2 with
    | ok ranges => rfl
    | error e => simp [hc, Except.isOk, Except.toBool] at h
  rw [← hr]

lemma of_passes (text : String) (h : passes text = true) : (ofText text).Read ∧
    (ofText text).resolveNames = ((ofText text).resolveNames.1, .ok (tableOf (ofText text))) ∧
    (ofText text).resolveNames.1.clampRanges = ((ofText text).resolveNames.1.clampRanges.1,
      .ok (rangesOf (ofText text).resolveNames.1)) := by
  unfold passes at h
  unfold ofText
  cases ht : Program.ofText "main" text with
  | error e => simp [ht] at h
  | ok p =>
    simp only [ht, Bool.and_eq_true] at h
    exact ⟨.text ht, resolveNames_eq h.1, clampRanges_eq h.2⟩

def delayText : String := "mut int d in 0...2s = 5ms\nfn f(int x) { d = x }"

theorem delay_clampedFrom : (ofText delayText).Read ∧
    (ofText delayText).resolveNames = ((ofText delayText).resolveNames.1, .ok (tableOf (ofText delayText))) ∧
    (ofText delayText).resolveNames.1.clampRanges = ((ofText delayText).resolveNames.1.clampRanges.1,
      .ok (rangesOf (ofText delayText).resolveNames.1)) ∧
    (ofText delayText).resolveNames.1.clampRanges.1.ClampedFrom (ofText delayText).resolveNames.1 := by
  obtain ⟨hp, h, hr⟩ := of_passes delayText (by decide +kernel)
  exact ⟨hp, h, hr, Program.clampRanges_clampedFrom hp h hr⟩

end Sample

end SketchCompiler
