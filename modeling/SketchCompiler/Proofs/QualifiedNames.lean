import SketchCompiler.Proofs.ModulePaths
import SketchCompiler.Proofs.SignalDispatch

namespace SketchCompiler

open SpotPart SymbolTable List Node Emit

section Units

variable {u t t₁ t₂ : SymbolTable} {path : List String} {s : ScopeId} {q : Program} {items : List Item} {i : Item}
  {id : SymbolId}

lemma RanFrom.scope_of_item (h : RanFrom u path s q t t₁ t₂ items) (hi : i ∈ q.items) (hid : i.symbol? = some id) :
    (u.get id).scope = s := by
  obtain ⟨hsound, hnames⟩ := h.names
  obtain ⟨x, hx, hxid⟩ := Item.exists_ownBinder hid
  have hmem : x ∈ q.items.flatMap Item.binders ++ (ofNodes (q.items.map .item)).flatMap SpotPart.own := by
    rw [mem_append]
    by_cases hbinder : (item i).binder? = some x
    · refine .inr ?_
      simp only [ofNodes, map_map, flatMap_map, mem_flatMap]
      exact ⟨i, hi, Option.mem_toList.mpr hbinder⟩
    · refine .inl (mem_flatMap.mpr ⟨i, hi, ?_⟩)
      cases i with
      | var | aliasDecl => exact absurd hx hbinder
      | _ => exact mem_of_head? hx
  obtain ⟨id', hn, -, hs⟩ := hnames.added hmem
  obtain rfl : id' = id := by
    rcases hs with hs | ⟨-, hs⟩
    · exact Option.some.inj (hs.symm.trans hxid)
    · cases hs.symm.trans hxid
  rw [h.ends.later.scope_eq (hsound.named_lt hn)]
  exact (hsound.get_named hn).2

lemma RanFrom.path_eq (h : RanFrom u path s q t t₁ t₂ items) : (u.scope s).path = path := by
  obtain ⟨kind, -, hscope⟩ := h.scope_eq
  have hd := h.hoist.adds h.sound h.lt
  have hlt := h.lt.trans_le hd.scopes_le
  have hw := h.walk.adds hd.sound hlt
  rw [h.ends.later.path_eq (hlt.trans_le hw.scopes_le), hw.path_eq hlt, hd.path_eq h.lt, hscope]

end Units

lemma Node.member_of_transform {f : Transform} {n : Node} {l object name symbol}
    (h : expr (.member l object name symbol) = n.transform f) :
    ∃ o, n = expr (.member l o name symbol) ∧ object.symbol? = o.symbol? := by
  cases n with
  | expr e =>
    cases e with
    | member => cases h; exact ⟨_, rfl, symbol?_transform f _⟩
    | _ => cases h
  | _ => cases h

/-- The name of the namespace or type that an item makes in the sketch. -/
def Item.scopeName? : Item → Option String
  | .module _ aliasName _ _ _ => some aliasName.text
  | .enumDecl _ d => some d.name.text
  | .structDecl _ d => some d.name.text
  | .classDecl _ d => some d.name.text
  | _ => none

/-- Where the target finds a name with the given parts, in code that stands in the namespaces `ns`: the first of several
parts is a namespace or type, which is looked up in these namespaces from the innermost outwards. -/
def Leads (scopes : List String → String → Prop) (ns names path : List String) : Prop :=
  match names with
  | first :: _ :: _ => ∃ ms, path = ms ++ names ∧ ms <+: ns ∧ scopes ms first ∧
      ∀ ls, ls <+: ns → scopes ls first → ls <+: ms
  | _ => ns = [] ∧ path = names

lemma leads_self_iff {scopes : List String → String → Prop} {first : String} {ns rest : List String}
    (hrest : rest ≠ []) (hfirst : scopes [] first) : Leads scopes ns (first :: rest) (first :: rest) ↔
      ∀ ls, ls <+: ns → ls ≠ [] → ¬ scopes ls first := by
  obtain ⟨x, rest, rfl⟩ := exists_cons_of_ne_nil hrest
  constructor
  · rintro ⟨ms, hpath, -, -, hinner⟩ ls hls hne hscope
    obtain rfl : ms = [] := by simpa using hpath
    exact hne (prefix_nil.mp (hinner ls hls hscope))
  · intro hinner
    refine ⟨[], rfl, nil_prefix, hfirst, fun ls hls hscope => ?_⟩
    by_cases hne : ls = []
    · rw [hne]
    · exact absurd hscope (hinner ls hls hne)

namespace Program

variable {p u : Program} {k : Scene} {o a b d : List Nat} {m : Nat} {i : Item} {r : Role} {x : List Nat × Role}

/-- Among what is written, the namespaces `ns` have got a namespace or type of this name. -/
def HasScope (p : Program) (written : List Nat × Role → Prop) (ns : List String) (name : String) : Prop :=
  ∃ c i, (unit p).at? c = some (.item i) ∧ i.scopeName? = some name ∧ p.aliasesTo c = ns ∧
    written (c, i.declarationRole)

/-- In the piece `x`, the name of what is defined in the item at `b` leads there. -/
def Finds (k : Scene) (p : Program) (x : List Nat × Role) (b : List Nat) (name : String) : Prop :=
  Leads (p.HasScope fun y => y = x ∨ p.Precedes k y x) (p.aliasesTo x.1) (p.aliasesTo b ++ [name])
    (p.aliasesTo b ++ [name])

/-- Up to the piece `x`, a namespace or type inside of the outermost namespace around the piece has the name of that
namespace, and stands in one of the namespaces around the piece. -/
def HidesOutermost (k : Scene) (p : Program) (x : List Nat × Role) : Prop :=
  ∃ first ns, (p.aliasesTo x.1).head? = some first ∧ ns <+: p.aliasesTo x.1 ∧ ns ≠ [] ∧
    p.HasScope (fun y => y = x ∨ p.Precedes k y x) ns first

lemma aliasesTo_append {p u : Program} {o : List Nat} (ho : (unit p).at? o = some (.unit u)) (m : Nat) (c : List Nat) :
    p.aliasesTo (o ++ c) = p.aliasesTo (o ++ [m]) ++ u.aliasesTo c := by
  match o, ho with
  | [], ho =>
    cases ho
    rfl
  | j :: o, ho =>
    obtain ⟨c', hc, ho⟩ := Option.bind_eq_some_iff.mp ho
    rw [children, getElem?_map] at hc
    obtain ⟨i, hi, rfl⟩ := Option.map_eq_some_iff.mp hc
    obtain ⟨l, aliasName, path, symbol, w, o', rfl, rfl, ho'⟩ := module_of_unit_at? ho
    rw [cons_append, cons_append, cons_append, cons_append, aliasesTo_below hi, aliasesTo_below hi,
      aliasesTo_append ho' m c, cons_append]
termination_by o.length

lemma module_of_head {first : String} (h : (p.aliasesTo b).head? = some first) : ∃ j n c l aliasName file symbol w,
    b = j :: n :: c ∧ p.items[j]? = some (.module l aliasName file symbol w) ∧ aliasName.text = first := by
  unfold aliasesTo at h
  split at h
  · rename_i j n c
    split at h
    · rename_i l aliasName file symbol w hj
      exact ⟨j, n, c, l, aliasName, file, symbol, w, rfl, hj, Option.some.inj h⟩
    · cases h
  · cases h

/-- The outermost namespace of what the code of an item may refer to is there before the code. -/
lemma hasScope_outermost {first : String} (ha : (unit p).at? (o ++ [m]) = some (.item i)) (hr : r.isCommon)
    (h : (p.aliasesTo (o ++ d)).head? = some first) :
    p.HasScope (fun y => y = (o ++ [m], r) ∨ p.Precedes k y (o ++ [m], r)) [] first := by
  obtain ⟨j, n, c, l, aliasName, file, symbol, w, hb, hj, rfl⟩ := module_of_head h
  have hmodule : (unit p).at? [j] = some (.item (.module l aliasName file symbol w)) := at?_item (o := []) rfl hj
  refine ⟨[j], _, hmodule, rfl, rfl, .inr ?_⟩
  rw [precedes_iff_before hmodule ha (Item.suits_declarationRole _) hr]
  match o, hb with
  | [], _ => exact .inl (Role.stage_pos hr)
  | [j'], hb =>
    obtain rfl := (cons.inj hb).1
    exact ⟨rfl, le_rfl⟩
  | j' :: n' :: o, hb =>
    obtain rfl := (cons.inj hb).1
    exact ⟨rfl, le_rfl⟩

/-- Outside of all namespaces, a qualified name leads to what it is the name of. -/
lemma leads_outside (p : Program) (b : List Nat) (name : String) :
    Leads (p.HasScope fun _ => True) [] (p.aliasesTo b ++ [name]) (p.aliasesTo b ++ [name]) := by
  rcases hb : p.aliasesTo b with _ | ⟨first, rest⟩
  · exact ⟨rfl, rfl⟩
  · obtain ⟨j, n, c, l, aliasName, file, symbol, w, -, hj, rfl⟩ := module_of_head (by rw [hb]; rfl)
    rw [cons_append, leads_self_iff (by simp) ⟨[j], _, at?_item (o := []) rfl hj, rfl, rfl, trivial⟩]
    exact fun ls hls hne => absurd (prefix_nil.mp hls) hne

lemma finds_iff (name : String) (ho : (unit p).at? o = some (.unit u)) (ha : (unit p).at? (o ++ [m]) = some (.item i))
    (hr : r.isCommon) (d : List Nat) :
    p.Finds k (o ++ [m], r) (o ++ d) name ↔ ¬ p.HidesOutermost k (o ++ [m], r) := by
  have hpath := aliasesTo_append ho m d
  unfold Finds HidesOutermost
  rcases hb : p.aliasesTo (o ++ d) with _ | ⟨first, rest⟩
  · -- What the main unit defines is named in the main unit only.
    rw [hb] at hpath
    have hnone := (append_eq_nil_iff.mp hpath.symm).1
    simp [Leads, hnone]
  · have hscope := hasScope_outermost (k := k) ha hr (by rw [hb]; rfl : (p.aliasesTo (o ++ d)).head? = some first)
    rw [cons_append, leads_self_iff (by simp) hscope]
    rw [hb] at hpath
    constructor
    · rintro h ⟨first', ns, hhead, hns, hne, hscope'⟩
      obtain ⟨rest', hrest⟩ := head?_eq_some_iff.mp hhead
      rw [hrest, cons_append] at hpath
      exact h ns hns hne ((cons.inj hpath).1 ▸ hscope')
    · intro h ls hls hne hscope'
      obtain ⟨y, ys, hys⟩ := exists_cons_of_ne_nil (fun hnil => hne (prefix_nil.mp (hnil ▸ hls)) :
        p.aliasesTo (o ++ [m]) ≠ [])
      rw [hys, cons_append] at hpath
      exact h ⟨first, ls, by rw [hys, (cons.inj hpath).1]; rfl, hls, hne, hscope'⟩

end Program

namespace Program

variable {p q q' : Program} {t : SymbolTable} {ranges : RangeTable} {a b : List Nat} {i : Item} {id : SymbolId}
  {l : Location} {r : Reference}

lemma path_of_item (h : p.resolveNames = (q, .ok t)) (hb : (unit q).at? b = some (.item i))
    (hid : i.symbol? = some id) : (t.scope (t.get id).scope).path = q.aliasesTo b := by
  obtain ⟨s₀, hran⟩ := unitRan h
  obtain ⟨s, v, hi, hran⟩ := hran.of_item_at? hb
  cases hran with
  | mk hr _ _ => rw [hr.scope_of_item hi hid, hr.path_eq, nil_append]

lemma qualifiedPath_eq (h : p.resolveNames = (q, .ok t)) (hb : (unit q).at? b = some (.item i))
    (hi : i.Introduces t id) : t.qualifiedPath id = q.aliasesTo b ++ [(t.get id).name] := by
  unfold qualifiedPath
  cases hi with
  | own hid => rw [path_of_item h hb hid]
  | variant hd _ _ _ _ hs => rw [hs, path_of_item h hb hd]

/-- The signal is emitted at the node, or handled there. -/
def Signals (r : Reference) : Node → Prop
  | .stmt (.emit _ r') | .item (.event _ (.signal r') _) => r' = r
  | _ => False

lemma Read.item_of_signal (hp : p.Read) (h : p.resolveNames = (q, .ok t)) {blockOf : ScopeId → Block} {name}
    (hd : q.Denotes t blockOf a name id) (hk : t.kind id = .signal) :
    ∃ b l name, (unit q).at? b = some (.item (.signal l name (some id))) := by
  cases hd with
  | builtin _ _ _ hb => cases hk.symm.trans hb
  | declared _ _ hin _ hst =>
    obtain ⟨hx, hsymbol⟩ := hst
    rw [hk] at hx
    have hsymbol := hsymbol.resolve_right fun hv => by cases hx.trans hv.1
    obtain ⟨since, hd, -⟩ := hin
    -- Only the items of a unit declare signals.
    cases hd with
    | header ho hm =>
      unfold header at hm
      split at hm
      · obtain ⟨i, hi, hm⟩ := mem_flatMap.mp hm
        obtain ⟨j, hj⟩ := getElem?_of_mem hi
        have hid := Item.symbol?_of_binder (.inl hm) hsymbol
        obtain ⟨y, hy, -, hkind⟩ := hp.binder_of_item h (at?_item ho hj) hid
        rw [hk] at hkind
        cases i with
        | signal l name symbol =>
          cases hid
          exact ⟨_, l, name, at?_item ho hj⟩
        | var l d =>
          cases hy
          unfold VarDecl.binder at hkind
          dsimp only at hkind
          split at hkind <;> cases hkind
        | _ => cases hy <;> cases hkind
      all_goals
        first
        | obtain ⟨v, -, rfl⟩ := mem_map.mp hm
          cases hx
        | cases hm
    | behind _ hb _ =>
      unfold binder? at hb
      split at hb
      case h_4 => cases hb
      all_goals
        cases hb
        first
        | cases hx
        | unfold VarDecl.binder at hx
          dsimp only at hx
          split at hx <;> cases hx

lemma Read.exists_signal (hp : p.Read) (h : p.resolveNames = (q, .ok t)) {n} (ha : (unit q).at? a = some n)
    (hn : Signals r n) : ∃ o j l name id, (unit q).at? (o ++ [j]) = some (.item (.signal l name (some id))) ∧
      r.symbol = some id ∧ ⟨o, 0⟩ ∈ q.blocksAt a := by
  obtain ⟨F, blockOf, ht, hq, hF⟩ := unitBlocks h
  obtain ⟨⟨owner, v, hv, hf⟩, hread⟩ :
      (∃ owner v, v.Keeps t ∧ n.Finds owner v) ∧ ¬ (q.InConfig a ∨ q.InFieldRange a) := by
    cases n with
    | stmt s =>
      have hread := hp.not_unread h ha
      obtain ⟨b, i, j, c, rfl, hb, hi⟩ := exists_item_above ha rfl
      obtain ⟨owner, t₀, -, -, hf⟩ := findsBelow_in_item hp h hb hi ha
      obtain ⟨v, -, hv, hf⟩ := hf _ mem_nodes_self
      exact ⟨⟨owner, v, hv, hf⟩, hread⟩
    | item i =>
      cases i with
      | event l kind body =>
        obtain ⟨t₀, -, -, hf⟩ := findsBelow_of_item h ha
        obtain ⟨v, -, hv, hf⟩ := hf _ mem_nodes_self
        exact ⟨⟨none, v, hv, hf⟩, fun hu => absurd (unnumbered_of_unread hp.unnumbered h hu ha).1 nofun⟩
      | _ => cases hn
    | _ => cases hn
  obtain ⟨x, env, hx, hxr, rfl⟩ := (meets_or_unread ha).resolve_right hread
  obtain ⟨href, hk⟩ : x.reference? = some r ∧ ∀ id, r.symbol = some id → v.kind id = .signal := by
    generalize hxn : x.toNode = n at hn hf
    unfold Signals at hn
    split at hn
    case h_3 => cases hn
    all_goals
      obtain rfl := hn
      refine ⟨?_, hf⟩
      cases x <;> cases hxn <;> first | rfl | cases hxr
  obtain ⟨id, hid, -, hden⟩ := hx.denotes hq hF href
  have hkind := (hv.kind_eq (by rw [hk id hid]; nofun)).trans (hk id hid)
  obtain ⟨b, l, name, hb⟩ := hp.item_of_signal h hden hkind
  obtain ⟨o, j, u, rfl, ho, hj⟩ := unit_above_item hb
  obtain ⟨-, -, -, -, -, hblock⟩ := symbol_of_item hp h ht hq hF ho hj rfl
  refine ⟨o, j, l, name, id, hb, hid, ?_⟩
  -- The scope of the signal is one of those that are seen from the place.
  obtain ⟨ss, hss, ⟨-, hbuiltin⟩ | ⟨hmem, -⟩⟩ := ((denotes_iff ha).mp hden).1
  · cases hkind.symm.trans hbuiltin
  · rw [← hss.1, ← hblock]
    exact mem_map_of_mem hmem

/-- The text is the qualified name of something that the item at `b` defines. -/
structure Qualifies (k : Scene) (p : Program) (b : List Nat) (name text : String) : Prop where
  qualified : text = qualify (p.aliasesTo b) name
  defined : p.DefinesAt k b name

/-- The text is the qualified name of the flag of a signal. -/
def QualifiesFlag (k : Scene) (p : Program) (id : SymbolId) (text : String) : Prop :=
  ∃ b l name, (unit p).at? b = some (.item (.signal l name (some id))) ∧
    p.Qualifies k b (Scene.signalFlag name.text) text

lemma Read.object_of_member (hp : p.Read) (h : p.resolveNames = (q, .ok t)) (hr : q.clampRanges = (q', .ok ranges))
    {object name} (he : .expr (.member l object name (some id)) ∈ (unit q').nodes) (hid : t.isGlobal id) :
    ∃ m, object.symbol? = some m ∧ t.kind m = .moduleAlias := by
  obtain ⟨F, ht, -, -⟩ := unitsResolved h
  -- The member is one of the resolved program, also where it was copied with bounds.
  obtain ⟨o, ho, hsymbol⟩ : ∃ o, .expr (.member l o name (some id)) ∈ (unit q).nodes ∧ object.symbol? = o.symbol? := by
    rcases node_of_clamped hp h hr he with ⟨n, hn, hnm⟩ | hclamp | ⟨d, hd, x, hx, n, hn, hnm⟩
    · obtain ⟨o₁, ho₁, hs₁⟩ := member_of_transform hnm
      obtain ⟨o, rfl, hs⟩ := member_of_transform ho₁.symm
      exact ⟨o, hn, hs₁.trans hs⟩
    · cases hclamp
    · obtain ⟨o, rfl, hs⟩ := member_of_transform hnm
      have hvar := (mem_vars (n := .unit q)).mp hd
      exact ⟨o, mem_nodes_trans (mem_nodes_of_mem_children hvar (mem_append_left _ hx)) hn, hs⟩
  obtain ⟨a, ha⟩ := mem_nodes.mp ho
  obtain ⟨m, -, hm, hk, -⟩ := hp.module_of_member h ht ha (kind_ne_members hid)
  exact ⟨m, hsymbol.trans hm, hk⟩

lemma signals_of_transform {f : Transform} {n : Node} (h : Signals r (n.transform f)) : Signals r n := by
  cases n with
  | stmt s => cases s <;> exact h
  | item i =>
    cases i with
    | event l kind body => cases kind <;> exact h
    | _ => exact h
  | _ => exact h

lemma introduces_of_transform {f : Transform} (h : (i.transform f).Introduces t id) : i.Introduces t id := by
  generalize hi : i.transform f = j at h
  cases h with
  | own h => exact .own (by rw [← Item.symbol?_transform f, hi, h])
  | variant hd he hv hk hn hs =>
    cases i <;> cases hi
    exact .variant hd he hv hk hn hs

lemma Read.code_eq (k : Scene) (hp : p.Read) (h : p.resolveNames = (q, .ok k.table))
    (hr : q.clampRanges = (q', .ok ranges)) {e : Expr} (he : .expr e ∈ (unit q').nodes) (hid : e.symbol? = some id)
    (hglobal : k.table.isGlobal id) (hk : k.table.kind id ≠ .builtin) :
    e.code k = k.table.qualifiedName id "::" := by
  cases e with
  | name l r =>
    rw [Expr.code, Scene.reference, show r.symbol = some id from hid]
    simp [hk, hglobal]
  | member l object name symbol =>
    cases hid
    obtain ⟨m, hm, hmk⟩ := hp.object_of_member h hr he hglobal
    rw [Expr.code]
    unfold Scene.member
    split
    · cases hm
    · rw [hm, Option.map_some, hmk]
  | _ => cases hid

/-- The item at the place `a`, which is no module, emits the signal. -/
def Emits (p : Program) (a : List Nat) (r : Reference) : Prop :=
  ∃ i l, (unit p).at? a = some (.item i) ∧ (∀ l n f s u, i ≠ .module l n f s u) ∧ .stmt (.emit l r) ∈ (item i).nodes

lemma Read.stmt_of_clamped (hp : p.Read) (h : p.resolveNames = (q, .ok t)) (hr : q.clampRanges = (q', .ok ranges))
    (hi : (unit q).at? b = some (.item i)) {s : Stmt}
    (hs : .stmt s ∈ (item ((i.transform commonUnits).transform (clamps ranges))).nodes) :
    ∃ j c n, (unit q).at? (b ++ j :: c) = some n ∧ .stmt s = (n.transform commonUnits).transform (clamps ranges) := by
  obtain ⟨x, hx, hsx⟩ := comesFrom_of_mem_nodes (n := (item i).transform commonUnits) mem_nodes_clampTo hs
  obtain ⟨c, hc⟩ := mem_nodes.mp hx
  rw [at?_keep (fun _ _ => rfl)] at hc
  obtain ⟨n, hn, rfl⟩ := Option.map_eq_some_iff.mp hc
  rcases hsx with hsx | ⟨symbol, e, -, hm⟩
  · cases c with
    | nil =>
      cases hn
      cases hsx
    | cons j c =>
      refine ⟨j, c, n, ?_, hsx⟩
      rw [at?_append, hi]
      exact hn
  · -- Bounds have nothing but expressions in them.
    unfold clamping at hm
    split at hm
    · rename_i range hl
      obtain ⟨id, -, hl⟩ := Option.bind_eq_some_iff.mp hl
      obtain ⟨hmin, hmax⟩ := hp.plain_ranges h hr hl
      rcases mem_cons.mp hm with hclamp | hm
      · cases hclamp
      · rcases mem_append.mp hm with hm | hm
        · obtain ⟨e, he⟩ := hmin _ hm
          cases he
        · obtain ⟨e, he⟩ := hmax _ hm
          cases he
    · cases hm

lemma Read.qualifies_flag (k : Scene) (hp : p.Read) (h : p.resolveNames = (q, .ok k.table))
    (hr : q.clampRanges = (q', .ok ranges)) {name : Name}
    (hb : (unit q).at? b = some (.item (.signal l name (some id)))) (hid : r.symbol = some id) :
    q'.Qualifies k b (Scene.signalFlag name.text) (k.signalReference r) := by
  obtain ⟨x, hx, hname, -⟩ := hp.binder_of_item h hb rfl
  cases hx
  refine ⟨?_, definesAt k (clamped_of_item hr hb) (by simp [Item.codeNames, Item.madeNames, Item.transform])⟩
  rw [Scene.signalReference, hid, aliasesTo_clampRanges hr]
  dsimp only
  rw [path_of_item h hb rfl, hname]
  rfl

lemma Read.finds_iff_of_refers (k : Scene) (hp : p.Read) (h : p.resolveNames = (q, .ok t))
    (hr : q.clampRanges = (q', .ok ranges)) {role : Role} (hrole : role = .code ∨ role = .methods)
    (hb : (unit q).at? b = some (.item i)) (hi : i.symbol? = some id) (hid : t.isGlobal id)
    (hrefers : q'.Refers a role id) (name : String) :
    q'.Finds k (a, role) b name ↔ ¬ q'.HidesOutermost k (a, role) := by
  obtain ⟨o, m, u, rfl, -, hahead⟩ := hp.ahead_of_refers h hr hb hi hid hrole hrefers
  obtain ⟨i', -, -, ha, -⟩ := hrefers
  obtain ⟨o', m', u', hplace, ho, -⟩ := unit_above_item ha
  obtain ⟨rfl, -⟩ := append_inj' hplace rfl
  have hcommon : role.isCommon := by rcases hrole with rfl | rfl <;> rfl
  rcases hahead with ⟨j, rfl, -⟩ | ⟨j, c, rfl⟩
  · exact finds_iff name ho ha hcommon [j]
  · exact finds_iff name ho ha hcommon (j :: 0 :: c)

lemma Read.finds_iff_of_emits (k : Scene) (hp : p.Read) (h : p.resolveNames = (q, .ok k.table))
    (hr : q.clampRanges = (q', .ok ranges)) (hemits : q'.Emits a r) : ∃ b l name id,
      (unit q').at? b = some (.item (.signal l name (some id))) ∧ r.symbol = some id ∧
      q'.Qualifies k b (Scene.signalFlag name.text) (k.signalReference r) ∧ ∀ role : Role, role.isCommon →
        (q'.Finds k (a, role) b (Scene.signalFlag name.text) ↔ ¬ q'.HidesOutermost k (a, role)) := by
  obtain ⟨i', l, ha, hmodule, hs⟩ := hemits
  obtain ⟨i, hi, rfl⟩ := item_of_clamped hr ha
  have hmod : ∀ l n f s u, i ≠ .module l n f s u := by
    rintro l n f s u rfl
    exact hmodule _ _ _ _ _ rfl
  obtain ⟨j, c, m, hm, hsm⟩ := hp.stmt_of_clamped h hr hi hs
  have hsignals : Signals r ((m.transform commonUnits).transform (clamps ranges)) := by
    rw [← hsm]
    exact rfl
  obtain ⟨o, j', l', name, id, hb, hid, hblock⟩ :=
    hp.exists_signal h hm (signals_of_transform (signals_of_transform hsignals))
  obtain ⟨o', m', u, rfl, ho, -⟩ := unit_above_item hi
  obtain ⟨o'', m'', u', hplace, ho', -⟩ := unit_above_item ha
  obtain ⟨rfl, -⟩ := append_inj' hplace rfl
  -- The signal is one of the unit that emits it.
  obtain ⟨w, hw⟩ : ∃ w, (unit q).at? o = some (.unit w) := by
    obtain ⟨o₁, j₁, w, hplace, hw, -⟩ := unit_above_item hb
    exact ⟨w, (append_inj' hplace rfl).1 ▸ hw⟩
  rw [← append_cons] at hm hblock
  obtain rfl : o = o' := place_eq_of_mem_blocksAt ho hi hmod hm hw hblock
  exact ⟨o ++ [j'], l', name, id, clamped_of_item hr hb, hid, hp.qualifies_flag k h hr hb hid,
    fun role hrole => finds_iff _ ho' ha hrole [j']⟩

/-- A declaration at the top of a unit is referred to by the aliases of the modules around the unit and its name. The
unit is written in just these namespaces, and `loop()` outside of all of them, so each test there leads to the flag that
is defined for its signal. A name in the code of a unit leads to its definition just if no namespace or type that was
made in the namespaces around the code has taken the name of the outermost one. -/
theorem Read.names_found_iff (k : Scene) (hp : p.Read) (h : p.resolveNames = (q, .ok k.table))
    (hr : q.clampRanges = (q', .ok ranges)) :
    (∀ b i id, (Node.unit q').at? b = some (.item i) → i.Introduces k.table id →
      k.table.qualifiedName id "::" = qualify (q'.aliasesTo b) (k.table.get id).name) ∧
    (∀ b i, (Node.unit q').at? b = some (.item i) → ∃ xs s ys, q'.sketchPieces k =
      xs ++ ⟨b, .code, ((i.lines k (q'.aliasesTo b) (b.length = 1)).run s).1⟩ :: ys ∧ Opens [] xs (q'.aliasesTo b)) ∧
    (∀ n r, n ∈ (Node.unit q').nodes → Signals r n →
      ∃ id, r.symbol = some id ∧ q'.QualifiesFlag k id (k.signalReference r)) ∧
    (∃ head schedule loops, ∃ blocks : List (String × List String), ((q'.sketchLines k).run {}).1 =
      head ++ (.code 0 "void loop() \x7b" :: schedule ++
        (blocks.flatMap Dispatcher.block).map Dispatcher.Command.line ++ loops ++ [.code 0 "\x7d"]) ∧
      (∀ l r body, .item (.event l (.signal r) body) ∈ (Node.unit q').nodes →
        k.signalReference r ∈ blocks.map (·.1)) ∧
      ∀ x ∈ blocks, ∃ id, q'.QualifiesFlag k id x.1) ∧
    (∀ b name, Leads (q'.HasScope fun _ => True) [] (q'.aliasesTo b ++ [name]) (q'.aliasesTo b ++ [name])) ∧
    (∀ e id, .expr e ∈ (Node.unit q').nodes → e.symbol? = some id → k.table.isGlobal id →
      k.table.kind id ∈ [.var, .constant, .function, .task] → ∃ b i name, (Node.unit q').at? b = some (.item i) ∧
        i.symbol? = some id ∧ i.declaredName? = some name ∧ q'.Qualifies k b name (e.code k) ∧
        ∀ a role, role = .code ∨ role = .methods → q'.Refers a role id →
          (q'.Finds k (a, role) b name ↔ ¬ q'.HidesOutermost k (a, role))) ∧
    ∀ a r, q'.Emits a r → ∃ b l name id,
      (Node.unit q').at? b = some (.item (.signal l name (some id))) ∧ r.symbol = some id ∧
        q'.Qualifies k b (Scene.signalFlag name.text) (k.signalReference r) ∧ ∀ role : Role, role.isCommon →
          (q'.Finds k (a, role) b (Scene.signalFlag name.text) ↔ ¬ q'.HidesOutermost k (a, role)) := by
  have hflag {n r} (hn : n ∈ (Node.unit q').nodes) (hs : Signals r n) :
      ∃ id, r.symbol = some id ∧ q'.QualifiesFlag k id (k.signalReference r) := by
    obtain ⟨m, hm, rfl⟩ := hp.of_clamped h hr hn (by rintro e rfl; exact hs)
    obtain ⟨a, ha⟩ := mem_nodes.mp hm
    obtain ⟨o, j, l, name, id, hb, hid, -⟩ := hp.exists_signal h ha (signals_of_transform (signals_of_transform hs))
    exact ⟨id, hid, o ++ [j], l, name, clamped_of_item hr hb, hp.qualifies_flag k h hr hb hid⟩
  refine ⟨fun b i id hb hi => ?_, fun b i hb => ?_, fun n r => hflag, ?_,
    q'.leads_outside, fun e id he hid hglobal hk => ?_, fun a r hemits => hp.finds_iff_of_emits k h hr hemits⟩
  · obtain ⟨i₀, hb₀, rfl⟩ := item_of_clamped hr hb
    have hi₀ := introduces_of_transform (introduces_of_transform hi)
    rw [qualifiedName, qualifiedPath_eq h hb₀ hi₀, aliasesTo_clampRanges hr]
    rfl
  · obtain ⟨xs, ys, s, -, hpieces, hopens⟩ := codePiece_eq k hb
    exact ⟨xs, s, ys, hpieces, hopens⟩
  · obtain ⟨head, schedule, loops, hlines⟩ := q'.run_sketchLines k
    have hflags {f} := (q'.grouped_dispatch k).flags (f := f)
    refine ⟨head, schedule, loops, _, hlines, fun l r body hn => ?_, fun x hx => ?_⟩
    · obtain ⟨a, ha⟩ := mem_nodes.mp hn
      exact hflags.mpr (mem_map_of_mem (mem_dispatched.mpr ⟨a, l, r, body, ha, rfl⟩))
    · obtain ⟨y, hy, hyx⟩ := mem_map.mp (hflags.mp (mem_map_of_mem hx))
      obtain ⟨a, l, r, body, ha, rfl⟩ := mem_dispatched.mp hy
      obtain ⟨id, -, hnames⟩ := hflag (r := r) (mem_nodes.mpr ⟨a, ha⟩) rfl
      exact ⟨id, hyx ▸ hnames⟩
  · obtain ⟨b, i, hb, hi⟩ := exists_item h hglobal (by rintro hv; simp [hv] at hk)
    obtain ⟨x, hx, hname, hkind⟩ := hp.binder_of_item h hb hi
    have hcode := hp.code_eq k h hr he hid hglobal (by rintro hv; simp [hv] at hk)
    have hdeclared : i.declaredName? = some x.name.text := by
      rw [hkind] at hk
      cases i with
      | var | aliasDecl | function | task => cases hx; rfl
      | _ => cases hx <;> simp at hk
    have hb' := clamped_of_item hr hb
    refine ⟨b, _, x.name.text, hb', ?_, ?_, ⟨?_, definesAt k hb' ?_⟩,
      fun a role hrole hrefers => hp.finds_iff_of_refers k h hr hrole hb hi hglobal hrefers _⟩
    · rw [Item.symbol?_transform, Item.symbol?_transform, hi]
    · rw [Item.declaredName?_transform, Item.declaredName?_transform, hdeclared]
    · rw [hcode, qualifiedName, qualifiedPath_eq h hb (.own hi), hname, aliasesTo_clampRanges hr]
      rfl
    · simp [Item.codeNames, Item.declaredName?_transform, hdeclared]

end Program

namespace Sample

def echoedText : String := "@main\nload <m.ys>"

/-- The module `m` loads another one by the name `m`, and both have a signal `s`. -/
def echoed : Program := ((ofText echoedText).link (.ofFiles
  [("m.ys", "load <n.ys> as m\nsignal s\nfn f() { emit s }\non s { }"),
    ("n.ys", "signal s\non s { }")])).1

def emittedAt? (p : Program) (a : List Nat) : Option Reference :=
  match (Node.unit p).at? a with
  | some (.item (.function _ ⟨_, _, _, .emit _ r :: _, _⟩)) => some r
  | _ => none

lemma emits_of_emittedAt? {p : Program} {a : List Nat} {r : Reference} (h : emittedAt? p a = some r) : p.Emits a r := by
  unfold emittedAt? at h
  split at h
  case h_2 => cases h
  case h_1 ha =>
    cases h
    exact ⟨_, _, ha, by simp, mem_nodes_iff.mpr (.inr ⟨_, mem_cons_self, mem_nodes_self⟩)⟩

def scopeNameAt? (p : Program) (a : List Nat) : Option String :=
  match (Node.unit p).at? a with
  | some (.item i) => i.scopeName?
  | _ => none

/-- The flag of the inner module is set in place of that of the outer one. -/
theorem echoed_flag_missed : ∃ q q' ranges, echoed.Read ∧ echoed.resolveNames = (q, .ok (tableOf echoed)) ∧
    q.clampRanges = (q', .ok ranges) ∧ ∃ r b l name id, q'.Emits [0, 0, 2] r ∧
      (Node.unit q').at? b = some (.item (.signal l name (some id))) ∧ r.symbol = some id ∧
      ¬ q'.Finds (plainScene echoed) ([0, 0, 2], .code) b (Scene.signalFlag name.text) ∧
      Leads (q'.HasScope fun y => y = ([0, 0, 2], .code) ∨ q'.Precedes (plainScene echoed) y ([0, 0, 2], .code))
        (q'.aliasesTo [0, 0, 2]) ["m", "ys_signal_s"] ["m", "m", "ys_signal_s"] := by
  have hall : (Program.ofText "main" echoedText).isOk ∧ isResolved echoed ∧
      echoed.resolveNames.1.clampRanges.2.isOk ∧
      let q := echoed.resolveNames.1.clampRanges.1
      (emittedAt? q [0, 0, 2]).isSome ∧ scopeNameAt? q [0, 0, 0] = some "m" ∧ q.aliasesTo [0, 0, 0] = ["m"] ∧
        q.aliasesTo [0, 0, 2] = ["m"] := by decide +kernel
  obtain ⟨htext, hresolved, hclamped, hemitted, hscope, haliases, haliases'⟩ := hall
  have hread : echoed.Read := .link _ (read_ofText htext)
  have hnames := resolveNames_eq hresolved
  have hr := clampRanges_eq hclamped
  obtain ⟨-, -, -, -, -, -, hemits⟩ := Program.Read.names_found_iff (plainScene echoed) hread
    (by rw [plainScene_table]; exact hnames) hr
  obtain ⟨r, hemitted⟩ := Option.isSome_iff_exists.mp hemitted
  have hemit := emits_of_emittedAt? hemitted
  obtain ⟨b, l, name, id, hb, hid, -, hfinds⟩ := hemits _ r hemit
  -- The inner module is opened inside of the namespace `m`.
  obtain ⟨i, hi, hname⟩ : ∃ i, (Node.unit echoed.resolveNames.1.clampRanges.1).at? [0, 0, 0] = some (.item i) ∧
      i.scopeName? = some "m" := by
    unfold scopeNameAt? at hscope
    split at hscope
    case h_1 i hi => exact ⟨i, hi, hscope⟩
    case h_2 => cases hscope
  have hbefore : i.declarationRole.Before .code [0, 0, 0] [0, 0, 2] := by
    cases i with
    | module => exact .inr ⟨rfl, .inl (show Role.opening.stage < Role.code.stage by decide)⟩
    | enumDecl | structDecl | classDecl => exact .inr ⟨rfl, .inl (show Role.types.stage < Role.code.stage by decide)⟩
    | _ => cases hname
  obtain ⟨i', -, ha, -⟩ := emits_of_emittedAt? hemitted
  have hprecedes := (Program.precedes_iff_before (k := plainScene echoed) hi ha i.suits_declarationRole rfl).mpr hbefore
  refine ⟨_, _, _, hread, hnames, hr, r, b, l, name, id, hemit, hb, hid, fun hf => (hfinds _ rfl).mp hf ?_, ?_⟩
  · exact ⟨"m", ["m"], by rw [haliases']; rfl, by rw [haliases'], by simp, _, i, hi, hname, haliases, .inr hprecedes⟩
  · rw [haliases']
    exact ⟨["m"], rfl, prefix_rfl, ⟨_, i, hi, hname, haliases, .inr hprecedes⟩, fun _ hls _ => hls⟩

end Sample

end SketchCompiler
