import SketchCompiler.Proofs.ClampPlaces
import SketchCompiler.Sketch.Stmt

namespace SketchCompiler

open List Node

variable {d : ClassDecl} {l : Location}

lemma exists_item_above {q} {a : List Nat} {n : Node} (ha : (unit q).at? a = some n)
    (hn : n.isInner) : ∃ b i j c, a = b ++ j :: c ∧ (unit q).at? b = some (item i) ∧
      ∀ l aliasName path symbol p, i ≠ .module l aliasName path symbol p := by
  induction a using reverseRecOn generalizing n with
  | nil =>
    cases ha
    cases hn
  | append_singleton a j ih =>
    rw [at?_concat] at ha
    obtain ⟨m, hm, hj⟩ := Option.bind_eq_some_iff.mp ha
    cases m with
    | unit p =>
      obtain ⟨i, -, rfl⟩ := mem_map.mp (mem_of_getElem? hj)
      cases hn
    | item i =>
      refine ⟨a, i, j, [], rfl, hm, ?_⟩
      rintro l aliasName path symbol p rfl
      cases mem_singleton.mp (mem_of_getElem? hj)
      cases hn
    | _ =>
      obtain ⟨b, i, k, c, rfl, hb, hi⟩ := ih hm rfl
      exact ⟨b, i, k, c ++ [j], by simp, hb, hi⟩

lemma eq_stmt_of_inside {n : Node} {s} (h : n.inside = stmt s) : n = stmt s := by
  cases n with
  | expr e => cases e <;> cases h
  | _ => exact h

lemma Node.FindsBelow.of_mem {owner} {t u} {n m : Node}
    (h : n.FindsBelow owner t u) (hm : m ∈ n.nodes) : m.FindsBelow owner t u :=
  fun k hk => h k (mem_nodes_trans hm hk)

/-- The expression is not `self`, and stands for no module or enumeration. -/
structure Expr.IsOther (t : SymbolTable) (object : Expr) : Prop where
  ne_self : ∀ l, object ≠ .self l
  kind : ∀ id, object.symbol? = some id → t.kind id ≠ .moduleAlias ∧ t.kind id ≠ .enumType

section Symbols

variable {owner : Option SymbolId} {t₀ t : SymbolTable} {lm ls : Location} {object e : Expr} {name : Name}
  {symbol : Option SymbolId}

lemma Node.FindsBelow.target (h : (stmt (.assign l (.member lm object name symbol) e)).FindsBelow owner t₀ t) :
    ∃ v : SymbolTable, t₀.Keeps v ∧ v.Keeps t ∧ symbol = v.memberOf? owner object name.text :=
  h (expr (.member lm object name symbol)) (mem_nodes.mpr ⟨[0], rfl⟩)

lemma Node.FindsBelow.field_of_self {f : Located VarDecl}
    (h : (stmt (.assign l (.member lm (.self ls) name symbol) e)).FindsBelow owner t₀ t) (hd : d.HasMembers t₀)
    (ho : owner = none ∨ owner = d.symbol) (hf : f ∈ d.fields) (hn : f.value.name.text = name.text) :
    ∃ k, f.value.symbol = some k ∧ symbol = some k := by
  obtain ⟨id, m, hid, hm, hfields⟩ := hd
  obtain ⟨k, hk, hkm⟩ := hfields f hf
  obtain ⟨v, htv, -, hv⟩ := h.target
  obtain ⟨_, -, -, hself⟩ := h (expr (.self ls)) (mem_nodes.mpr ⟨[0, 0], rfl⟩)
  obtain rfl : owner = some id := (ho.resolve_left hself).trans hid
  refine ⟨k, hk, ?_⟩
  rw [hv, SymbolTable.memberOf?, ← hn]
  simp [Resolve.owner?, htv.members hm, htv.member hkm]

lemma Node.FindsBelow.symbol_eq_none
    (h : (stmt (.assign l (.member lm object name symbol) e)).FindsBelow owner t₀ t) (ho : object.IsOther t) :
    symbol = none := by
  obtain ⟨v, -, hvt, hv⟩ := h.target
  cases symbol with
  | none => rfl
  | some k =>
    simp only [SymbolTable.memberOf?, Option.bind_eq_bind, eq_comm (a := some k), Option.bind_eq_some_iff] at hv
    obtain ⟨id, hid, m, hm, -⟩ := hv
    rw [Resolve.owner?, Option.filter_eq_some_iff] at hid
    · have hkind := ho.kind id hid.1
      rw [SymbolTable.kind, hvt.get_eq (SymbolTable.lt_of_members hm)] at hkind
      simp_all [SymbolTable.kind]
    · exact ho.ne_self

end Symbols

def Expr.clamped (ranges : RangeTable) (e : Expr) : Expr := (e.transform commonUnits).transform (clamps ranges)

lemma Expr.IsOther.clamped {t} {object : Expr} (h : object.IsOther t) (ranges : RangeTable) :
    (object.clamped ranges).IsOther t where
  ne_self l hl := by
    cases object with
    | self l' => exact h.ne_self l' rfl
    | _ => cases hl
  kind id hid := h.kind id (by rwa [Expr.clamped, symbol?_transform, symbol?_transform] at hid)

/-- The statement is written as an assignment of the value to the place, both in the head of a loop and on a line. -/
structure Stmt.WrittenAs (k : Scene) (place value : String) (s : Stmt) : Prop where
  inline : s.inlineCode k = s!"{place} = {value}"
  line : ∀ depth n, ((s.lines k depth).run n).1.head? = some (.code depth s!"{place} = {value};")

lemma Stmt.writtenAs_assign {k} {target e : Expr} {place value} (ht : target.code k = place)
    (he : e.code k = value) : (Stmt.assign l target e).WrittenAs k place value := by
  subst ht he
  exact ⟨rfl, fun _ _ => rfl⟩

lemma Expr.IsOther.code_member {k : Scene} {object : Expr} (h : object.IsOther k.table) (l : Location) (name : Name) :
    (Expr.member l object name none).code k = object.operand k ++ "." ++ name.text := by
  change k.member object (object.code k) name.text none = _
  unfold Scene.member
  split
  case h_1 l => exact absurd rfl (h.ne_self l)
  case h_2 =>
    split
    case h_1 hsymbol => cases hsymbol
    case h_2 hkind =>
      obtain ⟨id, hid, hkind⟩ := Option.map_eq_some_iff.mp hkind
      exact absurd hkind (h.kind id hid).2
    case h_3 => rfl

namespace Program

variable {p q q' : Program} {t : SymbolTable} {ranges : RangeTable} {a b c : List Nat} {i : Item} {j : Nat} {s : Stmt}

lemma findsBelow_of_item (h : p.resolveNames = (q, .ok t)) (hb : (unit q).at? b = some (.item i)) :
    ∃ t₀ : SymbolTable, t₀.Keeps t ∧ i.HasMembers t₀ ∧ i.FindsBelow t₀ t := by
  rcases eq_nil_or_concat b with rfl | ⟨b, j, rfl⟩
  · cases hb
  · rw [concat_eq_append, at?_concat] at hb
    obtain ⟨m, hm, hj⟩ := Option.bind_eq_some_iff.mp hb
    obtain ⟨u, rfl, hi⟩ := unit_of_item_mem (mem_of_getElem? hj)
    obtain ⟨t₀, ht, hu⟩ := unitsFind h b u hm
    exact ⟨t₀, ht, hu i hi⟩

section

variable (hp : p.Read) (h : p.resolveNames = (q, .ok t))

include hp h

lemma Read.not_stmt_of_settings {n : Node}
    (hn : (unit q).at? b = some n) (hj : j < n.settings.length) : (unit q).at? (b ++ j :: c) ≠ some (.stmt s) := by
  intro hs
  obtain ⟨ns, hns⟩ := n.children_eq_settings
  rw [at?_append, hn, Option.bind_some, at?, hns, getElem?_append_left hj, getElem?_eq_getElem hj] at hs
  obtain ⟨e, he⟩ := hp.plain_settings h (mem_nodes.mpr ⟨b, hn⟩) (getElem_mem hj) _
    (mem_nodes.mpr ⟨c, hs⟩)
  cases he

lemma Read.not_unread (ha : (unit q).at? a = some (.stmt s)) : ¬ (q.InConfig a ∨ q.InFieldRange a) := by
  rintro (⟨b, l, entries, j, c, hb, rfl⟩ | ⟨b, l, d, j, f, m, c, hb, hf, hm, rfl⟩)
  · refine hp.not_stmt_of_settings h hb ?_ ha
    rw [at?_append, hb, Option.bind_some] at ha
    obtain ⟨n, hn, -⟩ := Option.bind_eq_some_iff.mp ha
    exact lt_of_getElem? hn
  · have hv : (unit q).at? (b ++ [j]) = some (.var f.value) := by
      rw [at?_concat, hb, Option.bind_some, children, append_assoc,
        getElem?_append_left (by simpa using lt_of_getElem? hf)]
      simp [hf]
    exact hp.not_stmt_of_settings h hv hm (by simpa using ha)

omit hp in
lemma findsBelow_or_unread {n : Node} (hb : (unit q).at? b = some (.item i))
    (hi : ∀ l aliasName path symbol p, i ≠ .module l aliasName path symbol p)
    (ha : (unit q).at? (b ++ j :: c) = some n) (hn : ∀ d, n ≠ var d) : (∃ owner t₀, i.HasMembers t₀ ∧
      (owner = none ∨ ∃ l d, i = .classDecl l d ∧ owner = d.symbol) ∧ n.FindsBelow owner t₀ t) ∨
      q.InConfig (b ++ j :: c) ∨ q.InFieldRange (b ++ j :: c) := by
  obtain ⟨t₀, -, hm, hf⟩ := findsBelow_of_item h hb
  rw [at?_append, hb, Option.bind_some, at?] at ha
  obtain ⟨m, hj, hmn⟩ := Option.bind_eq_some_iff.mp ha
  cases i with
  | module l aliasName path symbol p => exact absurd rfl (hi l aliasName path symbol p)
  | config l entries => exact .inr (.inl ⟨b, l, entries, j, c, hb, rfl⟩)
  | classDecl l d =>
    rw [children, append_assoc] at hj
    rcases Nat.lt_or_ge j (d.fields.map fun f => var f.value).length with hlt | hge
    · rw [getElem?_append_left hlt, getElem?_map] at hj
      obtain ⟨f, hfield, rfl⟩ := Option.map_eq_some_iff.mp hj
      cases c with
      | nil => exact absurd (Option.some.inj hmn).symm (hn _)
      | cons k c =>
        obtain ⟨m, hk, hmn⟩ := Option.bind_eq_some_iff.mp hmn
        rcases Nat.lt_or_ge k (ofRange? f.value.range).length with hlt | hge
        · exact .inr (.inr ⟨b, l, d, j, f, k, c, hb, hfield, hlt, rfl⟩)
        · rw [children, getElem?_append_right hge] at hk
          have hinit := hf.initializers f (mem_of_getElem? hfield) m (mem_of_getElem? hk)
          exact .inl ⟨none, t₀, hm, .inl rfl, hinit.of_mem (mem_nodes.mpr ⟨c, hmn⟩)⟩
    · rw [getElem?_append_right hge] at hj
      have hbody := hf.bodies m (mem_of_getElem? hj)
      exact .inl ⟨d.symbol, t₀, hm, .inr ⟨l, d, rfl, rfl⟩, hbody.of_mem (mem_nodes.mpr ⟨c, hmn⟩)⟩
  | _ => exact .inl ⟨none, t₀, hm, .inl rfl, hf.of_mem (mem_nodes.mpr ⟨j :: c, ha⟩)⟩

lemma findsBelow_in_item (hb : (unit q).at? b = some (.item i))
    (hi : ∀ l aliasName path symbol p, i ≠ .module l aliasName path symbol p)
    (hs : (unit q).at? (b ++ j :: c) = some (.stmt s)) : ∃ owner t₀, i.HasMembers t₀ ∧
      (owner = none ∨ ∃ l d, i = .classDecl l d ∧ owner = d.symbol) ∧ (stmt s).FindsBelow owner t₀ t :=
  (findsBelow_or_unread h hb hi hs nofun).resolve_right (hp.not_unread h hs)

end

section

variable (hp : p.Read) (h : p.resolveNames = (q, .ok t)) (hr : q.clampRanges = (q', .ok ranges))

include hp h hr

lemma stmt_clampRanges (hs : (unit q).at? a = some (.stmt s)) : (unit q').within? a =
    some (.stmt ((s.transform commonUnits).transform (clamps ranges))) := by
  have ha := map_inside_clampRanges hp h hr a
  rw [hs] at ha
  obtain ⟨n, hn, hin⟩ := Option.map_eq_some_iff.mp ha
  rw [hn, ← eq_stmt_of_inside hin]

lemma assign_clampRanges {target e : Expr}
    (hs : (unit q).at? a = some (.stmt (.assign l target e))) : (unit q').within? a =
      some (.stmt (.assign l (target.clamped ranges) ((e.clamped ranges).clampTo ranges target.symbol?))) := by
  rw [stmt_clampRanges hp h hr hs]
  simp only [Stmt.transform, symbol?_transform]
  rfl

end

/-- How stores into fields are written: with the bounds of the field if they go through `self`, and else without. -/
structure WritesFieldStores (q' q : Program) (t : SymbolTable) (ranges : RangeTable) : Prop where
  ofSelf : ∀ b l d i c la lm ls name symbol e f r, (unit q).at? b = some (.item (.classDecl l d)) →
    (unit q).at? (b ++ i :: c) = some (.stmt (.assign la (.member lm (.self ls) name symbol) e)) →
    f ∈ d.fields → f.value.name.text = name.text → f.value.range = some r →
    ∃ s, (unit q').within? (b ++ i :: c) = some (.stmt s) ∧ ∀ k, s.WrittenAs k ("this->" ++ name.text)
      s!"constrain({(e.clamped ranges).code k}, {r.inCommonUnits.min.code k}, {r.inCommonUnits.max.code k})"
  ofOther : ∀ a la lm object name symbol e,
    (unit q).at? a = some (.stmt (.assign la (.member lm object name symbol) e)) → object.IsOther t →
    ∃ s, (unit q').within? a = some (.stmt s) ∧ ∀ k : Scene, k.table = t →
      s.WrittenAs k ((object.clamped ranges).operand k ++ "." ++ name.text) ((e.clamped ranges).code k)
  bare : ∀ a l target e, (unit q).at? a = some (.stmt (.assign l target e)) →
    (expr (e.clamped ranges)).isClamp = false

/-- Stores through `self` are clamped. Stores through all other objects are not. -/
theorem writesFieldStores (hp : p.Read) (h : p.resolveNames = (q, .ok t)) (hr : q.clampRanges = (q', .ok ranges)) :
    q'.WritesFieldStores q t ranges where
  ofSelf b l d i c la lm ls name symbol e f r hb hs hf hname hrange := by
    obtain ⟨owner, t₀, hd, ho, hfind⟩ := findsBelow_in_item hp h hb (by simp) hs
    have ho : owner = none ∨ owner = d.symbol := by
      rcases ho with ho | ⟨_, _, hd, ho⟩
      · exact .inl ho
      · cases hd
        exact .inr ho
    obtain ⟨id, hid, rfl⟩ := hfind.field_of_self hd ho hf hname
    have hv : f.value ∈ q.vars := by
      refine mem_vars_iff.mpr (mem_nodes.mp (mem_nodes_of_mem_children (mem_nodes.mpr ⟨b, hb⟩) ?_))
      exact mem_append_left _ (mem_append_left _ (mem_map_of_mem hf))
    have hl : ranges.lookup id = some r.inCommonUnits :=
      (hp.lookup_ranges_iff h hr).mpr ⟨f.value, hv, hid, by rw [hrange]; rfl⟩
    have hc := assign_clampRanges hp h hr hs
    rw [Expr.symbol?, Expr.clampTo, Option.bind_some, hl] at hc
    refine ⟨_, hc, fun k => ?_⟩
    apply Stmt.writtenAs_assign
    · rfl
    · rfl
  ofOther a la lm object name symbol e hs ho := by
    obtain ⟨b, i, j, c, rfl, hb, hi⟩ := exists_item_above hs rfl
    obtain ⟨owner, t₀, -, -, hfind⟩ := findsBelow_in_item hp h hb hi hs
    obtain rfl := hfind.symbol_eq_none ho
    refine ⟨_, assign_clampRanges hp h hr hs, ?_⟩
    rintro k rfl
    exact Stmt.writtenAs_assign ((ho.clamped ranges).code_member lm name) rfl
  bare a l target e hs := by
    have he : Node.expr e ∈ (Node.unit q).nodes :=
      mem_nodes_of_mem_children (mem_nodes.mpr ⟨a, hs⟩) (mem_cons_of_mem _ mem_cons_self)
    calc (Node.expr (e.clamped ranges)).isClamp
      _ = (Node.expr (e.transform commonUnits)).isClamp := isClamp_transform _ (.expr _)
      _ = (Node.expr e).isClamp := isClamp_transform commonUnits (.expr e)
      _ = false := hp.not_isClamp h he

end Program

namespace Sample

def levelText : String := "class C {
  mut int v in 0...100 = 50
  fn set() { self.v = 500 }
}
mut C x = new C()
on start { x.v = 500 }"

/-- `none` stands for `self`, and a number for a variable. -/
def receiver? : Expr → Option (Option SymbolId)
  | .self _ => some none
  | .name _ r => r.symbol.map some
  | _ => none

def literalCode? : Expr → Option String
  | .literal _ v => some v.inCommonUnit.code
  | _ => none

def memberStore? : Node → Option (Option (Option SymbolId) × String × Option String)
  | .stmt (.assign _ (.member _ object name _) e) => some (receiver? object, name.text, literalCode? e)
  | _ => none

def firstField? : Node → Option (String × Option (Option String × Option String))
  | .item (.classDecl _ d) => d.fields.head?.map fun f =>
      (f.value.name.text, f.value.range.map fun r => (literalCode? r.min, literalCode? r.max))
  | _ => none

section

variable {q : Program} {a : List Nat} {name code : String}

lemma code_literal {e : Expr} (h : literalCode? e = some code) (ranges : RangeTable) (k : Scene) :
    (e.transform commonUnits).code k = code ∧ (e.clamped ranges).code k = code := by
  cases e with
  | literal l v => exact ⟨Option.some.inj h, Option.some.inj h⟩
  | _ => cases h

lemma exists_memberStore {object} {literal}
    (h : ((Node.unit q).at? a).bind memberStore? = some (object, name, literal)) : ∃ la lm o n symbol e,
      (Node.unit q).at? a = some (.stmt (.assign la (.member lm o n symbol) e)) ∧ receiver? o = object ∧
      n.text = name ∧ literalCode? e = literal := by
  obtain ⟨n, hn, h⟩ := Option.bind_eq_some_iff.mp h
  unfold memberStore? at h
  split at h
  · cases h
    exact ⟨_, _, _, _, _, _, hn, rfl, rfl, rfl⟩
  · cases h

lemma exists_firstField {low high}
    (h : ((Node.unit q).at? a).bind firstField? = some (name, some (some low, some high))) : ∃ l d f r,
      (Node.unit q).at? a = some (.item (.classDecl l d)) ∧ f ∈ d.fields ∧ f.value.name.text = name ∧
      f.value.range = some r ∧ literalCode? r.min = some low ∧ literalCode? r.max = some high := by
  obtain ⟨n, hn, h⟩ := Option.bind_eq_some_iff.mp h
  unfold firstField? at h
  split at h
  · simp only [Option.map_eq_some_iff, Prod.mk.injEq] at h
    obtain ⟨f, hf, hname, r, hr, hmin, hmax⟩ := h
    exact ⟨_, _, f, r, hn, mem_of_mem_head? hf, hname, hr, hmin, hmax⟩
  · cases h

end

theorem level_stores : ∃ q t q' ranges, (ofText levelText).Read ∧ (ofText levelText).resolveNames = (q, .ok t) ∧
    q.clampRanges = (q', .ok ranges) ∧
    (∃ s, (Node.unit q').within? [0, 1] = some (.stmt s) ∧
      ∀ k, s.WrittenAs k "this->v" "constrain(500, 0, 100)") ∧
    ∃ s, (Node.unit q').within? [2, 0] = some (.stmt s) ∧ ∀ k, k.table = t → s.WrittenAs k "x.v" "500" := by
  -- One evaluation reads the text only once.
  have hall : passes levelText = true ∧
      let q := (ofText levelText).resolveNames.1
      let t := tableOf (ofText levelText)
      ((Node.unit q).at? [0]).bind firstField? = some ("v", some (some "0", some "100")) ∧
        ((Node.unit q).at? [0, 1]).bind memberStore? = some (some none, "v", some "500") ∧
        ((Node.unit q).at? [2, 0]).bind memberStore? = some (some (some 32), "v", some "500") ∧
        t.kind 32 = .var ∧ t.isGlobal 32 = true ∧ t.qualifiedName 32 "::" = "x" := by decide +kernel
  obtain ⟨hpasses, hfield, hself, hother, hkind, hglobal, hx⟩ := hall
  obtain ⟨hp, h, hr⟩ := of_passes levelText hpasses
  generalize (ofText levelText).resolveNames.1 = q at *
  generalize tableOf (ofText levelText) = t at *
  have hw := Program.writesFieldStores hp h hr
  refine ⟨_, _, _, _, hp, h, hr, ?_, ?_⟩
  · obtain ⟨l, d, f, r, hd, hf, hname, hrange, hmin, hmax⟩ := exists_firstField hfield
    obtain ⟨la, lm, object, name, symbol, e, hs, ho, hmember, he⟩ := exists_memberStore hself
    cases object with
    | self ls =>
      obtain ⟨s, hs, hk⟩ := hw.ofSelf [0] l d 1 [] la lm ls name symbol e f r hd hs hf (hname.trans hmember.symm) hrange
      refine ⟨s, hs, fun k => ?_⟩
      have hk := hk k
      rw [hmember, Range.inCommonUnits, (code_literal he _ k).2, (code_literal hmin [] k).1,
        (code_literal hmax [] k).1] at hk
      exact hk
    | name ln r => simp [receiver?] at ho
    | _ => cases ho
  · obtain ⟨la, lm, object, name, symbol, e, hs, ho, hmember, he⟩ := exists_memberStore hother
    cases object with
    | name ln r =>
      have hid : r.symbol = some 32 := by simpa [receiver?] using ho
      have hother : (Expr.name ln r).IsOther t := by
        refine ⟨by simp, fun id h => ?_⟩
        cases hid.symm.trans h
        simp [hkind]
      obtain ⟨s, hs, hk⟩ := hw.ofOther [2, 0] la lm (.name ln r) name symbol e hs hother
      refine ⟨s, hs, fun k ht => ?_⟩
      have hcode : (Expr.clamped (rangesOf q) (.name ln r)).operand k = "x" := by
        change k.reference r = "x"
        simp [Scene.reference, hid, ht, hkind, hglobal, hx]
      have hk := hk k ht
      rw [hcode, hmember, (code_literal he _ k).2] at hk
      exact hk
    | _ => cases ho

end Sample

end SketchCompiler
