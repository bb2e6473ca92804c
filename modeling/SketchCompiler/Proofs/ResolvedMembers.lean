import SketchCompiler.Proofs.Hoisting

namespace SketchCompiler

open SymbolTable SpotPart List Node

variable {t' u' : SymbolTable} {s : ScopeId} {owner : Option SymbolId} {t u : SymbolTable} {n : Node}

/-- All nodes from `n` downwards were looked up between the tables `t` and `u`. -/
def Node.FindsBelow (owner : Option SymbolId) (t u : SymbolTable) (n : Node) : Prop :=
  ∀ m ∈ n.nodes, ∃ v, t.Keeps v ∧ v.Keeps u ∧ m.Finds owner v

lemma Node.FindsBelow.mono (h : n.FindsBelow owner t u) (ht : t'.Keeps t) (hu : u.Keeps u') :
    n.FindsBelow owner t' u' := by
  intro m hm
  obtain ⟨v, htv, hvu, hv⟩ := h m hm
  exact ⟨v, ht.trans htv, hvu.trans hu, hv⟩

lemma Node.FindsBelow.of_children {v : SymbolTable} (hc : ∀ c ∈ n.children, c.FindsBelow owner t u) (ht : t.Keeps v)
    (hu : v.Keeps u) (hn : n.Finds owner v) : n.FindsBelow owner t u := by
  intro m hm
  rcases mem_nodes_iff.mp hm with rfl | ⟨c, hm, hmc⟩
  · exact ⟨v, ht, hu, hn⟩
  · exact hc c hm m hmc

/-- The spot is inside of an item, and not the field of a class. -/
def Spot.isInside : Spot → Bool
  | node n => n.isInner
  | declared _ | guarded .. => true
  | _ => false

namespace Spot

variable {x : Spot}

lemma isRead_of_isInside (hx : x.isInside) : x.isRead := by
  cases x <;> first | rfl | cases hx

lemma owner_of_isInside (hx : x.isInside) (o : Option SymbolId) : x.owner o = o := by
  cases x with
  | node n => cases n <;> first | rfl | cases hx
  | field d => cases hx
  | _ => rfl

lemma isInside_of_slot (hx : x.isRead) (hn : ∀ c ∈ x.toNode.children, c.isInner)
    (hi : ∀ d, x ≠ field d) (hc : ∀ l d, x ≠ node (.item (.classDecl l d)))
    (he : ∀ l entries, x ≠ node (.item (.config l entries))) {y : List Nat × Spot} (hy : y ∈ x.slots) :
    y.2.isInside := by
  obtain ⟨i, hi'⟩ := getElem?_of_mem hy
  have hchild : y.2.toNode ∈ x.toNode.children := (slots_of_isRead hx).1 ▸ mem_map_of_mem hy
  obtain ⟨ks, y⟩ := y
  cases below_of_slot hi' with
  | node => exact hn _ hchild
  | ofItem | ofStmt | guarded => rfl
  | field => exact absurd rfl (hc _ _)
  | entry => exact absurd rfl (he _ _)
  | module => cases hn _ hchild
  | bound => exact absurd rfl (hi _)

lemma isInside_slots (hx : x.isInside) {y : List Nat × Spot} (hy : y ∈ x.slots) : y.2.isInside := by
  have hinner : x.toNode.isInner := by cases x <;> first | exact hx | rfl | cases hx
  refine isInside_of_slot (isRead_of_isInside hx) (fun c => isInner_of_mem_children hinner) ?_ ?_ ?_ hy
  all_goals
    intros
    rintro rfl
    cases hx

end Spot

namespace Walk

variable {o : Option SymbolId} {t u : SymbolTable} {ps qs : List SpotPart} {p : SpotPart}

lemma of_append (h : Walk o s t (ps ++ qs) u) : ∃ v, Walk o s t ps v ∧ Walk o s v qs u := by
  induction ps generalizing t with
  | nil => exact ⟨t, .nil, h⟩
  | cons p ps ih =>
    cases h with
    | child hx hb hd ha h =>
      obtain ⟨v, h, h'⟩ := ih h
      exact ⟨v, .child hx hb hd ha h, h'⟩
    | block hd hb h =>
      obtain ⟨v, h, h'⟩ := ih h
      exact ⟨v, .block hd hb h, h'⟩

lemma of_mem (h : Walk o s t ps u) (hp : p ∈ ps) : ∃ ps' qs' t' u', Walk o s t ps' t' ∧ Walk o s t' [p] u' ∧
    Walk o s u' qs' u := by
  obtain ⟨ps, qs, rfl⟩ := append_of_mem hp
  obtain ⟨t', h, h'⟩ := h.of_append
  obtain ⟨u', h', h''⟩ : ∃ u', Walk o s t' [p] u' ∧ Walk o s u' qs u := h'.of_append
  exact ⟨ps, qs, t', u', h, h', h''⟩

lemma finds (h : Walk o s t ps u) (hp : ∀ y ∈ partsSlots ps, y.2.isInside) :
    ∀ y ∈ partsSlots ps, y.2.toNode.FindsBelow o t u := by
  induction h with
  | nil => exact nofun
  | @child o s t a b c u x ps hx hb hd ha h ih1 ih2 ih3 =>
    simp only [partsSlots, SpotPart.slots, singleton_append, forall_mem_cons] at hp ⊢
    obtain ⟨hin, hps⟩ := hp
    rw [Spot.owner_of_isInside hin] at ih1
    have hslots : ∀ y ∈ partsSlots x.before ++ partsSlots x.after, y.2.isInside := fun y hy =>
      Spot.isInside_slots hin (by rwa [Spot.slots, partsSlots_append])
    obtain ⟨hbefore, hafter⟩ := forall_mem_append.mp hslots
    have hrest := ha.keeps.trans h.keeps
    have hall := hd.keeps.trans hrest
    refine ⟨?_, fun y hy => (ih3 hps y hy).mono (hb.keeps.trans (hd.keeps.trans ha.keeps)) (.refl u)⟩
    have hchildren : ∀ c ∈ x.toNode.children, c.FindsBelow o t u := by
      rw [← (Spot.slots_of_isRead (Spot.isRead_of_isInside hin)).1, Spot.slots, partsSlots_append, map_append,
        forall_mem_append, forall_mem_map, forall_mem_map]
      exact ⟨fun y hy => (ih1 hbefore y hy).mono (.refl t) hall,
        fun y hy => (ih2 hafter y hy).mono (hb.keeps.trans hd.keeps) h.keeps⟩
    rcases hx.finds (Spot.isRead_of_isInside hin) with hf | hf
    · exact .of_children hchildren (.refl t) (hb.keeps.trans hall) hf
    · exact .of_children hchildren hb.keeps hall hf
  | @block o s t t1 t2 u number kind header parts ps hd hb h ih1 ih2 =>
    simp only [partsSlots, SpotPart.slots, forall_mem_append, forall_mem_map] at hp ⊢
    have hpush := (keeps_push t _).trans hd.keeps
    exact ⟨fun y hy => (ih1 hp.1 y hy).mono hpush h.keeps,
      fun y hy => (ih2 hp.2 y hy).mono (hpush.trans hb.keeps) (.refl u)⟩

lemma finds_nodes {ns} (h : Walk o s t (ofNodes ns) u) (hn : ∀ n ∈ ns, n.isInner) : ∀ n ∈ ns, n.FindsBelow o t u := by
  have hf := h.finds
  rw [partsSlots_ofNodes, forall_mem_map, forall_mem_map] at hf
  exact hf hn

end Walk

/-- The fields are in the scope of the members. -/
def FieldsIn (m : ScopeId) (fields : List (Located VarDecl)) (t : SymbolTable) : Prop :=
  ∀ f ∈ fields, ∃ k, f.value.symbol = some k ∧ t.member? m f.value.name.text = some k

lemma FieldsIn.mono {m} {fields} (h : FieldsIn m fields t) (hu : t.Keeps u) : FieldsIn m fields u := by
  intro f hf
  obtain ⟨k, hk, hm⟩ := h f hf
  exact ⟨k, hk, hu.member hm⟩

def ClassDecl.HasMembers (t : SymbolTable) (d : ClassDecl) : Prop :=
  ∃ id m, d.symbol = some id ∧ (t.get id).members = some m ∧ FieldsIn m d.fields t

/-- All that is read in the class was looked up: in initializers without `self`, in bodies with it. -/
structure ClassDecl.FindsBelow (t u : SymbolTable) (d : ClassDecl) : Prop where
  initializers : ∀ f ∈ d.fields, ∀ n ∈ ofExpr? f.value.initializer, n.FindsBelow none t u
  bodies : ∀ n ∈ ofConstructor? d.constructor ++ d.methods.flatMap (fun m => ofBlock m.value.body),
    n.FindsBelow d.symbol t u

lemma ClassDecl.findsBelow {l} {d : ClassDecl}
    (h : Walk d.symbol s t (Spot.node (.item (.classDecl l d))).before u) : d.FindsBelow t u := by
  rw [Spot.before, append_assoc] at h
  obtain ⟨v, hfields, hbodies⟩ := h.of_append
  constructor
  · intro f hf
    obtain ⟨ps, qs, t', u', ht, hw, hu⟩ := hfields.of_mem (mem_map_of_mem hf)
    cases hw with
    | child _ hb hd ha hnil =>
      obtain ⟨w, hranges, hinit⟩ := hb.of_append
      intro n hn
      have hinner : ∀ n ∈ ofExpr? f.value.initializer, n.isInner := by
        simp only [mem_ofExpr?]
        rintro _ ⟨e, -, rfl⟩
        rfl
      exact (hinit.finds_nodes hinner n hn).mono (ht.keeps.trans hranges.keeps)
        (hd.keeps.trans (ha.keeps.trans (hnil.keeps.trans (hu.keeps.trans hbodies.keeps))))
  · have hslots : (partsSlots
        (d.constructor.toList.map (fun k => ofBody 0 .method (k.params.map Param.binder) k.body) ++
          ofMethods d.methods 1)).map (·.2.toNode) =
        ofConstructor? d.constructor ++ d.methods.flatMap fun m => ofBlock m.value.body := by
      have hm := flatMap_zipIdx (fun m : Located FunctionDecl => m.value.body.map stmt) d.methods 1
      cases hc : d.constructor <;> simp [ofConstructor?, ofBlock, partsSlots, map_flatMap, Function.comp_def, hm]
    rw [← hslots, forall_mem_map]
    refine fun y hy => (hbodies.finds ?_ y hy).mono hfields.keeps (.refl u)
    simp only [partsSlots_append, partsSlots_map, slots_ofBody, partsSlots_ofMethods, forall_mem_append,
      forall_mem_flatMap, forall_mem_map]
    exact ⟨fun _ _ _ _ => rfl, fun _ _ _ _ => rfl⟩

def Item.HasMembers (t : SymbolTable) : Item → Prop
  | .classDecl _ d => d.HasMembers t
  | _ => True

def Item.FindsBelow (t u : SymbolTable) : Item → Prop
  | .classDecl _ d => d.FindsBelow t u
  | .config .. | .module .. => True
  | i => (item i).FindsBelow none t u

lemma Item.findsBelow {i : Item} {t u} (h : Walk none s t [.child (.node (.item i))] u) : i.FindsBelow t u := by
  cases h with
  | @child _ _ _ a b c _ _ _ hx hb hd ha hnil =>
    cases hnil
    have hrest := hd.keeps.trans ha.keeps
    have plain (hi : ∀ c ∈ (item i).children, c.isInner) (hc : ∀ l d, i ≠ .classDecl l d)
        (he : ∀ l entries, i ≠ .config l entries) (ho : (Spot.node (.item i)).owner none = none) :
        (item i).FindsBelow none t u := by
      rw [ho] at hb
      have hslots := hb.finds fun y hy => Spot.isInside_of_slot (x := .node (.item i)) rfl hi (by simp)
        (by simpa using hc) (by simpa using he)
        (by rw [Spot.slots, partsSlots_append]; exact mem_append_left _ hy)
      have hchildren : ∀ c ∈ (item i).children, c.FindsBelow none t u := by
        have hafter : (Spot.node (.item i)).after = [] := rfl
        rw [← (Spot.slots_item i).1, Spot.slots, hafter, append_nil, forall_mem_map]
        exact fun y hy => (hslots y hy).mono (.refl t) hrest
      rcases hx.finds rfl with hf | hf
      · exact .of_children hchildren (.refl t) (hb.keeps.trans hrest) hf
      · exact .of_children hchildren hb.keeps hrest hf
    cases i with
    | classDecl l d =>
      have hd := ClassDecl.findsBelow hb
      exact ⟨fun f hf n hn => (hd.initializers f hf n hn).mono (.refl t) hrest,
        fun n hn => (hd.bodies n hn).mono (.refl t) hrest⟩
    | config | module => trivial
    | interrupt l d =>
      refine plain ?_ (by simp) (by simp) rfl
      simp [children, ofBlock, isInner]
    | _ => exact plain (fun c => isInner_of_mem_item rfl) (by simp) (by simp) rfl

section

variable {t u : SymbolTable}

lemma ClassDecl.HasMembers.mono {d : ClassDecl} (h : d.HasMembers t) (hu : t.Keeps u) : d.HasMembers u := by
  obtain ⟨id, m, hid, hm, hf⟩ := h
  exact ⟨id, m, hid, hu.members hm, hf.mono hu⟩

lemma Item.FindsBelow.mono {i : Item} (h : i.FindsBelow t u) (ht : t'.Keeps t)
    (hu : u.Keeps u') : i.FindsBelow t' u' := by
  have each {ns : List Node} {owner : Option SymbolId} (h : ∀ n ∈ ns, n.FindsBelow owner t u) :
      ∀ n ∈ ns, n.FindsBelow owner t' u' := fun n hn => (h n hn).mono ht hu
  cases i with
  | classDecl l d => exact ⟨fun f hf => each (h.initializers f hf), each h.bodies⟩
  | config | module => trivial
  | _ => exact Node.FindsBelow.mono h ht hu

lemma Declares.member {m} {xs} {x : Binder} (h : Declares s m t xs u) (hm : m < t.scopes.size) (hx : (false, x) ∈ xs) :
    ∃ k, (x.symbol = some k ∨ x.symbol = none) ∧ u.member? m x.name.text = some k := by
  induction h with
  | nil => cases hx
  | cons hd hsymbol h ih =>
    rcases mem_cons.mp hx with hx | hx
    · cases hx
      exact ⟨_, hsymbol, h.keeps.member (member?_declare hd hm)⟩
    · exact ih (hm.trans_le (keeps_declare hd).scopes_le) hx

lemma Hoist.members {is} {i : Item} {x : Binder} (h : Hoist s t is u) (hi : i ∈ is)
    (hx : i.type? = some x) : ∃ id m, x.symbol = some id ∧ (u.get id).members = some m ∧
      ∀ y, (false, y) ∈ i.members → ∃ k, (y.symbol = some k ∨ y.symbol = none) ∧ u.member? m y.name.text = some k := by
  induction h with
  | nil => cases hi
  | plain hb _ ih =>
    rcases mem_cons.mp hi with rfl | hi
    · simp [Item.binders_of_type hx] at hb
    · exact ih hi
  | named hb hk _ _ _ ih =>
    rcases mem_cons.mp hi with rfl | hi
    · rw [Item.binders_of_type hx] at hb
      obtain rfl := (List.cons.inj hb).1
      cases i <;> cases hx <;> cases hk
    · exact ih hi
  | @type s t t1 t2 u i' is y id hy _ hid hd hmembers h ih =>
    rcases mem_cons.mp hi with rfl | hi
    · obtain rfl := Option.some.inj (hx.symm.trans hy)
      have hset := (keeps_setMembers hd ((keeps_push _ _).trans hmembers.keeps) t1.scopes.size).2
      refine ⟨id, t1.scopes.size, hid, h.keeps.members hset, fun z hz => ?_⟩
      obtain ⟨k, hk, hmem⟩ := hmembers.member (by simp) hz
      exact ⟨k, hk, h.keeps.member hmem⟩
    · exact ih hi
  | module _ _ _ _ _ _ ih =>
    rcases mem_cons.mp hi with rfl | hi
    · cases hx
    · exact ih hi

lemma Hoist.hasMembers {is} {i i' : Item} (h : Hoist s t is u) (hi : i ∈ is) (hk : i.Kept i') : i'.HasMembers u := by
  cases i' with
  | classDecl l d =>
    have htype : i.type? = some ⟨d.name, .classType, d.symbol⟩ := by
      have hb := hk.binders_eq
      cases i <;> simp_all [Item.binders, Item.type?]
    obtain ⟨id, m, hid, hm, hmember⟩ := h.members hi htype
    refine ⟨id, m, hid, hm, fun f hf => ?_⟩
    have hf' : (false, f.value.memberBinder) ∈ (Item.classDecl l d).members := mem_append_left _ (mem_map_of_mem hf)
    obtain ⟨k, hsymbol, hmem⟩ := hmember _ (hk.members_eq ▸ hf')
    exact ⟨k, hsymbol.resolve_right ((hk.numbered (h.numbered i hi)).1 f hf), hmem⟩
  | _ => trivial

/-- The classes of the unit have their members, and after that all its items were looked up. -/
def Program.FindsMembers (u : SymbolTable) (q : Program) : Prop :=
  ∃ t, t.Keeps u ∧ ∀ i ∈ q.items, i.HasMembers t ∧ i.FindsBelow t u

def Node.UnitsFind (u : SymbolTable) (n : Node) : Prop := ∀ a q, n.at? a = some (.unit q) → q.FindsMembers u

end

lemma Program.unitsFind {p q : Program} (h : p.resolveNames = (q, .ok t)) : (unit q).UnitsFind t := by
  intro a v hv
  obtain ⟨s0, hran⟩ := unitRan h
  obtain ⟨path, s, hran⟩ := hran.of_unit_at? hv
  cases hran with
  | @mk _ _ _ t0 t1 t2 items hr _ _ =>
    refine ⟨t1, hr.walk.keeps.trans hr.ends.keeps, fun i' hi' => ?_⟩
    obtain ⟨i, hi, hk⟩ := exists_mem_of_forall₂ hr.kept.flip hi'
    refine ⟨hr.hoist.hasMembers hi hk, ?_⟩
    have hpart : SpotPart.child (.node (.item i')) ∈ ofNodes (v.items.map .item) := by
      simpa [ofNodes] using hi'
    obtain ⟨ps, qs, t', u', ht, hw, hu⟩ := hr.walk.of_mem hpart
    exact (Item.findsBelow hw).mono ht.keeps (hu.keeps.trans hr.ends.keeps)

end SketchCompiler
