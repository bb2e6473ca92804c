import SketchCompiler.Proofs.FieldStores

namespace SketchCompiler

open List Node

lemma SymbolTable.Keeps.kind_eq {t u : SymbolTable} {id} (h : t.Keeps u) (hk : t.kind id ≠ (default : Symbol).kind) :
    u.kind id = t.kind id := by
  have hlt : id < t.symbols.size := by
    by_contra hlt
    exact hk (by simp [SymbolTable.kind, SymbolTable.get, hlt])
  rw [SymbolTable.kind, SymbolTable.kind, h.get_eq hlt]

namespace Program

variable {p q : Program} {t : SymbolTable} {a b : List Nat} {l : Location} {d : ClassDecl} {id : SymbolId} {e o : Expr}
  {name : Name}
variable (hp : p.Read) (h : p.resolveNames = (q, .ok t))

include hp h

lemma Read.kind_of_class
    (hb : (unit q).at? b = some (.item (.classDecl l d))) (hid : d.symbol = some id) : t.kind id = .classType := by
  obtain ⟨F, blockOf, ht, hq, hF⟩ := unitBlocks h
  have hu := hp.unnumbered
  rcases eq_nil_or_concat b with rfl | ⟨b, j, rfl⟩
  · cases hb
  rw [concat_eq_append, at?_concat] at hb
  obtain ⟨m, hm, hj⟩ := Option.bind_eq_some_iff.mp hb
  obtain ⟨u, rfl, hi⟩ := unit_of_item_mem (mem_of_getElem? hj)
  have hd : q.Declares ⟨b, 0⟩ none ⟨d.name, .classType, d.symbol⟩ :=
    .header hm (mem_flatMap.mpr ⟨_, hi, mem_singleton_self _⟩)
  obtain ⟨xs, hxs, hdecl⟩ := declared_of_declares hu h hq hd (by simp [hid])
  exact (hdecl.symbol_eq ht hF hxs hid).2.1

lemma Read.kind_of_field {f : Located VarDecl}
    (hb : (unit q).at? b = some (.item (.classDecl l d))) (hf : f ∈ d.fields) (hid : f.value.symbol = some id) :
    (t.scope (t.get id).scope).kind = .members := by
  obtain ⟨t0, hkeep, hm, -⟩ := findsBelow_of_item h hb
  obtain ⟨F, ht, -, -⟩ := unitsResolved h
  obtain ⟨c, m, hc, hmem, hfields⟩ := ClassDecl.HasMembers.mono hm hkeep
  obtain ⟨id', hid', hmember⟩ := hfields f hf
  cases hid.symm.trans hid'
  rw [(ht.get_named (ht.member?_eq_some_iff.mp hmember)).2, (membersScoped h c m hmem).2, hp.kind_of_class h hb hc]
  rfl

lemma Read.findsBelow_or_unread (ha : (unit q).at? a = some (.expr e)) :
    (∃ owner t0, (∀ k, owner = some k → t.kind k = .classType) ∧ (expr e).FindsBelow owner t0 t) ∨
      q.InConfig a ∨ q.InFieldRange a := by
  obtain ⟨b, i, j, c, rfl, hb, hi⟩ := exists_item_above ha rfl
  rcases Program.findsBelow_or_unread h hb hi ha nofun with ⟨owner, t0, -, ho, hf⟩ | hunread
  · refine .inl ⟨owner, t0, fun k hk => ?_, hf⟩
    rcases ho with rfl | ⟨l, d, rfl, rfl⟩
    · cases hk
    · exact hp.kind_of_class h hb hk
  · exact .inr hunread

lemma Read.name_found {F} {blockOf : ScopeId → Block} {ref : Reference} (hq : (unit q).UnitsResolved F t [])
    (hF : ∀ f ∈ F, blockOf f.1 = f.2)
    (ha : (unit q).at? a = some (.expr (.name l ref))) (hid : ref.symbol = some id) :
    (t.get id).name = ref.name.text ∧ q.Denotes t blockOf a ref.name.text id := by
  rcases meets_or_unread ha with ⟨x, env, hm, hr, hx⟩ | hunread
  · have hxr : x.reference? = some ref := by
      cases x <;> cases hx
      · rfl
      all_goals cases hr
    obtain ⟨id', hid', hden⟩ := hm.denotes hq hF hxr
    cases hid.symm.trans hid'
    exact hden
  · have hu := hp.unnumbered
    have hnone := (unnumbered_of_unread hu h hunread ha).2 _ mem_nodes_self ref.symbol
      (mem_singleton_self _)
    cases hid.symm.trans hnone

lemma Read.member_named (ha : (unit q).at? a = some (.expr (.member l o name (some id)))) :
    ∃ k m, (t.get k).members = some m ∧ (name.text, id) ∈ (t.scope m).names ∧
      (t.kind k = .classType ∨ o.symbol? = some k) := by
  obtain ⟨F, ht, -, -⟩ := unitsResolved h
  rcases hp.findsBelow_or_unread h ha with ⟨owner, t0, howner, hf⟩ | hunread
  · obtain ⟨v, -, hv, hfind⟩ := hf _ mem_nodes_self
    have hmem : v.memberOf? owner o name.text = some id := hfind.symm
    simp only [SymbolTable.memberOf?, Option.bind_eq_bind, Option.bind_eq_some_iff] at hmem
    obtain ⟨k, hk, m, hm, hid⟩ := hmem
    refine ⟨k, m, hv.members hm, ht.member?_eq_some_iff.mp (hv.member hid), ?_⟩
    by_cases hself : ∃ l, o = .self l
    · obtain ⟨l, rfl⟩ := hself
      exact .inl (howner k hk)
    · rw [Resolve.owner?, Option.filter_eq_some_iff] at hk
      · exact .inr hk.1
      · exact fun l hl => hself ⟨l, hl⟩
  · have hnode := mem_nodes_of_place h hunread ha mem_nodes_self
    cases (hp.fresh _ hnode).2.2.2.2.2

lemma Read.member_found (ha : (unit q).at? a = some (.expr (.member l o name (some id)))) :
    (t.get id).name = name.text ∧ ∃ k, (t.get k).members = some (t.get id).scope ∧
      (t.kind k = .classType ∨ o.symbol? = some k) := by
  obtain ⟨F, ht, -, -⟩ := unitsResolved h
  obtain ⟨k, m, hm, hn, hk⟩ := hp.member_named h ha
  obtain ⟨hname, hscope⟩ := ht.get_named hn
  exact ⟨hname, k, by rw [hscope, hm], hk⟩

lemma Read.assignable {target : Expr}
    (ha : (unit q).at? a = some (.stmt (.assign l target e))) (hid : target.symbol? = some id) :
    (t.kind id).isAssignable := by
  obtain ⟨b, i, j, c, rfl, hb, hi⟩ := exists_item_above ha rfl
  obtain ⟨owner, t0, -, -, hf⟩ := findsBelow_in_item hp h hb hi ha
  obtain ⟨v, -, hv, hfind⟩ := hf _ mem_nodes_self
  have hkind : (v.kind id).isAssignable := hfind id hid
  rwa [hv.kind_eq fun hd => by rw [hd] at hkind; cases hkind]

end Program

end SketchCompiler
