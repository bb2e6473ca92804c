import Mathlib.Data.List.Chain
import SketchCompiler.Proofs.Sample
import SketchCompiler.Proofs.UnreadNames

namespace SketchCompiler

open Env SymbolTable List

lemma exists_blockOf {F : List (ScopeId × Block)} (hF : F.Pairwise fun f g => f.1 < g.1) :
    ∃ blockOf : ScopeId → Block, ∀ f ∈ F, blockOf f.1 = f.2 := by
  induction F with
  | nil => exact ⟨fun _ => ⟨[], 0⟩, nofun⟩
  | cons f F ih =>
    obtain ⟨hf, hF⟩ := pairwise_cons.mp hF
    obtain ⟨blockOf, hb⟩ := ih hF
    refine ⟨fun s => if s = f.1 then f.2 else blockOf s, fun g hg => ?_⟩
    rcases mem_cons.mp hg with rfl | hg
    · exact if_pos rfl
    · exact (if_neg ((hf g hg).ne')).trans (hb g hg)

namespace Program

variable {p q : Program} {F : List (ScopeId × Block)} {t : SymbolTable} {blockOf : ScopeId → Block} {s : Nat}
  {ss : List ScopeId} {a : List Nat} {x : Spot} {name : String} {id : SymbolId}

lemma unitBlocks (h : p.resolveNames = (q, .ok t)) : ∃ (F : List (ScopeId × Block)) (blockOf : ScopeId → Block),
    t.Sound ∧ (Node.unit q).UnitsResolved F t [] ∧ ∀ f ∈ F, blockOf f.1 = f.2 := by
  obtain ⟨F, ht, hsorted, hq⟩ := unitsResolved h
  obtain ⟨blockOf, hF⟩ := exists_blockOf hsorted
  exact ⟨F, blockOf, ht, hq, hF⟩

/-- Along the scopes, the name is looked up to the nearest one where it is in force, or else to a builtin. -/
def LooksUp (p : Program) (t : SymbolTable) (blockOf : ScopeId → Block) (a : List Nat) (ss : List ScopeId)
    (name : String) (id : SymbolId) : Prop :=
  (∃ inner outer x, ss = inner ++ (t.get id).scope :: outer ∧ p.FreeIn blockOf a name inner ∧
      p.InForce a (blockOf (t.get id).scope) x ∧ x.name.text = name ∧ x.Stands t id) ∨
    p.FreeIn blockOf a name ss ∧ (t.get id).scope = root ∧ t.kind id = .builtin

lemma LooksUp.cons (h : p.LooksUp t blockOf a ss name id)
    (hs : ∀ x, p.InForce a (blockOf s) x → x.name.text ≠ name) : p.LooksUp t blockOf a (s :: ss) name id := by
  rcases h with ⟨inner, outer, x, rfl, hi, hx⟩ | ⟨hi, hx⟩
  · exact .inl ⟨s :: inner, outer, x, rfl, forall_mem_cons.mpr ⟨hs, hi⟩, hx⟩
  · exact .inr ⟨forall_mem_cons.mpr ⟨hs, hi⟩, hx⟩

lemma LooksUp.denotes (h : p.LooksUp t blockOf a ss name id) (hs : p.ScopesAt t blockOf a ss) :
    p.Denotes t blockOf a name id := by
  rcases h with ⟨inner, outer, x, rfl, hi, hx, hname, hst⟩ | ⟨hi, hscope, hkind⟩
  · exact .declared hs hi hx hname hst
  · exact .builtin hs hi hscope hkind

end Program

section

variable {p : Program} {F : List (ScopeId × Block)} {t u : SymbolTable} {blockOf : ScopeId → Block} {s : Nat}
  {a : List Nat} {env : Env}

lemma Matches.looksUp (h : Matches F t s env) (ht : t.Sound) (hu : t.Later u) (hF : ∀ f ∈ F, blockOf f.1 = f.2)
    (he : ∀ e ∈ env, ∀ x, x ∈ e.2 ↔ p.InForce a e.1 x) : ∃ ss, ss.map blockOf = blocks env ∧
      (ss ++ [root]).head? = some s ∧ ((ss ++ [root]).IsChain fun s s' => (u.scope s).parent = some s') ∧
      ∀ name id, t.lookup? s name = some id → (u.get id).name = name ∧ p.LooksUp u blockOf a ss name id := by
  -- A name of the table still has its symbol in a later one.
  have named {s id : Nat} {name : String} (hm : (name, id) ∈ (t.scope s).names) :
      (u.get id).name = name ∧ (u.get id).scope = s := by
    rw [hu.get_eq (ht.named_lt hm)]
    exact ht.get_named hm
  induction h with
  | outermost hr hn =>
    refine ⟨[], rfl, rfl, isChain_singleton _, fun name id hid => ?_⟩
    rw [lookup?_of_no_parent ht.root_parent, ht.member?_eq_some_iff] at hid
    refine ⟨(named hid).1, .inr ⟨nofun, (named hid).2, ?_⟩⟩
    rw [hu.kind_eq (ht.named_lt hid)]
    exact hn name id hid
  | @block s p' b xs env hb hs hp hn _ ih =>
    obtain ⟨ss, hblocks, hhead, hchain, hl⟩ := ih fun e h => he e (mem_cons_of_mem _ h)
    have hxs (x : Binder) : x ∈ xs ↔ p.InForce a (blockOf s) x := by
      rw [hF _ hb]
      exact he _ mem_cons_self x
    refine ⟨s :: ss, ?_, rfl, ?_, fun name id hid => ?_⟩
    · rw [map_cons, hblocks, hF _ hb, blocks_cons]
    · refine isChain_cons.mpr ⟨?_, hchain⟩
      intro s' hs'
      cases hhead.symm.trans hs'
      exact (hu.parent_eq hs).trans hp
    · rw [ht.lookup?_eq hp] at hid
      cases hm : t.member? s name with
      | some id' =>
        rw [hm] at hid
        cases hid
        rw [ht.member?_eq_some_iff] at hm
        obtain ⟨x, hx, hname, hst⟩ := hn.origin hm
        obtain ⟨hid, hscope⟩ := named hm
        refine ⟨hid, .inl ⟨[], ss, x, ?_, nofun, ?_, hname, hst.mono hu.toExtends (ht.named_lt hm)⟩⟩
        · rw [hscope, nil_append]
        · rw [hscope]
          exact (hxs x).mp hx
      | none =>
        rw [hm] at hid
        refine ⟨(hl name id hid).1, (hl name id hid).2.cons fun y hy hname => ?_⟩
        obtain ⟨id', hid', -⟩ := hn.added ((hxs y).mpr hy)
        rw [hname] at hid'
        exact member?_eq_none_iff.mp hm id' hid'

lemma Declared.symbol_eq {xs} {b} {x : Binder} {id} (h : Declared F t b xs)
    (ht : t.Sound) (hF : ∀ f ∈ F, blockOf f.1 = f.2) (hx : x ∈ xs) (hid : x.symbol = some id) :
    (t.get id).name = x.name.text ∧ t.kind id = x.kind ∧ blockOf (t.get id).scope = b := by
  obtain ⟨s, id', hf, -, hn, hkind, hs | ⟨-, hs⟩⟩ := h.named hx
  · obtain rfl : id' = id := Option.some.inj (hs.symm.trans hid)
    obtain ⟨hname, hscope⟩ := ht.get_named hn
    exact ⟨hname, hkind, hscope ▸ hF _ hf⟩
  · cases hs.symm.trans hid

end

namespace Program

variable {p q : Program} {F : List (ScopeId × Block)} {t : SymbolTable} {blockOf : ScopeId → Block} {a b c : List Nat}
  {x : Spot} {env : Env} {n : Node} {block : Block} {z y : Binder} {since : Option (List Nat)}

lemma Meets.resolved (h : q.Meets c x env) (hq : (Node.unit q).UnitsResolved F t []) : x.Resolved F t c env := by
  induction h with
  | unit ho => exact (hq _ _ ho).resolved
  | step _ hm ih =>
    cases ih with
    | intro _ hbelow => exact hbelow _ _ _ hm

lemma Meets.resolvedHere (h : q.Meets c x env) (hq : (Node.unit q).UnitsResolved F t []) :
    x.ResolvedHere F t c env := by
  cases h.resolved hq with
  | intro hx => exact hx

lemma Meets.blocks_of_ne_unit (h : q.Meets a x env) (hx : x.isRead) (hn : ∀ u, x.toNode ≠ .unit u) :
    blocks env = q.blocksAt a := by
  rw [h.blocks_eq hx]
  cases hx' : x.toNode with
  | unit u => exact absurd hx' (hn u)
  | _ => rfl

lemma Meets.denotes {r : Reference} (h : q.Meets a x env) (hq : (Node.unit q).UnitsResolved F t [])
    (hF : ∀ f ∈ F, blockOf f.1 = f.2) (hr : x.reference? = some r) : ∃ id, r.symbol = some id ∧
      (t.get id).name = r.name.text ∧ q.Denotes t blockOf a r.name.text id := by
  obtain ⟨s, v, hv, hl, hm, hreads⟩ := (h.resolvedHere hq).reads
  obtain ⟨id, hid, hlookup⟩ := hreads r hr
  obtain ⟨ss, hblocks, -, hchain, hss⟩ := hm.looksUp hv hl hF fun e he z => h.mem_iff he
  obtain ⟨hname, hlooks⟩ := hss _ _ hlookup
  have hseen : blocks env = q.blocksAt a := by
    cases x with
    | node n =>
      refine h.blocks_of_ne_unit rfl ?_
      rintro u rfl
      cases hr
    | _ => cases hr
  exact ⟨id, hid, hname, hlooks.denotes ⟨hblocks.trans hseen, hchain⟩⟩

lemma Meets.name_ne (h : q.Meets b (.node n) env) (hq : (Node.unit q).UnitsResolved F t []) (hz : n.binder? = some z)
    (hblock : (blocks env).head? = some block) (hy : q.InForce b block y) : y.name.text ≠ z.name.text := by
  have hm : z ∈ (Spot.node n).own := Option.mem_toList.mpr hz
  obtain ⟨e, he, -, hne⟩ := (h.resolvedHere hq).own (ne_nil_of_mem hm)
  rw [blocks, head?_map, he] at hblock
  cases hblock
  exact hne y ((h.mem_iff (mem_of_head? he)).mpr hy) z hm

lemma meets_of_declares (hp : p.Unnumbered) (h : p.resolveNames = (q, .ok t)) (hd : q.Declares block since z)
    (hz : z.symbol ≠ none) :
    (since = none ∧ ∃ x env, q.Meets block.place x env ∧ x.isRead ∧ z ∈ x.toNode.header block.number) ∨
      ∃ b n env, since = some b ∧ q.Meets b (.node n) env ∧ n.binder? = some z ∧ (blocks env).head? = some block := by
  cases hd with
  | @header n _ hn hm =>
    rcases meets_or_unread hn with ⟨x, env, hx, hr, rfl⟩ | hu
    · exact .inl ⟨rfl, x, env, hx, hr, hm⟩
    · -- Only units and items have headers.
      have hi := (unnumbered_of_unread hp h hu hn).1
      cases n with
      | unit u => cases hi
      | item i => cases hi
      | _ => cases hm
  | @behind b n _ hn hb hblock =>
    rcases meets_or_unread hn with ⟨x, env, hx, hr, rfl⟩ | hu
    · cases x with
      | node n =>
        refine .inr ⟨b, n, env, rfl, hx, hb, ?_⟩
        rw [hx.blocks_of_ne_unit rfl, hblock]
        rintro u rfl
        cases hb
      | unread n => cases hr
      | _ => cases hb
    · obtain ⟨hi, hnone⟩ := unnumbered_of_unread hp h hu hn
      cases n with
      | unit u => cases hi
      | item i => cases hi
      | stmt s =>
        cases s with
        | var l d =>
          cases hb
          refine absurd (hnone (.var d) ?_ _ (mem_singleton_self d.symbol)) hz
          exact Node.mem_nodes_iff.mpr (.inr ⟨_, mem_singleton_self _, Node.mem_nodes_self⟩)
        | _ => cases hb
      | _ => cases hb

lemma declared_of_declares (hp : p.Unnumbered) (h : p.resolveNames = (q, .ok t))
    (hq : (Node.unit q).UnitsResolved F t []) (hd : q.Declares block since z) (hz : z.symbol ≠ none) :
    ∃ xs, z ∈ xs ∧ Declared F t block xs := by
  rcases meets_of_declares hp h hd hz with ⟨-, x, env, hx, hr, hm⟩ | ⟨b, n, env, -, hx, hb, hblock⟩
  · exact ⟨_, hm, (hx.resolvedHere hq).heads (Spot.mem_heads_of_header hr (ne_nil_of_mem hm))⟩
  · have hm : z ∈ (Spot.node n).own := Option.mem_toList.mpr hb
    obtain ⟨e, he, hown, -⟩ := (hx.resolvedHere hq).own (ne_nil_of_mem hm)
    rw [blocks, head?_map, he] at hblock
    cases hblock
    exact ⟨_, hm, hown⟩

lemma name_ne_of_lt {b' : List Nat} (hd : q.Declares block (some b') y) (hlt : b' < b) (h : q.Meets b (.node n) env)
    (hq : (Node.unit q).UnitsResolved F t []) (hz : n.binder? = some z) (hblock : (blocks env).head? = some block) :
    y.name.text ≠ z.name.text := by
  refine h.name_ne hq hz hblock ⟨_, hd, ?_⟩
  rintro _ ⟨⟩
  refine ⟨hlt, fun hpre => absurd hlt ?_⟩
  have hunit : ∀ u, n ≠ .unit u := by
    rintro u rfl
    cases hz
  cases hd with
  | behind hn hb hblock' =>
    obtain ⟨j, rfl⟩ := place_of_declared hn hb hblock'
    obtain ⟨j', rfl⟩ := place_of_declared h.at?_eq hz (h.blocks_of_ne_unit rfl hunit ▸ hblock)
    rw [hpre.eq_of_length (by simp)]
    exact List.lt_irrefl _

lemma declares_unique {since' : Option (List Nat)} (hp : p.Unnumbered) (h : p.resolveNames = (q, .ok t))
    (hq : (Node.unit q).UnitsResolved F t []) (hz : q.Declares block since z) (hy : q.Declares block since' y)
    (hzs : z.symbol ≠ none) (hys : y.symbol ≠ none) (hname : z.name.text = y.name.text) : since = since' ∧ z = y := by
  rcases meets_of_declares hp h hz hzs with ⟨rfl, x, env, hx, hr, hm⟩ | ⟨b, n, env, rfl, hx, hb, hblock⟩ <;>
    rcases meets_of_declares hp h hy hys with ⟨rfl, x', env', hx', hr', hm'⟩ | ⟨b', n', env', rfl, hx', hb', hblock'⟩
  · have hxx : x'.toNode = x.toNode := Option.some.inj (hx'.at?_eq.symm.trans hx.at?_eq)
    have hd := (hx.resolvedHere hq).heads (Spot.mem_heads_of_header hr (ne_nil_of_mem hm))
    exact ⟨rfl, inj_on_of_nodup_map hd.distinct hm (hxx ▸ hm') hname⟩
  · exact absurd hname (hx'.name_ne hq hb' hblock' ⟨none, hz, nofun⟩)
  · exact absurd hname.symm (hx.name_ne hq hb hblock ⟨none, hy, nofun⟩)
  · rcases lt_trichotomy b b' with hlt | rfl | hlt
    · exact absurd hname (name_ne_of_lt hz hlt hx' hq hb' hblock')
    · obtain rfl : n = n' := Option.some.inj (hx.at?_eq.symm.trans hx'.at?_eq)
      exact ⟨rfl, Option.some.inj (hb.symm.trans hb')⟩
    · exact absurd hname.symm (name_ne_of_lt hy hlt hx hq hb hblock)

/-- Each scope is that of one block, a number is that of one declaration, which is in the scope of its block, and a use
with a number stands for what its name denotes at its place. -/
theorem resolveNames_sound (hp : p.Unnumbered) (h : p.resolveNames = (q, .ok t)) :
    ∃ blockOf : ScopeId → Block,
      (∀ block since x id, q.Declares block since x → x.symbol = some id →
        (t.get id).name = x.name.text ∧ t.kind id = x.kind ∧ blockOf (t.get id).scope = block ∧
          ∀ block' since' y, q.Declares block' since' y → y.symbol = some id →
            block' = block ∧ since' = since ∧ y = x) ∧
      ∀ a r id, q.UsesAt a r → r.symbol = some id →
        (t.get id).name = r.name.text ∧ q.Denotes t blockOf a r.name.text id := by
  obtain ⟨F, ht, hsorted, hq⟩ := unitsResolved h
  obtain ⟨blockOf, hF⟩ := exists_blockOf hsorted
  have hsymbol {block : Block} {since : Option (List Nat)} {x : Binder} {id : SymbolId} (hd : q.Declares block since x)
      (hid : x.symbol = some id) :
      (t.get id).name = x.name.text ∧ t.kind id = x.kind ∧ blockOf (t.get id).scope = block := by
    obtain ⟨xs, hx, hxs⟩ := declared_of_declares hp h hq hd (by simp [hid])
    exact hxs.symbol_eq ht hF hx hid
  refine ⟨blockOf, ?_, ?_⟩
  · intro block since x id hx hid
    obtain ⟨hname, hkind, rfl⟩ := hsymbol hx hid
    refine ⟨hname, hkind, rfl, fun block' since' y hy hyid => ?_⟩
    obtain ⟨hname', -, rfl⟩ := hsymbol hy hyid
    exact ⟨rfl, declares_unique hp h hq hy hx (by simp [hyid]) (by simp [hid]) (hname'.symm.trans hname)⟩
  · rintro a r id ⟨n, hn, hr⟩ hid
    rcases meets_or_unread hn with ⟨x, env, hx, hread, rfl⟩ | hu
    · have hxr : x.reference? = some r := by
        cases x with
        | node n => exact hr
        | unread n => cases hread
        | _ => cases hr
      obtain ⟨id', hid', hd⟩ := hx.denotes hq hF hxr
      cases hid.symm.trans hid'
      exact hd
    · obtain ⟨-, hnone⟩ := unnumbered_of_unread hp h hu hn
      have hmem := hnone n Node.mem_nodes_self r.symbol (Node.symbol_mem_numbers hr)
      cases hid.symm.trans hmem

end Program

namespace Sample

def shadowing : Program := unit [
  .var default (mutableVar "int" "level"),
  .function default { name := name "run", params := [], returnType := none, body := [
    .atomic default [.var default (mutableVar "int" "level"), .expr default (use "level")],
    .var default { mutableVar "int" "answer" with
      initializer := some (.guarded default (use "level") [.expr default (use "answer")]) },
    call (use "later")] },
  .function default { name := name "later", params := [], returnType := none, body := [] }]

lemma shadowing_unnumbered : shadowing.Unnumbered := by
  simp [Program.Unnumbered, Node.nodes_eq, Node.children, Node.numbers, shadowing, unit, Node.ofBlock, mutableVar,
    Node.reference?, use, call, Node.ofExpr?, Node.ofRange?]

lemma exists_usesAt (p : Program) (a : List Nat) (text : String) (symbol : Option SymbolId)
    (h : (((Node.unit p).at? a).bind Node.reference?).map (fun r => (r.name.text, r.symbol)) = some (text, symbol)) :
    ∃ r, p.UsesAt a r ∧ r.name.text = text ∧ r.symbol = symbol := by
  obtain ⟨r, hr, he⟩ := Option.map_eq_some_iff.mp h
  obtain ⟨n, hn, hr⟩ := Option.bind_eq_some_iff.mp hr
  exact ⟨r, ⟨n, hn, hr⟩, congrArg Prod.fst he, congrArg Prod.snd he⟩

theorem shadowing_denotes : shadowing.Unnumbered ∧ isResolved shadowing = true ∧ ∃ blockOf,
    shadowing.resolveNames.1.Denotes (tableOf shadowing) blockOf [1, 0, 1, 0] "level" 32 ∧
    shadowing.resolveNames.1.Denotes (tableOf shadowing) blockOf [1, 1, 0, 0, 0] "level" 31 ∧
    shadowing.resolveNames.1.Denotes (tableOf shadowing) blockOf [1, 1, 0, 0, 1, 0] "answer" 33 ∧
    shadowing.resolveNames.1.Denotes (tableOf shadowing) blockOf [1, 2, 0, 0] "later" 30 := by
  have hr : isResolved shadowing = true := by decide +kernel
  obtain ⟨blockOf, -, hu⟩ := Program.resolveNames_sound shadowing_unnumbered (resolveNames_eq hr)
  have denotes {a : List Nat} {text : String} {id : SymbolId}
      (h : (((Node.unit shadowing.resolveNames.1).at? a).bind Node.reference?).map (fun r => (r.name.text, r.symbol)) =
        some (text, some id)) : shadowing.resolveNames.1.Denotes (tableOf shadowing) blockOf a text id := by
    obtain ⟨r, hr, rfl, hid⟩ := exists_usesAt _ a text (some id) h
    exact (hu a r id hr hid).2
  exact ⟨shadowing_unnumbered, hr, blockOf, denotes (by decide +kernel), denotes (by decide +kernel),
    denotes (by decide +kernel), denotes (by decide +kernel)⟩

end Sample

end SketchCompiler
