import SketchCompiler.Proofs.Walks

namespace SketchCompiler

open Resolve SpotPart

variable {c : Site}

lemma Walk.unread {o} {s} {t} (ns : List Node) : Walk o s t (ns.map fun n => .child (.unread n)) t := by
  induction ns with
  | nil => exact .nil
  | cons n ns ih => exact .child (b := t) (c := t) (.unread n) .nil .nil .nil ih

lemma yields_params (c : Site) (params : List Param) : Yields (params.mapM (·.resolve c)) fun t ps u =>
    Binds c.scope t (ps.map Param.binder) u := by
  have hp (p : Param) : Yields (p.resolve c) fun t p' u => Binds c.scope t [p'.binder] u := by
    refine ((passes_checkType c p.type).before fun _ => (yields_declareIn _ _ _ _).bind fun symbol =>
      .done { p with symbol }).mono ?_
    rintro t p' u ⟨symbol, _, ⟨id, rfl, hd⟩, rfl, rfl⟩
    exact .cons hd rfl .nil
  refine Yields.mapM hp (fun _ => .nil) ?_ params
  intro t p u ps v hp hps
  cases hp with
  | cons hd hx hn =>
    cases hn
    exact .cons hd hx hps

lemma yields_callable (c : Site) (kind : ScopeKind) (returnType : Option (Located TypeName)) (params : List Param)
    (body : List Stmt) (number : Nat) : Yields (resolveCallable c kind returnType params body) fun t x u =>
      Walk c.owner c.scope t [ofBody number kind (x.1.map Param.binder) x.2] u := by
  have h : Yields (do
      let c ← enter c kind
      let params ← params.mapM (·.resolve c)
      return (params, ← resolveBlock c body)) fun t x u =>
        Walk c.owner c.scope t [ofBody number kind (x.1.map Param.binder) x.2] u := by
    refine ((yields_enter c kind).bind fun c' => (yields_params c' params).bind fun ps =>
      (blockWalks c' body).toYields.bind fun b => .done (ps, b)).mono ?_
    rintro t x u ⟨c', _, ⟨rfl, rfl⟩, ps, t1, hp, b, t2, hb, rfl, rfl⟩
    exact .block hp hb .nil
  cases returnType with
  | none => exact h
  | some type => exact (passes_checkType c type).before fun _ => h

lemma walks_field (hc : c.owner = none) (o : Option SymbolId) (d : VarDecl) :
    Walks o c.scope [] (resolveField c d) fun d => [.child (.field d)] := by
  have hw := (exprWalks? { c with declaring := some d.name.text } d.initializer).toYields
  refine ((passes_checkType c d.type).before fun _ => hw.bind fun e => .done { d with initializer := e }).mono ?_
  rintro t d' u ⟨e, _, he, rfl, rfl⟩ t0 h0
  have hr := (Walk.unread (o := none) (s := c.scope) (t := t) (Node.ofRange? d.range)).append (hc ▸ he)
  exact h0.append (.single (.of_silent rfl fun _ _ => trivial) hr rfl rfl)

lemma walks_fields (hc : c.owner = none) (o : Option SymbolId) (fields : List (Located VarDecl)) : Walks o c.scope []
    (fields.mapM fun f => return { f with value := ← resolveField c f.value })
    fun fs => fs.map fun f => .child (.field f.value) := by
  induction fields with
  | nil => exact .pure rfl
  | cons f fs ih =>
    rw [List.mapM_cons]
    refine .step (f := fun f => [.child (.field f.value)]) ?_ fun f => .step ih fun fs => .pure rfl
    exact .step (walks_field hc o f.value) fun _ => .pure rfl

lemma walks_methods (c : Site) (methods : List (Located FunctionDecl)) (start : Nat) : Walks c.owner c.scope []
    (methods.mapM fun m => return { m with value := ← m.value.resolve c .method }) fun ms => ofMethods ms start := by
  induction methods generalizing start with
  | nil => exact .pure rfl
  | cons m ms ih =>
    rw [List.mapM_cons]
    refine .step (f := fun m => [ofBody start .method (m.value.params.map Param.binder) m.value.body]) ?_ fun m =>
      .step (ih (start + 1)) fun ms => .pure rfl
    refine ((yields_callable c .method m.value.returnType m.value.params m.value.body start).bind fun x =>
      .done { m with value := { m.value with params := x.1, body := x.2 } }).mono ?_
    rintro t m' u ⟨x, _, hx, rfl, rfl⟩ t0 h0
    exact h0.append hx

lemma walks_constructor (c : Site) (k : Option Constructor) : Walks c.owner c.scope [] (k.mapM fun k => do
      let (params, body) ← resolveCallable c .method none k.params k.body return { k with params, body })
    fun k => k.toList.map fun k => ofBody 0 .method (k.params.map Param.binder) k.body := by
  cases k with
  | none => exact .pure rfl
  | some k =>
    rw [Option.mapM_some]
    refine ((yields_callable c .method none k.params k.body 0).bind fun x =>
      .done (some { k with params := x.1, body := x.2 })).mono ?_
    rintro t k' u ⟨x, _, hx, rfl, rfl⟩ t0 h0
    exact h0.append hx

lemma ClassDecl.walks (hc : c.owner = none) (l : Location) (d : ClassDecl) :
    Walks none c.scope [] (d.resolve c) fun d => [.child (.node (.item (.classDecl l d)))] := by
  have hbody := ((walks_fields hc d.symbol d.fields).toYields.bind fun fields =>
    (walks_constructor { c with owner := d.symbol } d.constructor).toYields.bind fun constructor =>
    (walks_methods { c with owner := d.symbol } d.methods 1).toYields.bind fun methods =>
      .done { d with fields, constructor, methods })
  refine hbody.mono ?_
  rintro t _ u ⟨fields, t1, hf, constructor, t2, hk, methods, _, hm, rfl, rfl⟩ t0 h0
  exact h0.append (.single (.of_silent rfl fun _ _ => trivial) ((hf.append hk).append hm) rfl rfl)

lemma passes_checkTypes (c : Site) (fields : List StructField) : Passes (fields.forM fun f => checkType c f.type) := by
  induction fields with
  | nil => exact .pure _
  | cons f fs ih => exact .bind (passes_checkType c f.type) fun _ => ih

lemma Item.walks (hc : c.owner = none) (i : Item) : Walks none c.scope [] (i.resolve c) fun i => ofNodes [.item i] := by
  rw [← hc]
  cases i with
  | var l d => exact .step (d.walks c) fun _ => .close rfl rfl rfl
  | aliasDecl l name e symbol =>
    refine ((e.walks c).toYields.bind fun e => (yields_declareIn _ _ _ _).bind fun symbol =>
      .done (Item.aliasDecl l name e symbol)).mono ?_
    rintro t i u ⟨e, t1, he, symbol, t2, ⟨id, rfl, hd⟩, rfl, rfl⟩ t0 h0
    exact h0.append (.child (a := t1) (b := u) (c := u) (.of_silent rfl fun _ _ => trivial) he
      (.cons hd rfl .nil) .nil .nil)
  | function l d =>
    refine ((yields_callable c .function d.returnType d.params d.body 0).bind fun x =>
      .done (Item.function l { d with params := x.1, body := x.2 })).mono ?_
    rintro t i u ⟨x, _, hx, rfl, rfl⟩ t0 h0
    exact h0.append (hx.plain rfl)
  | classDecl l d =>
    rw [hc]
    exact .step (d.walks hc l) fun _ => .pure rfl
  | structDecl l d => exact .passes (passes_checkTypes c d.fields) fun _ => .close rfl rfl rfl
  | event l kind body =>
    have h (kind : Event) : Yields (do return Item.event l kind (← resolveBlock (← enter c .function) body))
        fun t i u => ∃ b, i = .event l kind b ∧ Walk c.owner c.scope t [ofBody 0 .function [] b] u := by
      refine ((yields_enter c .function).bind fun c' => (blockWalks c' body).toYields.bind fun b =>
        .done (Item.event l kind b)).mono ?_
      rintro t i u ⟨c', _, ⟨rfl, rfl⟩, b, _, hb, rfl, rfl⟩
      exact ⟨b, rfl, .block .nil hb .nil⟩
    cases kind with
    | signal r =>
      refine ((yields_signal c r).bind fun r' => h (.signal r')).mono ?_
      rintro t i u ⟨r', _, ⟨rfl, hn, id, hr, hl, hk⟩, b, rfl, hb⟩ t0 h0
      refine h0.append (.single ⟨?_, fun _ => .inl fun _ hid => ?_⟩ hb rfl rfl)
      · rintro _ ⟨⟩
        exact ⟨id, hr, hn ▸ hl⟩
      · exact Option.some.inj (hr.symm.trans hid) ▸ hk
    | _ =>
      refine (h _).mono ?_
      rintro t i u ⟨b, rfl, hb⟩ t0 h0
      exact h0.append (hb.plain rfl)
  | interrupt l d =>
    exact .step (d.pin.walks c) fun _ => .nested 0 (fun c' => blockWalks c' d.body) fun _ => .close rfl rfl rfl
  | task l d =>
    exact .step (exprWalks? c d.period) fun _ => .nested 0 (fun c' => blockWalks c' d.body) fun _ =>
      .close rfl rfl rfl
  | config l entries =>
    refine Yields.pure fun t t0 h0 => h0.append (Walk.plain ?_ rfl)
    have h := Walk.unread (o := c.owner) (s := c.scope) (t := t) (entries.map fun f => .expr f.value)
    rwa [List.map_map] at h
  | module l aliasName path symbol program =>
    exact Yields.pure fun t t0 h0 => h0.append (Walk.plain (Walk.unread [.unit program]) rfl)
  | _ => exact .close rfl rfl rfl

end SketchCompiler
