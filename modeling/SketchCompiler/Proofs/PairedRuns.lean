import SketchCompiler.Proofs.PairedTables
import SketchCompiler.Proofs.StrayJumps

namespace SketchCompiler

open SymbolTable Resolve List

variable {ι : Type}

/-- The same error, but for the aliases around the unit: `around` on one side, and `around'` on the other. -/
inductive NameError.Same (around around' : List String) : NameError → NameError → Prop
  | same (e : NameError) : Same around around' e e
  | unknownMember {p q} (h : SamePath around around' p q) (member : String) :
    Same around around' (.unknownMember (String.intercalate "." p) member)
    (.unknownMember (String.intercalate "." q) member)
  | constantAssignment {p q} (h : SamePath around around' p q) :
    Same around around' (.constantAssignment (String.intercalate "." p))
    (.constantAssignment (String.intercalate "." q))

/-- Scopes of both runs, and whether they lie in a loop. -/
abbrev ScopePairs := List ((ScopeId × ScopeId) × Bool)

def Expr.isSelf : Expr → Bool
  | .self _ => true
  | _ => false

namespace Pairing

def SameError (k : Pairing) (x y : Located NameError) : Prop :=
  x.loc = y.loc ∧ x.value.Same k.left.path k.right.path y.value

/-- Between the states `r` and `s` the same errors were found as between `r'` and `s'`. -/
def SameErrors (k : Pairing) (r r' s s' : Resolution) : Prop :=
  ∃ es es', s.errors.toList = r.errors.toList ++ es ∧ s'.errors.toList = r'.errors.toList ++ es' ∧
    List.Forall₂ k.SameError es es'

/-- The scopes are there, in a loop or in none. -/
structure Stands (k : Pairing) (t : SymbolTable) (x : (ScopeId × ScopeId) × Bool) : Prop where
  inner : k.Inner t x.1.1 x.1.2
  loops : t.LoopAt x.1.1 x.2

/-- The sites stand in scopes of the unit, which are among the given ones. -/
structure SameSite (k : Pairing) (xs : ScopePairs) (b : Bool) (c c' : Site) : Prop where
  scope : ((c.scope, c'.scope), b) ∈ xs
  same : k.SameScope c.scope c'.scope
  owner : ∃ t, Option.Rel (k.SameId t) c.owner c'.owner
  declaring_eq : c.declaring = c'.declaring

/-- What is read off a resolved expression, beside its parts. -/
structure SameHead (k : Pairing) (t : SymbolTable) (e e' : Expr) : Prop where
  symbol : Option.Rel (k.SameId t) e.symbol? e'.symbol?
  isSelf_eq : e.isSelf = e'.isSelf
  loc_eq : e.loc = e'.loc

structure SameReference (k : Pairing) (t : SymbolTable) (x y : Reference) : Prop where
  name_eq : x.name = y.name
  symbol : Option.Rel (k.SameId t) x.symbol y.symbol

variable {k : Pairing} {xs : ScopePairs} {b : Bool} {t u : SymbolTable} {c c' : Site}

lemma Stands.mono {x} (h : k.Stands t x) (hu : t.KeepsScopes u) : k.Stands u x :=
  ⟨h.inner.mono hu.scopes_le, h.loops.mono hu⟩

lemma SameErrors.refl (k : Pairing) (r r' : Resolution) : k.SameErrors r r' r r' :=
  ⟨[], [], (append_nil _).symm, (append_nil _).symm, .nil⟩

lemma SameErrors.trans {r r' s s' x x'} (h : k.SameErrors r r' s s') (h' : k.SameErrors s s' x x') :
    k.SameErrors r r' x x' := by
  obtain ⟨es, es', he, he', hes⟩ := h
  obtain ⟨fs, fs', hf, hf', hfs⟩ := h'
  refine ⟨es ++ fs, es' ++ fs', ?_, ?_, rel_append hes hfs⟩
  · rw [hf, he, append_assoc]
  · rw [hf', he', append_assoc]

lemma SameSite.declares (h : k.SameSite xs b c c') (name : String) :
    k.SameSite xs b { c with declaring := some name } { c' with declaring := some name } :=
  ⟨h.scope, h.same, h.owner, rfl⟩

lemma SameSite.inside (h : k.SameSite xs b c c') (x : (ScopeId × ScopeId) × Bool) :
    k.SameSite (x :: xs) b c c' :=
  ⟨.tail _ h.scope, h.same, h.owner, h.declaring_eq⟩

end Pairing

namespace Resolve

variable {α β γ δ : Type} {k : Pairing} {xs : ScopePairs} {b : Bool} {js js' : List (Located NameError)} {c c' : Site}
  {s s' : ScopeId} {t t' u : SymbolTable} {P : SymbolTable → α → β → Prop} {Q : SymbolTable → γ → δ → Prop}
  {m : Resolve α} {m' : Resolve β}

/-- From the states `r` and `r'` the same errors were found, with the jumps `js` among them, the tables agree again, and
the results correspond, also in view of all that is added to the table later. -/
structure Pairs (k : Pairing) (r r' : Resolution) (js : List (Located NameError)) (P : SymbolTable → α → β → Prop)
    (x : α × Resolution) (x' : β × Resolution) : Prop where
  grows : r.table.KeepsScopes x.2.table
  results (w : SymbolTable) : x.2.table.symbols.size ≤ w.symbols.size → P w x.1 x'.1
  agrees : k.Agrees x.2.table x'.2.table
  errors : k.SameErrors r r' x.2 x'.2
  strays : x.2.strays = r.strays ++ js

/-- The steps pair from all tables that agree and have the given scopes. -/
def Together (k : Pairing) (xs : ScopePairs) (js : List (Located NameError)) (P : SymbolTable → α → β → Prop)
    (m : Resolve α) (m' : Resolve β) : Prop :=
  ∀ r r' : Resolution, k.Agrees r.table r'.table → (∀ x ∈ xs, k.Stands r.table x) → Pairs k r r' js P (m r) (m' r')

namespace Together

lemma of_eq (hm : Together k xs js P m m') (h : js' = js) : Together k xs js' P m m' := h ▸ hm

lemma pure {a : α} {b : β} (h : ∀ {w}, P w a b) : Together k xs [] P (Pure.pure a) (Pure.pure b) :=
  fun r r' ht _ => ⟨.refl _, fun _ _ => h, ht, .refl k r r', (append_nil _).symm⟩

/-- What the first step gives is known at once in the table it leaves, and in the end in the last table. -/
lemma step {f : α → Resolve γ} {f' : β → Resolve δ} (hm : Together k xs js P m m')
    (hf : ∀ {a b t}, P t a b → Together k xs js' (fun w x y => P w a b → Q w x y) (f a) (f' b)) :
    Together k xs (js ++ js') Q (m >>= f) (m' >>= f') := by
  intro r r' ht hx
  obtain ⟨hu, hp, hu', he, hj⟩ := hm r r' ht hx
  obtain ⟨hv, hq, hv', he', hj'⟩ := hf (hp _ le_rfl) _ _ hu' fun x h => (hx x h).mono hu
  exact ⟨hu.trans hv, fun w hw => hq w hw (hp w (hv.symbols_le.trans hw)), hv', he.trans he',
    hj'.trans (by rw [hj, append_assoc])⟩

lemma bind {f : α → Resolve γ} {f' : β → Resolve δ} (hm : Together k xs [] P m m')
    (hf : ∀ {a b t}, P t a b → Together k xs js (fun w x y => P w a b → Q w x y) (f a) (f' b)) :
    Together k xs js Q (m >>= f) (m' >>= f') :=
  hm.step hf

lemma imp {P' : SymbolTable → α → β → Prop} (hm : Together k xs js P m m') (h : ∀ {w a b}, P w a b → P' w a b) :
    Together k xs js P' m m' := by
  intro r r' ht hx
  obtain ⟨hu, hp, hu', he, hj⟩ := hm r r' ht hx
  exact ⟨hu, fun w hw => h (hp w hw), hu', he, hj⟩

lemma and {R : α → Prop} (hm : Together k xs js P m m') (hr : ∀ r, R (m r).1) :
    Together k xs js (fun w a b => P w a b ∧ R a) m m' := by
  intro r r' ht hx
  obtain ⟨hu, hp, hu', he, hj⟩ := hm r r' ht hx
  exact ⟨hu, fun w hw => ⟨hp w hw, hr r⟩, hu', he, hj⟩

lemma andThen {f : α → Resolve γ} {f' : β → Resolve δ} (hm : Together k xs [] (fun _ _ _ => True) m m')
    (hf : ∀ a b, Together k xs js Q (f a) (f' b)) : Together k xs js Q (m >>= f) (m' >>= f') :=
  hm.bind fun _ => (hf _ _).imp fun h _ => h

lemma last {f : α → γ} {f' : β → δ} (hm : Together k xs js P m m') (h : ∀ {w a b}, P w a b → Q w (f a) (f' b)) :
    Together k xs js Q (m >>= fun a => Pure.pure (f a)) (m' >>= fun b => Pure.pure (f' b)) :=
  .of_eq (hm.step fun _ => .pure h) (append_nil _).symm

lemma mapM {ι' : Type} {R : SymbolTable → ι → ι' → Prop} {f : ι → Resolve α} {f' : ι' → Resolve β}
    {g : ι → List (Located NameError)} {is : List ι} {is' : List ι'} {t} (h : Forall₂ (R t) is is')
    (hf : ∀ {i i'}, R t i i' → Together k xs (g i) (fun w a b => R w i i' → P w a b) (f i) (f' i')) :
    Together k xs (is.flatMap g) (fun w as bs => Forall₂ (R w) is is' → Forall₂ (P w) as bs) (is.mapM f)
      (is'.mapM f') := by
  induction h with
  | nil => exact .pure fun _ => .nil
  | cons hi _ ih =>
    rw [mapM_cons, mapM_cons]
    refine .of_eq (.step (hf hi) fun _ => .step ih fun _ => .pure fun has ha hr => ?_) (by simp)
    obtain ⟨hi, his⟩ := forall₂_cons.mp hr
    exact .cons (ha hi) (has his)

lemma mapM_self {f : ι → Resolve α} {f' : ι → Resolve β} (is : List ι)
    (hf : ∀ i ∈ is, Together k xs [] P (f i) (f' i)) :
    Together k xs [] (fun w => Forall₂ (P w)) (is.mapM f) (is.mapM f') := by
  induction is with
  | nil => exact .pure .nil
  | cons i is ih =>
    rw [mapM_cons, mapM_cons]
    refine .bind (hf i (.head _)) fun _ => .bind (ih fun j hj => hf j (.tail _ hj)) fun _ => .pure fun has ha => ?_
    exact .cons ha has

lemma forM {f f' : ι → Resolve PUnit} (is : List ι)
    (hf : ∀ i, Together k xs [] (fun _ _ _ => True) (f i) (f' i)) :
    Together k xs [] (fun _ _ _ => True) (is.forM f) (is.forM f') := by
  induction is with
  | nil => exact .pure trivial
  | cons i is ih => exact .andThen (hf i) fun _ _ => ih

lemma report {e e' : NameError} (h : e.Same k.left.path k.right.path e') (l : Location)
    (he : e.isOutsideLoop = false := by rfl) :
    Together k xs [] (fun _ _ _ => True) (Resolve.report e l) (Resolve.report e' l) := by
  refine fun r _ ht _ => ⟨.refl _, fun _ _ => trivial, ht, ⟨[⟨e, l⟩], [⟨e', l⟩], Array.toList_push, Array.toList_push,
    .cons ⟨rfl, h⟩ .nil⟩, ?_⟩
  rw [strays_report, he]
  rfl

lemma setTable (r r' : Resolution) {u'} (hu : r.table.KeepsScopes u) (h : k.Agrees u u')
    (hx : ∀ x ∈ xs, k.Stands u x) (hm : Together k xs js P m m') :
    Pairs k r r' js P (m { r with table := u }) (m' { r' with table := u' }) := by
  obtain ⟨hv, hp, hv', he, hj⟩ := hm { r with table := u } { r' with table := u' } h hx
  exact ⟨hu.trans hv, hp, hv', he, hj⟩

lemma looks {f f' : SymbolTable → Resolve α} {R : SymbolTable → α → α → Prop}
    (h : ∀ {t t'}, k.Agrees t t' →
      Together k xs js (fun w a b => t.symbols.size ≤ w.symbols.size → R w a b) (f t) (f' t')) :
    Together k xs js R (table >>= f) (table >>= f') := by
  intro r r' ht hx
  obtain ⟨hu, hp, hu', he, hj⟩ := h ht r r' ht hx
  exact ⟨hu, fun w hw => hp w hw (hu.symbols_le.trans hw), hu', he, hj⟩

lemma inspects {f f' : SymbolTable → Resolve α} {R : SymbolTable → α → α → Prop}
    (h : ∀ {t t'}, k.Agrees t t' → Together k xs js R (f t) (f' t')) :
    Together k xs js R (table >>= f) (table >>= f') :=
  .looks fun ht => (h ht).imp fun h _ => h

lemma declareIn (hs : ((s, s'), b) ∈ xs) (name : Name) (kind : SymbolKind) (type : Option TypeName) :
    Together k xs [] (fun w => Option.Rel (k.Own w)) (declareIn s name kind type) (declareIn s' name kind type) := by
  intro r r' ht hx
  have hi := (hx _ hs).inner
  have hsym : k.SameSymbol { name := name.text, kind, type, scope := s }
      { name := name.text, kind, type, scope := s' } := ⟨rfl, rfl, rfl, hi.same, .none⟩
  have hlooks (f : SymbolTable → Resolve (Option SymbolId)) (r : Resolution) : (table >>= f) r = f r.table r :=
    rfl
  unfold Resolve.declareIn
  rw [hlooks, hlooks]
  rcases ht.declare hsym hi with ⟨i, j, hi, hj⟩ | ⟨v, v', i, j, hi, hj, hv, hij⟩
  · rw [hi, hj]
    exact andThen (report (.same _) _) (fun _ _ => pure .none) r r' ht hx
  · rw [hi, hj]
    exact ⟨keepsScopes_declare hi, fun w hw => .some (hij.mono hw), hv, .refl k r r', (append_nil _).symm⟩

lemma enter (hc : k.SameSite xs b c c') (kind : ScopeKind) {f : Site → Resolve α} {f' : Site → Resolve β}
    (hf : ∀ {x d d'}, k.SameSite (x :: xs) (kind.loops b) d d' → Together k (x :: xs) js P (f d) (f' d')) :
    Together k xs js P (enter c kind >>= f) (enter c' kind >>= f') := by
  intro r r' ht hx
  obtain ⟨hi, hl⟩ := hx _ hc.scope
  obtain ⟨hu, hs⟩ := ht.pushScope hi kind
  have he := keepsScopes_push r.table { parent := c.scope, kind, path := (r.table.scope c.scope).path }
  have hx : ∀ x ∈ ((r.table.scopes.size, r'.table.scopes.size), kind.loops b) :: xs, k.Stands _ x :=
    forall_mem_cons.mpr ⟨⟨hs, hl.enter kind⟩, fun x h => (hx x h).mono he⟩
  have hd : k.SameSite (_ :: xs) (kind.loops b) { c with scope := _ } { c' with scope := _ } :=
    ⟨.head _, hs.same, hc.owner, hc.declaring_eq⟩
  have h := setTable r r' he hu hx (hf hd)
  exact h

lemma openModule {R : SymbolTable → γ → γ → Prop} (hc : k.SameSite xs b c c') (name : String)
    (f : Site → ScopeId → Resolve γ)
    (hf : ∀ {s s'}, k.SameSite (((s, s'), false) :: xs) false { c with scope := s } { c' with scope := s' } →
      Together k (((s, s'), false) :: xs) js R (f c s) (f c' s')) :
    Together k xs js R
      (do
        let t ← table
        let (t, scope) := t.pushModule ((t.scope c.scope).path ++ [name])
        modify fun r => { r with table := t }
        f c scope)
      (do
        let t ← table
        let (t, scope) := t.pushModule ((t.scope c'.scope).path ++ [name])
        modify fun r => { r with table := t }
        f c' scope) := by
  intro r r' ht hx
  obtain ⟨hu, hs⟩ := ht.pushModule (hx _ hc.scope).inner name
  have he := keepsScopes_push r.table
    { parent := some root, kind := .module, path := (r.table.scope c.scope).path ++ [name] }
  have hx : ∀ x ∈ ((r.table.scopes.size, r'.table.scopes.size), false) :: xs, k.Stands _ x :=
    forall_mem_cons.mpr ⟨⟨hs, loopAt_push _ (by simp) (by simp)⟩, fun x h => (hx x h).mono he⟩
  have h := setTable r r' he hu hx (hf ⟨.head _, hs.same, hc.owner, hc.declaring_eq⟩)
  exact h

lemma setMembers {t} {i j} (hi : Option.Rel (k.Own t) i j) (hs : k.SameScope s s') :
    Together k xs [] (fun _ _ _ => True) (setMembers i s) (setMembers j s') := by
  cases hi with
  | none => exact .pure trivial
  | some hi =>
    exact fun r r' ht _ => ⟨⟨extends_setMembers .., fun _ => rfl⟩, fun _ _ => trivial, ht.setMembers hi hs,
      .refl k r r', (append_nil _).symm⟩

lemma reference (hc : k.SameSite xs b c c') {x : Reference} (hx : x.symbol = none) :
    Together k xs [] k.SameReference (reference c x) (reference c' x) := by
  have unchanged {w : SymbolTable} : k.SameReference w x x := ⟨rfl, by rw [hx]; exact .none⟩
  unfold Resolve.reference
  rw [hc.declaring_eq]
  split
  · exact .andThen (.report (.same _) _) fun _ _ => .pure unchanged
  · refine .looks fun {t t'} ht => ?_
    have hl := ht.lookup? hc.same x.name.text
    rw [ht.visible_eq hc.same]
    generalize t.lookup? c.scope x.name.text = a, t'.lookup? c'.scope x.name.text = b at hl ⊢
    cases hl with
    | none => exact .andThen (.report (.same _) _) fun _ _ => .pure fun _ => unchanged
    | some hi => exact .pure fun hw => ⟨rfl, .some (hi.mono hw)⟩

lemma signal (hc : k.SameSite xs b c c') {x : Reference} (hx : x.symbol = none) :
    Together k xs [] k.SameReference (signal c x) (signal c' x) := by
  refine .bind (.reference hc hx) fun {y y' u} hy => ?_
  obtain ⟨name, symbol⟩ := y
  obtain ⟨name', symbol'⟩ := y'
  obtain ⟨rfl, hs⟩ := hy
  cases hs with
  | none => exact .pure fun h => h
  | some hi =>
    refine .inspects fun ht => ?_
    rw [ht.kind_eq hi]
    split
    · exact .andThen (.report (.same _) _) fun _ _ => .pure fun h => h
    · exact .pure fun h => h

lemma owner?_eq (t : SymbolTable) (c : Site) (e : Expr) : owner? t c e =
    if e.isSelf then c.owner else e.symbol?.filter fun id => t.kind id = .moduleAlias || t.kind id = .enumType := by
  cases e <;> rfl

lemma owner? (ht : k.Agrees t t') (hc : k.SameSite xs b c c') {e e'} (he : k.SameHead u e e') :
    ∃ v, Option.Rel (k.SameId v) (Resolve.owner? t c e) (Resolve.owner? t' c' e') := by
  have hs := he.symbol
  rw [owner?_eq, owner?_eq, he.isSelf_eq]
  split
  · exact hc.owner
  · refine ⟨u, ?_⟩
    generalize e.symbol? = a, e'.symbol? = b at hs ⊢
    cases hs with
    | none => exact .none
    | some hi =>
      rw [Option.filter_some, Option.filter_some, ht.kind_eq hi]
      split
      · exact .some hi
      · exact .none

lemma member (hc : k.SameSite xs b c c') {e e'} (he : k.SameHead u e e') (name : Name) :
    Together k xs [] (fun w => Option.Rel (k.SameId w)) (member c e name) (member c' e' name) := by
  refine .looks fun {t t'} ht => ?_
  obtain ⟨v, ho⟩ := owner? ht hc he
  generalize Resolve.owner? t c e = a, Resolve.owner? t' c' e' = b at ho ⊢
  cases ho with
  | none => exact .pure fun _ => .none
  | @some i j hi =>
    have hm := (ht.get hi).members
    dsimp only
    generalize (t.get i).members = a, (t'.get j).members = b at hm ⊢
    cases hm with
    | none => exact .pure fun _ => .none
    | @some s s' hs =>
      have hx := ht.member? hs name.text
      dsimp only
      generalize t.member? s name.text = a, t'.member? s' name.text = b at hx ⊢
      cases hx with
      | none => exact .andThen (.report (.unknownMember (ht.qualifiedPath hi) _) _) fun _ _ => .pure fun _ => .none
      | some hx => exact .pure fun hw => .some (hx.mono hw)

lemma any_eq (ht : k.Agrees t t') {a b : Option SymbolId} (h : Option.Rel (k.SameId t) a b) :
    (b.any fun id => (t'.kind id).isType) = a.any fun id => (t.kind id).isType := by
  cases h with
  | none => rfl
  | some hi => rw [Option.any_some, Option.any_some, ht.kind_eq hi]

lemma checkType (hc : k.SameSite xs b c c') (type : Located TypeName) :
    Together k xs [] (fun _ _ _ => True) (checkType c type) (checkType c' type) := by
  refine .inspects fun {t t'} ht => ?_
  have hk : isKnownType t' c'.scope type.value = isKnownType t c.scope type.value := by
    unfold isKnownType
    rw [any_eq ht (ht.path? hc.same _), any_eq ht (ht.lookup? hc.same _)]
  rw [hk]
  split
  · exact .pure trivial
  · exact .report (.same _) _

lemma checkFields {s s'} (hs : k.SameScope s s') (type : TypeName) {fs fs'}
    (hf : Forall₂ (fun f f' => f.name = f'.name) fs fs') :
    Together k xs [] (fun _ _ _ => True) (checkFields s type fs) (checkFields s' type fs') := by
  induction hf with
  | nil => exact .pure trivial
  | @cons f f' fs fs' hf _ ih =>
    rw [Resolve.checkFields, Resolve.checkFields, hf]
    refine .inspects fun {t t'} ht => ?_
    have hx := ht.member? hs f'.name.text
    generalize t.member? s f'.name.text = a, t'.member? s' f'.name.text = b at hx ⊢
    cases hx with
    | none => exact .andThen (.report (.same _) _) fun _ _ => ih
    | some hx => exact ih

lemma checkStruct (hc : k.SameSite xs b c c') (type : Located TypeName) {fs fs'}
    (hf : Forall₂ (fun f f' => f.name = f'.name) fs fs') :
    Together k xs [] (fun _ _ _ => True) (checkStruct c type fs) (checkStruct c' type fs') := by
  refine .inspects fun {t t'} ht => ?_
  have hx := ht.path? hc.same type.value.path
  generalize t.path? c.scope type.value.path = a, t'.path? c'.scope type.value.path = b at hx ⊢
  cases hx with
  | none => exact .report (.same _) _
  | @some i j hi =>
    dsimp only
    rw [ht.kind_eq hi]
    split
    · exact .report (.same _) _
    · have hm := (ht.get hi).members
      generalize (t.get i).members = a, (t'.get j).members = b at hm ⊢
      cases hm with
      | none => exact .pure trivial
      | some hs => exact .checkFields hs _ hf

lemma checkAssignable {e e'} (he : k.SameHead t e e') :
    Together k xs [] (fun _ _ _ => True) (checkAssignable e) (checkAssignable e') := by
  have hs := he.symbol
  unfold Resolve.checkAssignable
  rw [he.loc_eq]
  generalize e.symbol? = a, e'.symbol? = b at hs ⊢
  cases hs with
  | none => exact .pure trivial
  | some hi =>
    refine .inspects fun ht => ?_
    rw [ht.kind_eq hi]
    split
    · exact .pure trivial
    · exact .report (.constantAssignment (ht.qualifiedPath hi)) _

lemma checkInLoop (hc : k.SameSite xs b c c') (word : String) (l : Location) :
    Together k xs (if b then [] else [⟨.outsideLoop word, l⟩]) (fun _ _ _ => True) (checkInLoop c word l)
      (checkInLoop c' word l) := by
  intro r r' ht hx
  have hl : r.table.inLoop c.scope = b := (hx _ hc.scope).loops.inLoop_eq
  have hlooks (c : Site) (r : Resolution) : Resolve.checkInLoop c word l r =
      (if r.table.inLoop c.scope then Pure.pure () else Resolve.report (.outsideLoop word) l : Resolve Unit) r := rfl
  rw [hlooks, hlooks, ht.inLoop_eq hc.same, hl]
  cases b with
  | true => exact pure trivial r r' ht hx
  | false =>
    exact ⟨.refl _, fun _ _ => trivial, ht, ⟨_, _, Array.toList_push, Array.toList_push, .cons ⟨rfl, .same _⟩ .nil⟩,
      strays_report _ _ r⟩

end Together

end Resolve

end SketchCompiler
