import SketchCompiler.Proofs.Spots
import SketchCompiler.Proofs.TableGrowth

namespace SketchCompiler

open Node

variable {p : Prop} (c : Site)

/-- The member of an object that is known at once: of `self`, a module or an enumeration. -/
def SymbolTable.memberOf? (t : SymbolTable) (owner : Option SymbolId) (object : Expr) (name : String) :
    Option SymbolId := do
  let id ← Resolve.owner? t { scope := root, owner } object
  t.member? (← (t.get id).members) name

/-- What is looked up in a table at the node: a member is found there, `self` stands inside a class, a target can be
assigned to, and what is emitted or handled is a signal. -/
def Node.Finds (owner : Option SymbolId) (t : SymbolTable) : Node → Prop
  | .expr (.self _) => owner ≠ none
  | .expr (.member _ object name symbol) => symbol = t.memberOf? owner object name.text
  | .stmt (.assign _ target _) => ∀ id, target.symbol? = some id → (t.kind id).isAssignable
  | .stmt (.emit _ r) | .item (.event _ (.signal r) _) => ∀ id, r.symbol = some id → t.kind id = .signal
  | _ => True

namespace Spot

open Node

/-- A use of a name has what the name stands for. -/
def Reads (x : Spot) (s : ScopeId) (t : SymbolTable) : Prop :=
  ∀ r, x.reference? = some r → ∃ id, r.symbol = some id ∧ t.lookup? s r.name.text = some id

/-- What is asked at a spot, of the table `t` before its parts or of the table `a` behind them. -/
structure Checked (owner : Option SymbolId) (s : ScopeId) (t a : SymbolTable) (x : Spot) : Prop where
  reads : x.Reads s t
  finds : x.isRead → x.toNode.Finds owner t ∨ x.toNode.Finds owner a

/-- The class around the parts of a spot, if there is one. -/
def owner (around : Option SymbolId) : Spot → Option SymbolId
  | node (item (.classDecl _ d)) => d.symbol
  | field _ => none
  | _ => around

/-- Nothing is asked or declared at the spot itself. -/
def isPlain : Spot → Bool
  | node (expr (.name ..)) | node (expr (.self _)) | node (expr (.member ..)) => false
  | node (stmt (.assign ..)) | node (stmt (.emit ..)) | node (stmt (.breakLoop _)) | node (stmt (.continueLoop _)) =>
    false
  | node (item (.aliasDecl ..)) | node (item (.classDecl ..)) | node (item (.event _ (.signal _) _)) => false
  | field _ | guarded .. => false
  | declared d =>
    match d.initializer with
    | some (.guarded ..) => true
    | _ => false
  | _ => true

variable {x : Spot} {o : Option SymbolId} {s : ScopeId} {t a : SymbolTable}

lemma Checked.of_silent (hr : x.reference? = none) (hf : ∀ o t, x.toNode.Finds o t) : x.Checked o s t a where
  reads := by simp [Reads, hr]
  finds _ := .inl (hf o t)

lemma Checked.unread (n : Node) : (unread n).Checked o s t a := ⟨nofun, nofun⟩

lemma Checked.of_isPlain (h : x.isPlain) : x.Checked o s t a := by
  cases x with
  | node n =>
    cases n with
    | unit p | var d => exact .of_silent rfl fun _ _ => trivial
    | item i =>
      cases i with
      | event l kind body => cases kind <;> first | exact .of_silent rfl fun _ _ => trivial | cases h
      | _ => exact .of_silent rfl fun _ _ => trivial
    | stmt s => cases s <;> first | exact .of_silent rfl fun _ _ => trivial | cases h
    | expr e => cases e <;> first | exact .of_silent rfl fun _ _ => trivial | cases h
  | declared d => exact .of_silent rfl fun _ _ => trivial
  | unread n => exact .unread n
  | _ => cases h

lemma declares_of_isPlain (h : x.isPlain) : x.owner o = o ∧ x.binder? = none ∧ x.after = [] := by
  cases x with
  | node n =>
    cases n with
    | item i => cases i <;> first | exact ⟨rfl, rfl, rfl⟩ | cases h
    | _ => exact ⟨rfl, rfl, rfl⟩
  | declared d =>
    refine ⟨rfl, ?_, rfl⟩
    rcases hi : d.initializer with _ | e
    · simp [isPlain, hi] at h
    · cases e <;> simp_all [isPlain, binder?]
  | unread n => exact ⟨rfl, rfl, rfl⟩
  | _ => cases h

end Spot

/-- The names are declared in the scope `s`, one after the other. -/
inductive Binds (s : ScopeId) : SymbolTable → List Binder → SymbolTable → Prop
  | nil {t} : Binds s t [] t
  | cons {t u v x xs id type} : t.declare { name := x.name.text, kind := x.kind, type, scope := s } = .ok (u, id) →
      x.symbol = some id → Binds s u xs v → Binds s t (x :: xs) v

/-- From the table `t` to the table `u` the parts are walked over in the scope `s`, with the class `o` around. -/
inductive Walk : Option SymbolId → ScopeId → SymbolTable → List SpotPart → SymbolTable → Prop
  | nil {o s t} : Walk o s t [] t
  | child {o s t a b c u x ps} : x.Checked o s t a → Walk (x.owner o) s t x.before a → Binds s a x.binder?.toList b →
      Walk o s b x.after c → Walk o s c ps u → Walk o s t (.child x :: ps) u
  | block {o s t t₁ t₂ u number kind header parts ps} : Binds t.scopes.size (t.pushScope s kind).1 header t₁ →
      Walk o t.scopes.size t₁ parts t₂ → Walk o s t₂ ps u → Walk o s t (.block number kind header parts :: ps) u

lemma Binds.adds {s} {t u : SymbolTable} {xs} (h : Binds s t xs u) (ht : t.Sound)
    (hs : s < t.scopes.size) : Adds s t xs u := by
  induction h with
  | nil => exact .refl s ht
  | cons hd hx _ ih =>
    have ha := Adds.declare ht hs hd (.inl hx)
    exact ha.trans (ih ha.sound (hs.trans_le ha.scopes_le)) hs

namespace Walk

variable {o : Option SymbolId} {s : ScopeId} {t u v : SymbolTable} {ps qs : List SpotPart} {x : Spot}

lemma append (h : Walk o s t ps u) (h' : Walk o s u qs v) : Walk o s t (ps ++ qs) v := by
  induction h with
  | nil => exact h'
  | child hx hb hd ha _ _ _ ih => exact .child hx hb hd ha (ih h')
  | block hd hb _ _ ih => exact .block hd hb (ih h')

lemma single (hx : x.Checked o s t u) (h : Walk (x.owner o) s t x.before u) (hb : x.binder? = none)
    (ha : x.after = []) : Walk o s t [.child x] u := by
  refine .child hx h (b := u) (c := u) ?_ ?_ .nil
  · rw [hb]
    exact .nil
  · rw [ha]
    exact .nil

lemma plain (h : Walk o s t x.before u) (hx : x.isPlain) : Walk o s t [.child x] u := by
  obtain ⟨ho, hb, ha⟩ := Spot.declares_of_isPlain (o := o) hx
  exact single (.of_isPlain hx) (ho.symm ▸ h) hb ha

end Walk

namespace Resolve

variable {α β : Type} {o : Option SymbolId} {s : ScopeId} {ps : List SpotPart}

/-- If the step ends without errors, it began without errors, and `P` holds of the tables around it and its result. -/
def Yields (m : Resolve α) (P : SymbolTable → α → SymbolTable → Prop) : Prop :=
  ∀ r, (m r).2.errors = #[] → r.errors = #[] ∧ P r.table (m r).1 (m r).2.table

namespace Yields

variable {m : Resolve α} {k : α → Resolve β} {P Q : SymbolTable → α → SymbolTable → Prop}

lemma pure {a : α} (h : ∀ t, P t a t) : Yields (Pure.pure a) P := fun r he => ⟨he, h r.table⟩

lemma done (a : α) : Yields (Pure.pure a) fun t b u => u = t ∧ b = a := .pure fun _ => ⟨rfl, rfl⟩

lemma mono (hm : Yields m P) (h : ∀ t a u, P t a u → Q t a u) : Yields m Q :=
  fun r he => ⟨(hm r he).1, h _ _ _ (hm r he).2⟩

lemma bind {Q : α → SymbolTable → β → SymbolTable → Prop} (hm : Yields m P) (hk : ∀ a, Yields (k a) (Q a)) :
    Yields (m >>= k) fun t b v => ∃ a u, P t a u ∧ Q a u b v := by
  intro r he
  obtain ⟨hm', hq⟩ := hk (m r).1 (m r).2 he
  obtain ⟨hr, hp⟩ := hm r hm'
  exact ⟨hr, (m r).1, (m r).2.table, hp, hq⟩

lemma and (hm : Yields m P) {Q : α → Prop} (hq : ∀ r, Q (m r).1) : Yields m fun t a u => P t a u ∧ Q a :=
  fun r he => ⟨(hm r he).1, (hm r he).2, hq r⟩

lemma ite [Decidable p] {n : Resolve α} (hm : p → Yields m P) (hn : ¬ p → Yields n P) :
    Yields (if p then m else n) P := by
  split
  · exact hm ‹_›
  · exact hn ‹_›

lemma mapM {f : α → Resolve β} {P : SymbolTable → β → SymbolTable → Prop}
    {Q : SymbolTable → List β → SymbolTable → Prop} (hf : ∀ a, Yields (f a) P) (nil : ∀ t, Q t [] t)
    (cons : ∀ {t b u bs v}, P t b u → Q u bs v → Q t (b :: bs) v) (as : List α) : Yields (as.mapM f) Q := by
  induction as with
  | nil => exact .pure nil
  | cons a as ih =>
    rw [List.mapM_cons]
    refine ((hf a).bind fun b => ih.bind fun bs => .done _).mono ?_
    rintro t _ v ⟨b, u, hb, bs, _, hbs, rfl, rfl⟩
    exact cons hb hbs

lemma report {e} {l} {P : SymbolTable → Unit → SymbolTable → Prop} : Yields (Resolve.report e l) P := by
  intro r he
  have hp : r.errors.push ⟨e, l⟩ = #[] := he
  simp at hp

lemma failed {e} {l} {a : α} : Yields (do Resolve.report e l; return a) P := by
  intro r he
  have hp : r.errors.push ⟨e, l⟩ = #[] := he
  simp at hp

lemma table : Yields table fun t a u => a = t ∧ u = t := fun _ he => ⟨he, rfl, rfl⟩

end Yields

def Passes (m : Resolve α) : Prop := Yields m fun t _ u => u = t

namespace Passes

lemma pure (a : α) : Passes (Pure.pure a) := Yields.pure fun _ => rfl

lemma bind {m : Resolve α} {k : α → Resolve β} (hm : Passes m) (hk : ∀ a, Passes (k a)) : Passes (m >>= k) :=
  (Yields.bind hm hk).mono fun _ _ _ ⟨_, _, hu, hv⟩ => hv.trans hu

lemma before {m : Resolve α} {k : α → Resolve β} {Q : SymbolTable → β → SymbolTable → Prop} (hm : Passes m)
    (hk : ∀ a, Yields (k a) Q) : Yields (m >>= k) Q :=
  (Yields.bind hm hk).mono fun _ _ _ ⟨_, _, hp, hq⟩ => hp ▸ hq

lemma ite [Decidable p] {m n : Resolve α} (hm : Passes m) (hn : Passes n) :
    Passes (if p then m else n) := Yields.ite (fun _ => hm) fun _ => hn

lemma table : Passes table := fun _ he => ⟨he, rfl⟩

end Passes

lemma yields_reference (r : Reference) : Yields (reference c r) fun t r' u =>
    u = t ∧ r'.name = r.name ∧ ∃ id, r'.symbol = some id ∧ t.lookup? c.scope r.name.text = some id := by
  unfold reference
  refine .ite (fun _ => .failed) fun _ => (Yields.table.bind (Q := fun a t r' u =>
    u = t ∧ r'.name = r.name ∧ ∃ id, r'.symbol = some id ∧ a.lookup? c.scope r.name.text = some id) fun a => ?_).mono ?_
  · cases a.lookup? c.scope r.name.text with
    | some id => exact .pure fun t => ⟨rfl, rfl, id, rfl, rfl⟩
    | none => exact .failed
  · rintro t r' u ⟨a, v, ⟨rfl, rfl⟩, rfl, hr⟩
    exact ⟨rfl, hr⟩

lemma yields_signal (r : Reference) : Yields (signal c r) fun t r' u => u = t ∧ r'.name = r.name ∧
    ∃ id, r'.symbol = some id ∧ t.lookup? c.scope r.name.text = some id ∧ t.kind id = .signal := by
  unfold signal
  refine ((yields_reference c r).bind (Q := fun r' t a u => u = t ∧ a = r' ∧ ∀ id, r'.symbol = some id →
    t.kind id = .signal) fun r' => ?_).mono ?_
  · cases hs : r'.symbol with
    | none => exact .pure fun _ => ⟨rfl, rfl, nofun⟩
    | some id =>
      refine (Yields.table.bind fun a => .ite (fun _ => .failed) fun ha => .pure
        (P := fun t b u => u = t ∧ b = r' ∧ a.kind id = .signal) fun _ => ⟨rfl, rfl, not_not.mp ha⟩).mono ?_
      rintro t b u ⟨_, _, ⟨rfl, rfl⟩, rfl, rfl, ha⟩
      exact ⟨rfl, rfl, fun _ hid => Option.some.inj hid ▸ ha⟩
  · rintro t a u ⟨r', v, ⟨rfl, hn, id, hr, hl⟩, rfl, rfl, hk⟩
    exact ⟨rfl, hn, id, hr, hl, hk id hr⟩

lemma yields_member (object : Expr) (name : Name) : Yields (member c object name) fun t symbol u =>
    u = t ∧ symbol = t.memberOf? c.owner object name.text := by
  have ho (t : SymbolTable) : owner? t { scope := SymbolTable.root, owner := c.owner } object = owner? t c object := by
    cases object <;> rfl
  refine (Yields.table.bind (Q := fun a t symbol u => u = t ∧ symbol = a.memberOf? c.owner object name.text)
    fun t => ?_).mono ?_
  · cases howner : owner? t c object with
    | none => exact .pure fun _ => ⟨rfl, by simp [SymbolTable.memberOf?, ho, howner]⟩
    | some owner =>
      dsimp only
      cases hmembers : (t.get owner).members with
      | none => exact .pure fun _ => ⟨rfl, by simp [SymbolTable.memberOf?, ho, howner, hmembers]⟩
      | some members =>
        dsimp only
        cases hm : t.member? members name.text with
        | some id => exact .pure fun _ => ⟨rfl, by simp [SymbolTable.memberOf?, ho, howner, hmembers, hm]⟩
        | none => exact .failed
  · rintro t symbol u ⟨_, _, ⟨rfl, rfl⟩, h⟩
    exact h

lemma passes_checkType (type : Located TypeName) : Passes (checkType c type) :=
  .bind .table fun _ => .ite (.pure _) Yields.report

lemma passes_checkFields (members : ScopeId) (type : TypeName) (fields : List FieldValue) :
    Passes (checkFields members type fields) := by
  induction fields with
  | nil => exact .pure _
  | cons f fs ih => exact .bind .table fun _ => .ite (.bind Yields.report fun _ => ih) ih

lemma passes_checkStruct (type : Located TypeName) (fields : List FieldValue) : Passes (checkStruct c type fields) := by
  refine .bind .table fun t => ?_
  cases t.path? c.scope type.value.path with
  | none => exact Yields.report
  | some id =>
    refine .ite Yields.report ?_
    cases (t.get id).members with
    | none => exact .pure _
    | some members => exact passes_checkFields members type.value fields

lemma yields_checkAssignable (target : Expr) : Yields (checkAssignable target) fun t _ u =>
    u = t ∧ ∀ id, target.symbol? = some id → (t.kind id).isAssignable := by
  unfold checkAssignable
  cases target.symbol? with
  | none => exact .pure fun _ => ⟨rfl, nofun⟩
  | some id =>
    refine (Yields.table.bind fun a => .ite (p := (a.kind id).isAssignable)
      (P := fun t _ u => u = t ∧ (a.kind id).isAssignable) (fun ha => .pure fun _ => ⟨rfl, ha⟩)
      fun _ => .report).mono ?_
    rintro t _ u ⟨_, _, ⟨rfl, rfl⟩, rfl, ha⟩
    exact ⟨rfl, fun _ hid => Option.some.inj hid ▸ ha⟩

lemma passes_checkInLoop (word : String) (l : Location) : Passes (checkInLoop c word l) :=
  .bind .table fun _ => .ite (.pure _) Yields.report

lemma yields_declareIn (s : ScopeId) (name : Name) (kind : SymbolKind) (type : Option TypeName) :
    Yields (declareIn s name kind type) fun t symbol u => ∃ id, symbol = some id ∧
      t.declare { name := name.text, kind, type, scope := s } = .ok (u, id) := by
  unfold declareIn
  refine (Yields.table.bind (Q := fun a _ symbol u => ∃ id, symbol = some id ∧
    a.declare { name := name.text, kind, type, scope := s } = .ok (u, id)) fun a => ?_).mono ?_
  · rcases a.declare { name := name.text, kind, type, scope := s } with _ | ⟨v, id⟩
    · exact .failed
    · exact fun r he => ⟨he, id, rfl, rfl⟩
  · rintro t symbol u ⟨a, v, ⟨rfl, rfl⟩, h⟩
    exact h

lemma yields_enter (kind : ScopeKind) : Yields (enter c kind) fun t c' u =>
    c' = { c with scope := t.scopes.size } ∧ u = (t.pushScope c.scope kind).1 :=
  fun _ he => ⟨he, rfl, rfl⟩

/-- After a walk over `ps` the step has walked over `f a`, where `a` is its result. -/
def Walks (o : Option SymbolId) (s : ScopeId) (ps : List SpotPart) (m : Resolve α) (f : α → List SpotPart) : Prop :=
  Yields m fun t a u => ∀ t0, Walk o s t0 ps t → Walk o s t0 (f a) u

namespace Walks

variable {m : Resolve α} {k : α → Resolve β} {f : α → List SpotPart} {g : β → List SpotPart}

lemma toYields (hm : Walks o s [] m f) : Yields m fun t a u => Walk o s t (f a) u := hm.mono fun t _ _ hw => hw t .nil

lemma pure {a : α} (h : f a = ps) : Walks o s ps (Pure.pure a) f := Yields.pure fun _ _ hw => h ▸ hw

lemma passes (hm : Passes m) (hk : ∀ a, Walks o s ps (k a) g) : Walks o s ps (m >>= k) g := hm.before hk

/-- A walk of its own, behind what was walked over before. -/
lemma step (hm : Walks o s [] m f) (hk : ∀ a, Walks o s (ps ++ f a) (k a) g) : Walks o s ps (m >>= k) g :=
  (Yields.bind hm hk).mono fun t _ _ ⟨_, _, hp, hq⟩ t0 hw => hq t0 (hw.append (hp t .nil))

/-- The parts of a plain spot make the spot. -/
lemma close {a : α} {x : Spot} (hf : f a = [.child x]) (hx : x.before = ps) (hp : x.isPlain) :
    Walks o s ps (Pure.pure a) f :=
  Yields.pure fun _ _ hw => hf ▸ (hx.symm ▸ hw : Walk _ _ _ x.before _).plain hp

lemma check {Q : SymbolTable → α → Prop} {b : α → β} {x : α → Spot} (hm : Yields m fun t a u => u = t ∧ Q t a)
    (hf : ∀ a, g (b a) = [.child (x a)]) (hx : ∀ a, (x a).before = ps)
    (hq : ∀ a t0 t, Q t a → (x a).Checked o s t0 t ∧ (x a).owner o = o)
    (hd : ∀ a, (x a).binder? = none ∧ (x a).after = []) : Walks o s ps (m >>= fun a => Pure.pure (b a)) g := by
  refine (hm.bind fun a => .done _).mono ?_
  rintro t _ u ⟨a, _, ⟨rfl, h⟩, rfl, rfl⟩ t0 hw
  obtain ⟨hc, ho⟩ := hq a t0 _ h
  rw [hf]
  exact .single hc (by rw [hx, ho]; exact hw) (hd a).1 (hd a).2

lemma nested {c : Site} {kind} {m : Site → Resolve α} (number : Nat) (hm : ∀ c', Walks c'.owner c'.scope [] (m c') f)
    (hk : ∀ a, Walks c.owner c.scope (ps ++ [.block number kind [] (f a)]) (k a) g) :
    Walks c.owner c.scope ps (enter c kind >>= fun c' => m c' >>= k) g := by
  refine ((yields_enter c kind).bind fun c' => Yields.bind (hm c') hk).mono ?_
  rintro t b v ⟨c', u, ⟨rfl, rfl⟩, a, w, hp, hq⟩ t0 hw
  exact hq t0 (hw.append (.block .nil (hp _ .nil) .nil))

end Walks

end Resolve

open Resolve SpotPart

lemma Expr.resolve_ne_guarded {e : Expr} (he : ∀ l v handler, e ≠ .guarded l v handler) (r : Resolution)
    (l : Location) (v : Expr) (handler : List Stmt) : (e.resolve c r).1 ≠ .guarded l v handler := by
  cases e with
  | guarded l v handler => exact absurd rfl (he l v handler)
  | self l =>
    intro h
    cases hc : c.owner <;> simp [Expr.resolve, hc] at h <;> cases h
  | _ =>
    intro h
    cases h

lemma resolveExpr?_ne_guarded {e} (he : ∀ l v handler, e ≠ some (.guarded l v handler))
    (r : Resolution) : ∀ l v handler, (resolveExpr? c e r).1 ≠ some (.guarded l v handler) := by
  intro l v handler
  cases e with
  | none => exact nofun
  | some e =>
    intro h
    refine e.resolve_ne_guarded c (fun l v handler he' => he l v handler (by rw [he'])) r l v handler ?_
    exact Option.some.inj h

mutual

lemma Expr.walks (c : Site) (e : Expr) : Walks c.owner c.scope [] (e.resolve c) fun e => ofNodes [.expr e] := by
  cases e with
  | literal l v => exact .close rfl rfl rfl
  | name l r =>
    refine ((yields_reference c r).bind fun r' => .done _).mono ?_
    rintro t e u ⟨r', v, ⟨rfl, hn, id, hr, hl⟩, rfl, rfl⟩ t0 hw
    refine hw.append (.single ⟨?_, fun _ => .inl trivial⟩ .nil rfl rfl)
    rintro _ ⟨⟩
    exact ⟨id, hr, hn ▸ hl⟩
  | self l =>
    rw [Expr.resolve]
    split
    · exact Yields.failed
    · rename_i hn
      refine Yields.pure fun _ _ hw => hw.append (.single ⟨nofun, fun _ => .inl fun h => hn ?_⟩ .nil rfl rfl)
      rw [h]
      rfl
  | binary l a op b => exact .step (a.walks c) fun _ => .step (b.walks c) fun _ => .close rfl rfl rfl
  | unary l op e => exact .step (e.walks c) fun _ => .close rfl rfl rfl
  | call l callee args =>
    exact .step (callee.walks c) fun _ => .step (exprsWalks c args) fun _ => .close rfl rfl rfl
  | member l object name symbol =>
    refine .step (object.walks c) fun object => .check (yields_member c object name) (fun _ => rfl) (fun _ => rfl)
      (fun symbol t0 t h => ⟨⟨nofun, fun _ => .inr h⟩, rfl⟩) fun _ => ⟨rfl, rfl⟩
  | new l type args =>
    exact .passes (passes_checkType c type) fun _ => .step (exprsWalks c args) fun _ => .close rfl rfl rfl
  | array l es => exact .step (exprsWalks c es) fun _ => .close rfl rfl rfl
  | subscript l a i => exact .step (a.walks c) fun _ => .step (i.walks c) fun _ => .close rfl rfl rfl
  | convert l e type =>
    exact .step (e.walks c) fun _ => .passes (passes_checkType c type) fun _ => .close rfl rfl rfl
  | guarded l e handler =>
    exact .step (e.walks c) fun _ => .nested 0 (fun c' => blockWalks c' handler) fun _ => .close rfl rfl rfl
  | struct l type fields =>
    exact .step (fieldsWalks c fields) fun _ => .passes (passes_checkStruct c type _) fun _ =>
      .close rfl rfl rfl
  | clamp l e min max =>
    exact .step (e.walks c) fun _ => .step (min.walks c) fun _ => .step (max.walks c) fun _ =>
      .close rfl rfl rfl

lemma exprsWalks (c : Site) (es : List Expr) :
    Walks c.owner c.scope [] (resolveExprs c es) fun es => ofNodes (es.map .expr) := by
  cases es with
  | nil => exact .pure rfl
  | cons e es => exact .step (e.walks c) fun _ => .step (exprsWalks c es) fun _ => .pure rfl

lemma exprWalks? (c : Site) (e : Option Expr) :
    Walks c.owner c.scope [] (resolveExpr? c e) fun e => ofNodes (ofExpr? e) := by
  cases e with
  | none => exact .pure rfl
  | some e => exact .step (e.walks c) fun _ => .pure rfl

lemma fieldsWalks (c : Site) (fs : List FieldValue) :
    Walks c.owner c.scope [] (resolveFields c fs) fun fs => ofNodes (fs.map fun f => .expr f.value) := by
  cases fs with
  | nil => exact .pure rfl
  | cons f fs =>
    obtain ⟨name, e⟩ := f
    exact .step (e.walks c) fun _ => .step (fieldsWalks c fs) fun _ => .pure rfl

lemma rangeWalks? (c : Site) (r : Option Range) :
    Walks c.owner c.scope [] (resolveRange? c r) fun r => ofNodes (ofRange? r) := by
  cases r with
  | none => exact .pure rfl
  | some r =>
    obtain ⟨min, max⟩ := r
    exact .step (min.walks c) fun _ => .step (max.walks c) fun _ => .pure rfl

lemma VarDecl.walks (c : Site) (d : VarDecl) :
    Walks c.owner c.scope [] (d.resolve c) fun d => [.child (.declared d)] := by
  obtain ⟨qualifier, type, name, initializer, range, symbol⟩ := d
  rw [VarDecl.resolve]
  refine .passes (passes_checkType c type) fun _ => .step (rangeWalks? c range) fun range => ?_
  -- All declarations but those with a handler take this way.
  have plain (hi : ∀ l v handler, initializer ≠ some (.guarded l v handler)) :
      Walks c.owner c.scope ([] ++ ofNodes (ofRange? range)) (do
        let initializer ← resolveExpr? { c with declaring := some name.text } initializer
        let symbol ← declareIn c.scope name (if qualifier.isMutable then .var else .constant) (some type.value)
        return VarDecl.mk qualifier type name initializer range symbol) fun d => [.child (.declared d)] := by
    have hw := (exprWalks? { c with declaring := some name.text } initializer).toYields
    have hr := hw.and (Q := fun i => ∀ l v handler, i ≠ some (.guarded l v handler))
      (resolveExpr?_ne_guarded { c with declaring := some name.text } hi)
    refine (hr.bind fun i => (yields_declareIn _ _ _ _).bind fun symbol => .done _).mono ?_
    rintro t d u ⟨i, t₁, ⟨hw, hi⟩, symbol, t₂, ⟨id, rfl, hd⟩, rfl, rfl⟩ t0 h0
    obtain ⟨hb, hx⟩ := Spot.declared_plain (d := ⟨qualifier, type, name, i, range, some id⟩) hi
    refine .child (a := t₁) (b := u) (c := u) (.of_silent rfl fun _ _ => trivial) ?_ ?_ .nil .nil
    · rw [hb]
      exact h0.append hw
    · rw [hx]
      exact .cons hd rfl .nil
  cases initializer with
  | none => exact plain nofun
  | some e =>
    cases e with
    | guarded l e handler =>
      refine ((e.walks { c with declaring := some name.text }).toYields.bind fun e =>
        (yields_declareIn _ _ _ _).bind fun symbol => (yields_enter c .block).bind fun c' =>
        (blockWalks c' handler).toYields.bind fun handler => .done _).mono ?_
      rintro t d u ⟨e, t₁, he, symbol, t₂, ⟨id, rfl, hd⟩, c', t3, ⟨rfl, rfl⟩, handler, t4, hh, rfl, rfl⟩ t0 h0
      -- The initializer is a spot of its own, which declares the variable in its middle.
      have hg : Walk c.owner c.scope t [.child (.guarded l e handler
          (VarDecl.mk qualifier type name (some (.guarded l e handler)) range (some id)).binder)] u :=
        .child (a := t₁) (b := t₂) (c := u) (.of_silent rfl fun _ _ => trivial) he (.cons hd rfl .nil)
          (.block .nil hh .nil) .nil
      exact (h0.append hg).plain rfl
    | _ => exact plain nofun

lemma Stmt.walks (c : Site) (s : Stmt) : Walks c.owner c.scope [] (s.resolve c) fun s => ofNodes [.stmt s] := by
  cases s with
  | var l d => exact .step (d.walks c) fun d => .close rfl rfl rfl
  | assign l target e =>
    exact .step (target.walks c) fun target => .step (e.walks c) fun e => .check (yields_checkAssignable target)
      (fun _ => rfl) (fun _ => rfl) (fun _ _ _ h => ⟨⟨nofun, fun _ => .inr h⟩, rfl⟩) fun _ => ⟨rfl, rfl⟩
  | expr l e => exact .step (e.walks c) fun _ => .close rfl rfl rfl
  | cond l branches otherwise =>
    exact .step (branchesWalks c branches 0) fun bs => .step (blockWalks? c otherwise bs.length) fun _ =>
      .close rfl rfl rfl
  | whileLoop l e body =>
    exact .step (e.walks c) fun _ => .nested 0 (fun c' => blockWalks c' body) fun _ => .close rfl rfl rfl
  | forLoop l init e update body =>
    -- The header and the body are walked over in the scope of the loop.
    have h : (Stmt.forLoop l init e update body).resolve c = (enter c .loop >>= fun c => (do
        let init ← resolveStmt? c init
        let e ← resolveExpr? c e
        let update ← resolveStmt? c update
        return (init, e, update, ← resolveBlock (← enter c .block) body)) >>= fun x =>
          return Stmt.forLoop l x.1 x.2.1 x.2.2.1 x.2.2.2) := rfl
    rw [h]
    refine .nested (f := fun x => ofNodes (ofStmt? x.1 ++ ofExpr? x.2.1 ++ ofStmt? x.2.2.1) ++
      [ofBody 1 .block [] x.2.2.2]) 0 (fun c => ?_) fun _ => .close rfl rfl rfl
    refine .step (stmtWalks? c init) fun _ => .step (exprWalks? c e) fun _ => .step (stmtWalks? c update) fun _ =>
      .nested 1 (fun c' => blockWalks c' body) fun _ => .pure ?_
    simp [ofNodes, ofBody]
  | repeatLoop l e body =>
    exact .step (e.walks c) fun _ => .nested 0 (fun c' => blockWalks c' body) fun _ => .close rfl rfl rfl
  | choose l e arms => exact .step (e.walks c) fun _ => .step (armsWalks c arms 0) fun _ => .close rfl rfl rfl
  | switch l e cases otherwise =>
    exact .step (e.walks c) fun _ => .step (branchesWalks c cases 0) fun bs =>
      .step (blockWalks? c otherwise bs.length) fun _ => .close rfl (by simp [Spot.before, ofNodes]) rfl
  | atomic l body => exact .nested 0 (fun c' => blockWalks c' body) fun _ => .close rfl rfl rfl
  | emit l r =>
    refine ((yields_signal c r).bind fun r' => .done _).mono ?_
    rintro t s u ⟨r', v, ⟨rfl, hn, id, hr, hl, hk⟩, rfl, rfl⟩ t0 hw
    refine hw.append (.single ⟨?_, fun _ => .inl fun _ hid => ?_⟩ .nil rfl rfl)
    · rintro _ ⟨⟩
      exact ⟨id, hr, hn ▸ hl⟩
    · exact Option.some.inj (hr.symm.trans hid) ▸ hk
  | ret l e => exact .step (exprWalks? c e) fun _ => .close rfl rfl rfl
  | breakLoop l | continueLoop l =>
    exact .passes (passes_checkInLoop c _ l) fun _ => Yields.pure fun _ _ hw =>
      hw.append (.single (.of_silent rfl fun _ _ => trivial) .nil rfl rfl)
  | native l text => exact .close rfl rfl rfl

lemma stmtWalks? (c : Site) (s : Option Stmt) :
    Walks c.owner c.scope [] (resolveStmt? c s) fun s => ofNodes (ofStmt? s) := by
  cases s with
  | none => exact .pure rfl
  | some s => exact .step (s.walks c) fun _ => .pure rfl

lemma blockWalks (c : Site) (body : List Stmt) :
    Walks c.owner c.scope [] (resolveBlock c body) fun body => ofNodes (ofBlock body) := by
  cases body with
  | nil => exact .pure rfl
  | cons s ss => exact .step (s.walks c) fun _ => .step (blockWalks c ss) fun _ => .pure rfl

lemma blockWalks? (c : Site) (body : Option (List Stmt)) (number : Nat) :
    Walks c.owner c.scope [] (resolveBlock? c body) fun body => body.toList.map (ofBody number .block []) := by
  cases body with
  | none => exact .pure rfl
  | some body => exact .nested number (fun c' => blockWalks c' body) fun _ => .pure rfl

lemma branchesWalks (c : Site) (bs : List Branch) (start : Nat) :
    Walks c.owner c.scope [] (resolveBranches c bs) fun bs => ofBranches bs start := by
  cases bs with
  | nil => exact .pure rfl
  | cons b bs =>
    obtain ⟨e, body⟩ := b
    exact .step (e.walks c) fun _ => .nested start (fun c' => blockWalks c' body) fun _ =>
      .step (branchesWalks c bs (start + 1)) fun _ => .pure rfl

lemma armsWalks (c : Site) (as : List Arm) (start : Nat) :
    Walks c.owner c.scope [] (resolveArms c as) fun as => ofArms as start := by
  cases as with
  | nil => exact .pure rfl
  | cons a as =>
    obtain ⟨patterns, body⟩ := a
    exact .step (patternsWalks c patterns) fun _ => .nested start (fun c' => blockWalks c' body) fun _ =>
      .step (armsWalks c as (start + 1)) fun _ => .pure (by simp [ofArms, ofBody])

lemma patternsWalks (c : Site) (ps : List Pattern) :
    Walks c.owner c.scope [] (resolvePatterns c ps) fun ps => ofNodes (ps.flatMap ofPattern) := by
  cases ps with
  | nil => exact .pure rfl
  | cons p ps =>
    cases p with
    | wildcard l => exact .step (patternsWalks c ps) fun _ => .pure rfl
    | value l e => exact .step (e.walks c) fun _ => .step (patternsWalks c ps) fun _ => .pure rfl

end

end SketchCompiler
