import SketchCompiler.Proofs.JumpSites
import SketchCompiler.Proofs.ResolvedTrees
import SketchCompiler.Proofs.TableGrowth

namespace SketchCompiler

open SymbolTable List Node

namespace SymbolTable

variable {t u v : SymbolTable} {s p : ScopeId} {b : Bool}

/-- All scopes of `t` are in `u`, with their kinds and parents. -/
structure KeepsScopes (t u : SymbolTable) : Prop extends t.Extends u where
  parent_eq {s : ScopeId} : s < t.scopes.size → (u.scope s).parent = (t.scope s).parent

lemma KeepsScopes.refl (t : SymbolTable) : t.KeepsScopes t := ⟨.refl t, fun _ => rfl⟩

lemma KeepsScopes.trans (h : t.KeepsScopes u) (h' : u.KeepsScopes v) : t.KeepsScopes v :=
  ⟨h.toExtends.trans h'.toExtends, fun hs => (h'.parent_eq (hs.trans_le h.scopes_le)).trans (h.parent_eq hs)⟩

lemma keepsScopes_push (t : SymbolTable) (x : Scope) : t.KeepsScopes { t with scopes := t.scopes.push x } :=
  ⟨extends_push t x, fun hs => by rw [scope_push_of_lt t x hs]⟩

lemma keepsScopes_declare {x} {id} (h : t.declare x = .ok (u, id)) : t.KeepsScopes u := by
  refine ⟨(extends_declare h).1, fun {s} _ => ?_⟩
  rw [(scope_of_declare h).2]
  split <;> rfl

/-- Whether the scope lies in a loop, with nothing but blocks between. -/
inductive LoopAt (t : SymbolTable) : ScopeId → Bool → Prop
  | loop {s : ScopeId} : s < t.scopes.size → (t.scope s).kind = .loop → LoopAt t s true
  | block {s p : ScopeId} {b : Bool} : s < t.scopes.size → (t.scope s).kind = .block → (t.scope s).parent = some p →
      p < s → LoopAt t p b → LoopAt t s b
  | outer {s : ScopeId} : s < t.scopes.size → (t.scope s).kind ≠ .loop → (t.scope s).kind ≠ .block → LoopAt t s false

lemma LoopAt.lt (h : t.LoopAt s b) : s < t.scopes.size := by
  cases h <;> assumption

lemma LoopAt.mono (h : t.LoopAt s b) (hu : t.KeepsScopes u) : u.LoopAt s b := by
  induction h with
  | loop hs hk => exact .loop (hs.trans_le hu.scopes_le) (by rwa [hu.kind_scope hs])
  | block hs hk hp hlt _ ih =>
    exact .block (hs.trans_le hu.scopes_le) (by rwa [hu.kind_scope hs]) (by rwa [hu.parent_eq hs]) hlt ih
  | outer hs hl hb =>
    exact .outer (hs.trans_le hu.scopes_le) (by rwa [hu.kind_scope hs]) (by rwa [hu.kind_scope hs])

lemma LoopAt.inLoop_eq (h : t.LoopAt s b) : t.inLoop s = b := by
  have hchain (n : Nat) (hn : s < n) :
      ((t.chainOf n s).dropWhile (·.kind = .block)).head?.any (·.kind = .loop) = b := by
    induction h generalizing n with
    | loop hs hk =>
      obtain ⟨n, rfl⟩ := Nat.exists_eq_add_one_of_ne_zero (Nat.ne_zero_of_lt hn)
      rw [chainOf]
      split <;> simp [hk]
    | block hs hk hp hlt _ ih =>
      obtain ⟨n, rfl⟩ := Nat.exists_eq_add_one_of_ne_zero (Nat.ne_zero_of_lt hn)
      rw [chainOf, hp]
      simpa [hk] using ih n (hlt.trans_le (Nat.le_of_lt_succ hn))
    | outer hs hl hb =>
      obtain ⟨n, rfl⟩ := Nat.exists_eq_add_one_of_ne_zero (Nat.ne_zero_of_lt hn)
      rw [chainOf]
      split <;> simp [hl, hb]
  exact hchain (s + 1) (Nat.lt_succ_self s)

lemma loopAt_push (t : SymbolTable) {x : Scope} (hl : x.kind ≠ .loop) (hb : x.kind ≠ .block) :
    LoopAt { t with scopes := t.scopes.push x } t.scopes.size false :=
  .outer (by simp) (by rwa [scope_push_size]) (by rwa [scope_push_size])

end SymbolTable

/-- Whether a scope of this kind lies in a loop, if its parent does or does not. -/
def ScopeKind.loops (b : Bool) : ScopeKind → Bool
  | .block => b
  | .loop => true
  | _ => false

lemma SymbolTable.LoopAt.enter {t : SymbolTable} {s} {b : Bool} (h : t.LoopAt s b) (kind : ScopeKind) :
    (t.pushScope s kind).1.LoopAt t.scopes.size (kind.loops b) := by
  have hlt : t.scopes.size < (t.pushScope s kind).1.scopes.size := by simp [pushScope]
  have hkind : ((t.pushScope s kind).1.scope t.scopes.size).kind = kind := by rw [pushScope, scope_push_size]
  have hparent : ((t.pushScope s kind).1.scope t.scopes.size).parent = some s := by rw [pushScope, scope_push_size]
  cases kind with
  | loop => exact .loop hlt hkind
  | block => exact .block hlt hkind hparent h.lt (h.mono (keepsScopes_push t _))
  | _ => exact .outer hlt (by simp [hkind]) (by simp [hkind])

namespace Node

/-- Whether the node is a loop around its child. -/
def loopsOver : Node → Node → Bool
  | stmt (.whileLoop ..), c | stmt (.repeatLoop ..), c => c.isStmt
  | stmt (.forLoop ..), _ => true
  | _, _ => false

/-- The jump at the node, as it is reported where it stands in no loop. -/
def jumpError? : Node → Option (Located NameError)
  | stmt (.breakLoop l) => some ⟨.outsideLoop "break", l⟩
  | stmt (.continueLoop l) => some ⟨.outsideLoop "continue", l⟩
  | _ => none

def isModule : Node → Bool
  | item (.module ..) => true
  | _ => false

/-- What is resolved below the node, in this order. The modules of a unit come before its other declarations. Settings,
and the bounds of fields, are left as they are. -/
def visits : Node → List Node
  | unit p => (p.items.map item).filter isModule ++ (p.items.map item).filter (!·.isModule)
  | item (.config ..) => []
  | item (.classDecl _ d) => d.fields.flatMap (fun f => ofExpr? f.value.initializer) ++ ofConstructor? d.constructor ++
      d.methods.flatMap fun m => ofBlock m.value.body
  | n => n.children

variable {n c : Node} {b : Bool}

/-- The field of an initializer stands between it and its class. -/
lemma visits_cases (h : c ∈ n.visits) : c ∈ n.children ∨ ∃ f ∈ n.children, c ∈ f.children := by
  unfold visits at h
  split at h
  · refine .inl ?_
    rcases mem_append.mp h with h | h <;> exact (mem_filter.mp h).1
  · cases h
  · rw [append_assoc] at h
    rcases mem_append.mp h with h | h
    · obtain ⟨f, hf, h⟩ := mem_flatMap.mp h
      refine .inr ⟨var f.value, ?_, mem_append_right _ h⟩
      exact mem_append_left _ (mem_append_left _ (mem_map_of_mem hf))
    · rw [children, append_assoc]
      exact .inl (mem_append_right _ h)
  · exact .inl h

lemma sizeOf_lt_of_mem_visits (h : c ∈ n.visits) : sizeOf c < sizeOf n := by
  rcases visits_cases h with h | ⟨f, hf, h⟩
  · exact sizeOf_lt_of_mem_children h
  · exact (sizeOf_lt_of_mem_children h).trans (sizeOf_lt_of_mem_children hf)

/-- The jumps at and below the node that stand in no loop. The node itself stands in one if `b` is true. -/
def strays (b : Bool) (n : Node) : List (Located NameError) :=
  (if b then [] else n.jumpError?.toList) ++ n.visits.attach.flatMap fun ⟨c, _⟩ => c.strays (b || n.loopsOver c)
termination_by sizeOf n
decreasing_by exact sizeOf_lt_of_mem_visits ‹_›

lemma strays_eq (b : Bool) (n : Node) : n.strays b =
    (if b then [] else n.jumpError?.toList) ++ n.visits.flatMap fun c => c.strays (b || n.loopsOver c) := by
  rw [strays]
  simp

lemma isModule_erase (n : Node) : n.erase.isModule = n.isModule := by
  cases n with
  | item i => cases i <;> rfl
  | _ => rfl

lemma visits_erase (n : Node) : n.erase.visits = n.visits.map erase := by
  have h := children_erase n
  cases n with
  | unit p =>
    rw [erase] at h ⊢
    change (unit p.erase).children.filter _ ++ (unit p.erase).children.filter _ = _
    rw [h]
    simp [visits, children, filter_map, Function.comp_def, isModule_erase]
  | item i =>
    cases i with
    | config => rfl
    | classDecl l d =>
      have hinit (d : VarDecl) : ofExpr? d.erase.initializer = (ofExpr? d.initializer).map erase := by
        obtain ⟨_, _, _, initializer, _, _⟩ := d
        cases initializer <;> rfl
      obtain ⟨_, _, constructor, _, _⟩ := d
      cases constructor <;> simp [visits, erase, Item.erase, ClassDecl.erase, FunctionDecl.erase, ofConstructor?,
        ofBlock, eraseBlock_eq, hinit, map_flatMap, flatMap_map, Function.comp_def]
    | _ => exact h
  | _ => exact h

lemma strays_erase (b : Bool) (n : Node) : n.erase.strays b = n.strays b := by
  induction b, n using strays.induct with
  | case1 b n ih =>
    have hjump : n.erase.jumpError? = n.jumpError? := by
      cases n with
      | stmt s => cases s <;> rfl
      | _ => rfl
    have hloop (c : Node) : n.erase.loopsOver c.erase = n.loopsOver c := by
      cases n with
      | stmt s => cases s <;> cases c <;> rfl
      | _ => rfl
    rw [strays_eq, strays_eq, visits_erase, hjump, flatMap_map]
    simp only [hloop]
    congr 1
    exact flatMap_congr fun c hc => ih c hc

end Node

def NameError.isOutsideLoop : NameError → Bool
  | outsideLoop _ => true
  | _ => false

/-- The jumps that were reported. -/
def Resolution.strays (r : Resolution) : List (Located NameError) := r.errors.toList.filter (·.value.isOutsideLoop)

lemma Resolve.strays_report (e : NameError) (l : Location) (r : Resolution) :
    (report e l r).2.strays = r.strays ++ if e.isOutsideLoop then [⟨e, l⟩] else [] := by
  change (r.errors.push ⟨e, l⟩).toList.filter _ = _
  simp [Resolution.strays, filter_cons]

end SketchCompiler
