import SketchCompiler.Proofs.ClampPlaces
import SketchCompiler.Proofs.GlobalSymbols
import SketchCompiler.Proofs.SketchStates

namespace SketchCompiler

open List Node

/-- The role in which an item is declared in the sketch. -/
def Item.declarationRole : Item → Role
  | .enumDecl .. | .structDecl .. | .classDecl .. => .types
  | .function .. => .prototypes
  | .module .. => .opening
  | _ => .code

lemma Item.suits_declarationRole (i : Item) : i.declarationRole.Suits i := by
  cases i with
  | module l aliasName path symbol p => exact .inr ⟨rfl, l, aliasName, path, symbol, p, rfl⟩
  | _ => exact .inl rfl

/-- The line that declares an item, or the first of several. -/
def Item.declarationLine? (k : Scene) : Item → Option String
  | .var _ d => some (d.code k ++ ";")
  | .aliasDecl _ name e _ => some s!"const auto {name.text} = {e.code k};"
  | .function _ d => some (d.signature d.name.text ++ ";")
  | .enumDecl _ d =>
    let variants := commaList (d.variants.map (·.text))
    some s!"enum {d.name.text} \x7b {variants} \x7d;"
  | .structDecl _ d => some s!"struct {d.name.text} \x7b"
  | .classDecl _ d => some s!"class {d.name.text} \x7b"
  | .signal _ name _ => some s!"volatile bool {Scene.signalFlag name.text} = false;"
  | .task _ d => some ("void " ++ d.name.text ++ "()" ++ " \x7b")
  | .module _ aliasName .. => some s!"namespace {aliasName.text} \x7b"
  | _ => none

lemma Item.declarationLine_mem {k} {i : Item} {text} (h : i.declarationLine? k = some text)
    (path : List String) (root : Bool) (s : Emission) :
    .code 0 text ∈ ((i.roleLines k path root i.declarationRole).run s).1 := by
  cases i with
  | var l d =>
    cases h
    refine mem_append_right _ ?_
    have hline : .code 0 (d.code k ++ ";") ∈ ((d.globalLines k).run s).1 := by
      rw [d.run_globalLines k s]
      exact mem_cons_self
    exact hline
  | aliasDecl l name e symbol =>
    cases h
    exact mem_append_right _ (mem_singleton_self _)
  | function l d =>
    cases h
    exact mem_singleton_self _
  | task l d =>
    cases h
    obtain ⟨s', hlines⟩ := d.run_lines k path s
    have hline : .code 0 ("void " ++ d.name.text ++ "()" ++ " \x7b") ∈ ((d.lines k path).run s).1 := by
      rw [hlines]
      exact mem_append_right _ mem_cons_self
    exact mem_append_right _ hline
  | signal =>
    cases h
    exact mem_append_right _ mem_cons_self
  | enumDecl | structDecl | classDecl | module =>
    cases h
    exact mem_cons_self
  | _ => cases h

lemma Item.Introduces.declarationLine? {t : SymbolTable} {id : SymbolId} {i : Item} (h : i.Introduces t id)
    (k : Scene) : ∃ text, i.declarationLine? k = some text := by
  cases h with
  | variant => exact ⟨_, rfl⟩
  | own h =>
    cases i with
    | config | load | nativeInclude | event | interrupt | native => cases h
    | _ => exact ⟨_, rfl⟩

/-- The piece of an item in the role of its declaration has the line that declares it. -/
lemma Program.exists_declaration {p : Program} {t : SymbolTable} {id : SymbolId} {b : List Nat} {i : Item} (k : Scene)
    (hb : (unit p).at? b = some (.item i)) (hi : i.Introduces t id) :
    ∃ x ∈ p.sketchPieces k, x.key = (b, i.declarationRole) ∧
      ∃ text, i.declarationLine? k = some text ∧ .code 0 text ∈ x.lines := by
  obtain ⟨text, htext⟩ := hi.declarationLine? k
  obtain ⟨x, hx, hxkey, path, root, s, hlines⟩ := exists_piece k hb i.suits_declarationRole
  exact ⟨x, hx, hxkey, text, htext, hlines ▸ Item.declarationLine_mem htext path root s⟩

def paramTypes (params : List Param) : List TypeName := params.map (·.type.value)

def FunctionDecl.headTypes (d : FunctionDecl) : List TypeName :=
  paramTypes d.params ++ (d.returnType.map (·.value)).toList

def ClassDecl.headTypes (d : ClassDecl) : List TypeName :=
  (d.constructor.toList.flatMap fun c => paramTypes c.params) ++ d.methods.flatMap (·.value.headTypes)

/-- The types of fields, parameters, results and variables that an item is written with in the given role. -/
def Item.headTypes : Role → Item → List TypeName
  | .types, .structDecl _ d => d.fields.map (·.type.value)
  | .types, .classDecl _ d => d.fields.map (·.value.type.value) ++ d.headTypes
  | .prototypes, .function _ d => d.headTypes
  | .code, .function _ d => d.headTypes
  | .code, .var _ d => [d.type.value]
  | .methods, .classDecl _ d => d.headTypes
  | _, _ => []

/-- The value without its handler. -/
def Expr.unguarded : Expr → Expr
  | .guarded _ e _ => e
  | .clamp l (.guarded _ e _) min max => .clamp l e min max
  | e => e

/-- The values and statements that an item is written with in the given role. The handlers of fields are left out, those
of variables are left to `setup()`, as are the starts of the main unit, and its loops are left to `loop()`. -/
def Item.trees (main : Bool) : Role → Item → List Node
  | .types, .classDecl _ d => d.fields.flatMap fun f => ofExpr? (f.value.initializer.map Expr.unguarded)
  | .code, .var _ d => ofExpr? (d.initializer.map Expr.unguarded)
  | .code, .aliasDecl _ _ e _ => [.expr e]
  | .code, .function _ d => ofBlock d.body
  | .code, .event _ (.signal _) body => ofBlock body
  | .code, .event _ _ body => if main then [] else ofBlock body
  | .code, .interrupt _ d => ofBlock d.body
  | .code, .task _ d => ofBlock d.body
  | .methods, .classDecl _ d =>
    ofConstructor? d.constructor ++ d.methods.flatMap fun m => ofBlock m.value.body
  | _, _ => []

namespace Node

/-- The children that are written with the node; ranges are not. -/
def shown : Node → List Node
  | var d => ofExpr? d.initializer
  | n => n.children

def shownAt? : Node → List Nat → Option Node
  | n, [] => some n
  | n, i :: a => n.shown[i]?.bind (shownAt? · a)

/-- The symbols that the node itself names; types are looked up from the scope `s`. -/
def named (t : SymbolTable) (s : ScopeId) : Node → List SymbolId
  | expr (.name _ r) | stmt (.emit _ r) => r.symbol.toList
  | expr (.member _ _ _ symbol) => symbol.toList
  | expr (.new _ type _) | expr (.convert _ _ type) | expr (.struct _ type _) => (t.path? s type.value.path).toList
  | var d => (t.path? s d.type.value.path).toList
  | _ => []

end Node

inductive Item.Uses (t : SymbolTable) (s : ScopeId) (main : Bool) (r : Role) (id : SymbolId) (i : Item) : Prop
  | type {type : TypeName} (htype : type ∈ i.headTypes r) (hid : t.path? s type.path = some id)
  | node {n m : Node} {c : List Nat} (hn : n ∈ i.trees main r) (hm : n.shownAt? c = some m) (hid : id ∈ m.named t s)

lemma Item.Uses.isCommon {t} {s} {main : Bool} {r : Role} {id} {i : Item} (h : i.Uses t s main r id) : r.isCommon := by
  cases r with
  | opening | gap | closing =>
    cases h with
    | type htype => cases htype
    | node hn => cases hn
  | _ => rfl

/-- The scope of the unit at a place. That of the main unit is the first one behind the outermost. -/
def Program.scopeAt? (t : SymbolTable) (p : Program) : List Nat → Option ScopeId
  | [] => some (SymbolTable.root + 1)
  | o =>
    match (unit p).at? o.dropLast with
    | some (.item (.module _ _ _ (some id) _)) => (t.get id).members
    | _ => none

def Program.Uses (t : SymbolTable) (p : Program) (a : List Nat) (r : Role) (id : SymbolId) : Prop :=
  ∃ s i, p.scopeAt? t a.dropLast = some s ∧ (unit p).at? a = some (.item i) ∧ i.Uses t s (a.length = 1) r id

section Clamping

variable {t : SymbolTable} {id : SymbolId}

lemma Item.Introduces.transform {i : Item} (h : i.Introduces t id) (f : Transform) :
    (i.transform f).Introduces t id := by
  cases h with
  | variant hd he hv hk hn hs => exact .variant hd he hv hk hn hs
  | own h =>
    refine .own (Eq.trans ?_ h)
    cases i with
    | var l d => exact d.symbol_transform f
    | _ => rfl

lemma Program.items_transform (f : Transform) (p : Program) : (p.transform f).items = p.items.map (·.transform f) := by
  obtain ⟨_, _, items⟩ := p
  exact transformItems_eq f items

lemma Node.item_at?_transform (f : Transform) {p : Program} {a : List Nat} {i : Item}
    (h : (unit p).at? a = some (item i)) : (unit (p.transform f)).at? a = some (item (i.transform f)) := by
  have hchild {j : Nat} {i : Item} (hj : p.items[j]? = some i) :
      (unit (p.transform f)).children[j]? = some (item (i.transform f)) := by
    rw [children, p.items_transform, getElem?_map, getElem?_map, hj]
    rfl
  rcases item_at?_cases h with ⟨j, rfl, hj⟩ | ⟨j, b, l, aliasName, path, symbol, q, rfl, hj, hb⟩
  · rw [at?, hchild hj]
    rfl
  · rw [at?, hchild hj]
    exact item_at?_transform f hb
termination_by a.length

lemma Node.Introduces.clampRanges {q q' : Program} {ranges} (h : (unit q).Introduces t id)
    (hr : q.clampRanges = (q', .ok ranges)) : (unit q').Introduces t id := by
  obtain ⟨a, i, ha, hi⟩ := h
  rw [Program.eq_insertClamps hr]
  exact ⟨a, _, item_at?_transform _ (item_at?_transform _ ha), (hi.transform _).transform _⟩

end Clamping

/-- The sketch falls into pieces of items. What is used in one is declared by an item, in its piece for declarations,
and it is declared before the use just if it is in a module of the unit, or in a role that comes before that of the use,
or in the same role and before it in the program. -/
theorem Program.declared_before_use_iff {p q q' : Program} {t : SymbolTable} {ranges : RangeTable} {a : List Nat}
    {r : Role} {id : SymbolId} (k : Scene) (h : p.resolveNames = (q, .ok t)) (hr : q.clampRanges = (q', .ok ranges))
    (hu : q'.Uses t a r id) (hid : t.isGlobal id) : q'.CutInto k (q'.sketchPieces k) ∧
      (Node.unit q').Introduces t id ∧ ∀ b i, (Node.unit q').at? b = some (.item i) → i.Introduces t id →
        (∃ x ∈ q'.sketchPieces k, x.key = (b, i.declarationRole) ∧
          ∃ text, i.declarationLine? k = some text ∧ .code 0 text ∈ x.lines) ∧
        (q'.Precedes k (b, i.declarationRole) (a, r) ↔ i.declarationRole.Before r b a) := by
  refine ⟨q'.cutInto_sketchPieces k, (exists_introduces h hid).clampRanges hr, fun b i hb hi => ?_⟩
  obtain ⟨s, i', -, ha, huse⟩ := hu
  refine ⟨exists_declaration k hb hi, ?_⟩
  exact precedes_iff_before hb ha i.suits_declarationRole huse.isCommon

namespace Sample

variable {t : SymbolTable} {p : Program} {a c : List Nat} {r : Role} {n : Nat}

def orderText : String := "fn f() { emit s }
signal s
task t background { emit s }
struct A { B b }
struct B { int x }
const int k = 3
class C { mut int x = k }"

def usedAt (t : SymbolTable) (p : Program) (a : List Nat) (r : Role) (n : Nat) (c : List Nat) : List SymbolId :=
  match (Node.unit p).at? a, p.scopeAt? t a.dropLast with
  | some (.item i), some s => (i.headTypes r).filterMap (t.path? s ·.path) ++
      (((i.trees (a.length = 1) r)[n]?.bind (·.shownAt? c)).map (·.named t s)).getD []
  | _, _ => []

lemma uses_of_mem {id} (h : id ∈ usedAt t p a r n c) : p.Uses t a r id := by
  unfold usedAt at h
  split at h
  case h_2 => cases h
  case h_1 i s ha hs =>
    refine ⟨s, i, hs, ha, ?_⟩
    rcases mem_append.mp h with h | h
    · obtain ⟨type, htype, hid⟩ := mem_filterMap.mp h
      exact .type htype hid
    · obtain ⟨ids, hids, hid⟩ : ∃ ids, ((i.trees (a.length = 1) r)[n]?.bind (·.shownAt? c)).map (·.named t s) =
          some ids ∧ id ∈ ids := by
        cases hm : ((i.trees (a.length = 1) r)[n]?.bind (·.shownAt? c)).map (·.named t s) with
        | none => simp [hm] at h
        | some ids => exact ⟨ids, rfl, by simpa [hm] using h⟩
      obtain ⟨m, hm, rfl⟩ := Option.map_eq_some_iff.mp hids
      obtain ⟨tree, htree, hm⟩ := Option.bind_eq_some_iff.mp hm
      exact .node (mem_of_getElem? htree) hm hid

def meets (t : SymbolTable) (p : Program) (b : List Nat) (r : Role) (a : List Nat) (r' : Role) (n : Nat)
    (c : List Nat) : Bool :=
  match (Node.unit p).at? b with
  | some (.item i) => i.declarationRole = r && i.symbol?.any fun x => t.isGlobal x && (usedAt t p a r' n c).contains x
  | _ => false

lemma of_meets {b : List Nat} {r'} (h : meets t p b r a r' n c = true) :
    ∃ i id, (Node.unit p).at? b = some (.item i) ∧ i.declarationRole = r ∧
      i.Introduces t id ∧ t.isGlobal id ∧ p.Uses t a r' id := by
  unfold meets at h
  split at h
  case h_2 => cases h
  case h_1 i hb =>
    simp only [Bool.and_eq_true, decide_eq_true_eq, Option.any_eq_true_iff_get, contains_iff_mem] at h
    obtain ⟨hrole, hsome, hglobal, hmem⟩ := h
    exact ⟨i, _, hb, hrole, .own (Option.some_get hsome).symm, hglobal, uses_of_mem hmem⟩

/-- The signal is declared behind the function and before the task, and neither the type nor the constant is there when
it is used. -/
theorem signal_declared_between_uses : ∃ q q' ranges, (ofText orderText).resolveNames =
      (q, .ok (tableOf (ofText orderText))) ∧ q.clampRanges = (q', .ok ranges) ∧
    ¬ q'.Precedes (plainScene (ofText orderText)) ([1], .code) ([0], .code) ∧
    q'.Precedes (plainScene (ofText orderText)) ([1], .code) ([2], .code) ∧
    ¬ q'.Precedes (plainScene (ofText orderText)) ([4], .types) ([3], .types) ∧
    ¬ q'.Precedes (plainScene (ofText orderText)) ([5], .code) ([6], .types) := by
  have hall : passes orderText = true ∧
      let q := (ofText orderText).resolveNames.1.clampRanges.1
      let t := tableOf (ofText orderText)
      meets t q [1] .code [0] .code 0 [] ∧ meets t q [1] .code [2] .code 0 [] ∧
        meets t q [4] .types [3] .types 0 [] ∧ meets t q [5] .code [6] .types 0 [] := by decide +kernel
  obtain ⟨hpasses, hfirst, hsecond, htype, hconst⟩ := hall
  obtain ⟨-, h, hr⟩ := of_passes orderText hpasses
  have order {b a c : List Nat} {r r' : Role} {n : Nat} (hm : meets (tableOf (ofText orderText))
      (ofText orderText).resolveNames.1.clampRanges.1 b r a r' n c = true) : Program.Precedes
      (plainScene (ofText orderText)) (ofText orderText).resolveNames.1.clampRanges.1 (b, r) (a, r') ↔
        r.Before r' b a := by
    obtain ⟨i, id, hb, rfl, hi, hg, hu⟩ := of_meets hm
    exact ((Program.declared_before_use_iff _ h hr hu hg).2.2 b i hb hi).2
  refine ⟨_, _, _, h, hr, (order hfirst).not.mpr ?_, (order hsecond).mpr ?_, (order htype).not.mpr ?_,
    (order hconst).not.mpr ?_⟩
  all_goals decide

end Sample

end SketchCompiler
