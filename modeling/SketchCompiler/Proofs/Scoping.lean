import SketchCompiler.Proofs.Places
import SketchCompiler.Symbol.Table

namespace SketchCompiler

open List Node

variable {j : Nat}

/-- What declares a name; a variant keeps no number. -/
structure Binder where
  name : Name
  kind : SymbolKind
  symbol : Option SymbolId

/-- A block of the node at `place`, by its number among the node's blocks. -/
structure Block where
  place : List Nat
  number : Nat
deriving DecidableEq

/-- The symbol is the one that the binder declared. -/
def Binder.Stands (x : Binder) (t : SymbolTable) (id : SymbolId) : Prop :=
  t.kind id = x.kind ∧ (x.symbol = some id ∨ x.kind = .variant ∧ x.symbol = none)

def Param.binder (p : Param) : Binder := ⟨p.name, .param, p.symbol⟩

def VarDecl.binder (d : VarDecl) : Binder := ⟨d.name, if d.qualifier.isMutable then .var else .constant, d.symbol⟩

def Item.binders : Item → List Binder
  | .function _ d => [⟨d.name, .function, d.symbol⟩]
  | .classDecl _ d => [⟨d.name, .classType, d.symbol⟩]
  | .enumDecl _ d => ⟨d.name, .enumType, d.symbol⟩ :: d.variants.map (⟨·, .variant, none⟩)
  | .structDecl _ d => [⟨d.name, .structType, d.symbol⟩]
  | .signal _ name symbol => [⟨name, .signal, symbol⟩]
  | .task _ d => [⟨d.name, .task, d.symbol⟩]
  | .module _ aliasName _ symbol _ => [⟨aliasName, .moduleAlias, symbol⟩]
  | _ => []

namespace Node

def reference? : Node → Option Reference
  | expr (.name _ r) | stmt (.emit _ r) | item (.event _ (.signal r) _) => some r
  | _ => none

/-- What is in force in the whole block of the given number. A class has a block for its constructor, and one for each
method. -/
def header : Node → Nat → List Binder
  | unit p, 0 => p.items.flatMap Item.binders
  | item (.function _ d), 0 => d.params.map Param.binder
  | item (.classDecl _ d), 0 => ((d.constructor.map (·.params)).getD []).map Param.binder
  | item (.classDecl _ d), i + 1 => ((d.methods[i]?.map (·.value.params)).getD []).map Param.binder
  | _, _ => []

def binder? : Node → Option Binder
  | item (.var _ d) | stmt (.var _ d) => some d.binder
  | item (.aliasDecl _ name _ symbol) => some ⟨name, .constant, symbol⟩
  | _ => none

/-- The numbers of the declarations that the node is or holds, and of the name it uses. -/
def numbers : Node → List (Option SymbolId)
  | var d => [d.symbol]
  | item (.function _ d) => d.symbol :: d.params.map (·.symbol)
  | item (.classDecl _ d) => d.symbol :: ((d.constructor.map (·.params)).getD []).map (·.symbol) ++
      d.methods.flatMap fun m => m.value.symbol :: m.value.params.map (·.symbol)
  | item (.enumDecl _ d) => [d.symbol]
  | item (.structDecl _ d) => [d.symbol]
  | item (.task _ d) => [d.symbol]
  | item (.signal _ _ symbol) | item (.aliasDecl _ _ _ symbol) | item (.module _ _ _ symbol _) => [symbol]
  | n => n.reference?.toList.map (·.symbol)

/-- The numbers of the node's blocks around each of its children, outermost first. The parts of a `for` header share a
block with the loop, and its body has one more. -/
def around : Node → List (List Nat)
  | unit p => p.items.map fun _ => [0]
  | item (.function _ d) => d.body.map fun _ => [0]
  | item (.classDecl _ d) => d.fields.map (fun _ => []) ++ (ofConstructor? d.constructor).map (fun _ => [0]) ++
      (d.methods.zipIdx 1).flatMap fun x => x.1.value.body.map fun _ => [x.2]
  | item (.event _ _ body) => body.map fun _ => [0]
  | item (.interrupt _ d) => [] :: d.body.map fun _ => [0]
  | item (.task _ d) => (ofExpr? d.period).map (fun _ => []) ++ d.body.map fun _ => [0]
  | stmt (.cond _ branches otherwise) => (branches.zipIdx.flatMap fun x => [] :: x.1.body.map fun _ => [x.2]) ++
      (ofBlock? otherwise).map fun _ => [branches.length]
  | stmt (.whileLoop _ _ body) | stmt (.repeatLoop _ _ body) => [] :: body.map fun _ => [0]
  | stmt (.forLoop _ init e update body) =>
    (ofStmt? init ++ ofExpr? e ++ ofStmt? update).map (fun _ => [0]) ++ body.map fun _ => [0, 1]
  | stmt (.choose _ _ arms) => [] :: arms.zipIdx.flatMap fun x =>
      (x.1.patterns.flatMap ofPattern).map (fun _ => []) ++ x.1.body.map fun _ => [x.2]
  | stmt (.switch _ _ cases otherwise) => [] :: ((cases.zipIdx.flatMap fun x => [] :: x.1.body.map fun _ => [x.2]) ++
      (ofBlock? otherwise).map fun _ => [cases.length])
  | stmt (.atomic _ body) => body.map fun _ => [0]
  | expr (.guarded _ _ handler) => [] :: handler.map fun _ => [0]
  | n => n.children.map fun _ => []

/-- Which of the blocks around a node are seen from inside: none from a unit. -/
def seen (bs : List Block) : Node → List Block
  | unit _ => []
  | _ => bs

/-- The blocks around child `i` of a node at the place `o`, where `bs` are those around the node. -/
def inner (o : List Nat) (bs : List Block) (n : Node) (i : Nat) : List Block :=
  ((n.around[i]?.getD []).reverse.map (⟨o, ·⟩)) ++ n.seen bs

/-- The blocks around the place `a` below a node at the place `o`, innermost first. -/
def blocksFrom (o : List Nat) (bs : List Block) : Node → List Nat → List Block
  | _, [] => bs
  | n, i :: a =>
    match n.children[i]? with
    | some c => blocksFrom (o ++ [i]) (n.inner o bs i) c a
    | none => bs

end Node

namespace Program

def UsesAt (p : Program) (a : List Nat) (r : Reference) : Prop := ∃ n, (unit p).at? a = some n ∧ n.reference? = some r

def blocksAt (p : Program) (a : List Nat) : List Block := (unit p).blocksFrom [] [] a

/-- `a` lies in the handler of the initializer of the variable declared at `b`. -/
def InHandler (p : Program) (b a : List Nat) : Prop :=
  ∃ d l e handler i c, (unit p).at? (b ++ [0]) = some (.var d) ∧ d.initializer = some (.guarded l e handler) ∧
    a = b ++ 0 :: (ofRange? d.range).length :: (i + 1) :: c

/-- The block declares the name, for its whole text or from a place on. -/
inductive Declares (p : Program) (block : Block) : Option (List Nat) → Binder → Prop
  | header {n x} : (unit p).at? block.place = some n → x ∈ n.header block.number → Declares p block none x
  | behind {b n x} : (unit p).at? b = some n → n.binder? = some x → (p.blocksAt b).head? = some block →
      Declares p block (some b) x

/-- A declaration of the block is in force at `a`. -/
def InForce (p : Program) (a : List Nat) (block : Block) (x : Binder) : Prop :=
  ∃ since, p.Declares block since x ∧ ∀ b ∈ since, b < a ∧ (b <+: a → p.InHandler b a)

/-- The scopes of the blocks around `a`, innermost first; the last lies right inside the outermost scope. -/
def ScopesAt (p : Program) (t : SymbolTable) (blockOf : ScopeId → Block) (a : List Nat) (ss : List ScopeId) : Prop :=
  ss.map blockOf = p.blocksAt a ∧ (ss ++ [SymbolTable.root]).IsChain fun s s' => (t.scope s).parent = some s'

/-- In none of the scopes a declaration of the name is in force at `a`. -/
def FreeIn (p : Program) (blockOf : ScopeId → Block) (a : List Nat) (name : String) (ss : List ScopeId) : Prop :=
  ∀ s ∈ ss, ∀ x, p.InForce a (blockOf s) x → x.name.text ≠ name

/-- What a name stands for at `a`: the nearest declaration in force, or else a name that every program knows. -/
inductive Denotes (p : Program) (t : SymbolTable) (blockOf : ScopeId → Block) (a : List Nat) (name : String)
    (id : SymbolId) : Prop
  | declared {inner outer x} : p.ScopesAt t blockOf a (inner ++ (t.get id).scope :: outer) →
      p.FreeIn blockOf a name inner → p.InForce a (blockOf (t.get id).scope) x → x.name.text = name → x.Stands t id →
      Denotes p t blockOf a name id
  | builtin {ss} : p.ScopesAt t blockOf a ss → p.FreeIn blockOf a name ss → (t.get id).scope = SymbolTable.root →
      t.kind id = .builtin → Denotes p t blockOf a name id

def Unnumbered (p : Program) : Prop := ∀ n ∈ (unit p).nodes, ∀ symbol ∈ n.numbers, symbol = none

/-- `a` lies in the settings of a board. -/
def InConfig (p : Program) (a : List Nat) : Prop :=
  ∃ b l entries i c, (unit p).at? b = some (.item (.config l entries)) ∧ a = b ++ i :: c

/-- `a` lies in the range of a field of a class. -/
def InFieldRange (p : Program) (a : List Nat) : Prop :=
  ∃ b l d j f i c, (unit p).at? b = some (.item (.classDecl l d)) ∧ d.fields[j]? = some f ∧
    i < (ofRange? f.value.range).length ∧ a = b ++ j :: i :: c

end Program

namespace Node

variable {n m : Node} {o a : List Nat} {bs : List Block} {i : Item} {p : Program}

lemma symbol_mem_numbers {r : Reference} (h : n.reference? = some r) : r.symbol ∈ n.numbers := by
  unfold reference? at h
  split at h
  · cases h
    exact mem_singleton_self _
  · cases h
    exact mem_singleton_self _
  · cases h
    exact mem_singleton_self _
  · cases h

lemma at?_append (n : Node) (a b : List Nat) : n.at? (a ++ b) = (n.at? a).bind (·.at? b) := by
  induction a generalizing n with
  | nil => rfl
  | cons i a ih =>
    rw [cons_append, at?, at?]
    cases n.children[i]? with
    | none => rfl
    | some c => exact ih c

lemma at?_concat (n : Node) (a : List Nat) (i : Nat) : n.at? (a ++ [i]) = (n.at? a).bind fun m => m.children[i]? := by
  rw [at?_append]
  congr 1
  funext m
  rw [at?]
  cases m.children[i]? <;> rfl

lemma mem_nodes_trans {k} (hm : m ∈ n.nodes) (hk : k ∈ m.nodes) : k ∈ n.nodes := by
  obtain ⟨a, ha⟩ := mem_nodes.mp hm
  obtain ⟨b, hb⟩ := mem_nodes.mp hk
  refine mem_nodes.mpr ⟨a ++ b, ?_⟩
  rw [at?_append, ha]
  exact hb

lemma blocksFrom_append (h : n.at? a = some m) (b : List Nat) :
    n.blocksFrom o bs (a ++ b) = m.blocksFrom (o ++ a) (n.blocksFrom o bs a) b := by
  induction a generalizing n o bs with
  | nil =>
    obtain rfl := Option.some.inj h
    simp [blocksFrom]
  | cons i a ih =>
    obtain ⟨c, hc, hm⟩ := Option.bind_eq_some_iff.mp h
    rw [cons_append, blocksFrom, blocksFrom, hc]
    simp only
    rw [ih hm, append_assoc, singleton_append]

lemma blocksFrom_concat (h : n.at? a = some m) {i : Nat} (hi : i < m.children.length) :
    n.blocksFrom o bs (a ++ [i]) = m.inner (o ++ a) (n.blocksFrom o bs a) i := by
  rw [blocksFrom_append h, blocksFrom, getElem?_eq_getElem hi]
  rfl

lemma module_of_at?_item (h : (item i).at? (j :: a) = some n) (hn : n.isInner = false) :
    ∃ l aliasName path symbol p, i = .module l aliasName path symbol p ∧ j = 0 ∧ (unit p).at? a = some n := by
  obtain ⟨c, hc, hq⟩ := Option.bind_eq_some_iff.mp h
  have hm := mem_of_getElem? hc
  have inner (hi : c.isInner) : False := by
    rw [isInner_of_mem_nodes hi (mem_nodes.mpr ⟨a, hq⟩)] at hn
    cases hn
  cases i with
  | module l aliasName path symbol p =>
    cases j with
    | zero =>
      cases hc
      exact ⟨l, aliasName, path, symbol, p, rfl, rfl, hq⟩
    | succ j => cases hc
  | interrupt l d =>
    simp only [children, mem_cons, mem_ofBlock] at hm
    rcases hm with rfl | ⟨s, -, rfl⟩
    · exact (inner rfl).elim
    · exact (inner rfl).elim
  | _ => exact (inner (isInner_of_mem_item rfl hm)).elim

lemma module_of_unit_at? {q} (h : (item i).at? a = some (unit q)) :
    ∃ l aliasName path symbol p a', i = .module l aliasName path symbol p ∧ a = 0 :: a' ∧
      (unit p).at? a' = some (unit q) := by
  cases a with
  | nil => cases h
  | cons j a =>
    obtain ⟨l, aliasName, path, symbol, p, rfl, rfl, hq⟩ := module_of_at?_item h rfl
    exact ⟨l, aliasName, path, symbol, p, a, rfl, rfl, hq⟩

lemma at?_unit_cases (h : (unit p).at? a = some n) (hn : n.isInner = false) :
    (a = [] ∧ n = unit p) ∨ (∃ j i, a = [j] ∧ n = item i ∧ p.items[j]? = some i) ∨
      ∃ j b l aliasName path symbol q, a = j :: 0 :: b ∧ p.items[j]? = some (.module l aliasName path symbol q) ∧
        (unit q).at? b = some n := by
  cases a with
  | nil => exact .inl ⟨rfl, (Option.some.inj h).symm⟩
  | cons j a =>
    obtain ⟨c, hc, h⟩ := Option.bind_eq_some_iff.mp h
    rw [children, getElem?_map] at hc
    obtain ⟨i, hi, rfl⟩ := Option.map_eq_some_iff.mp hc
    cases a with
    | nil => exact .inr (.inl ⟨j, i, rfl, (Option.some.inj h).symm, hi⟩)
    | cons m b =>
      obtain ⟨l, aliasName, path, symbol, q, rfl, rfl, hb⟩ := module_of_at?_item h hn
      exact .inr (.inr ⟨j, b, l, aliasName, path, symbol, q, rfl, hi, hb⟩)

lemma item_at?_cases (h : (unit p).at? a = some (item i)) :
    (∃ j, a = [j] ∧ p.items[j]? = some i) ∨ ∃ j b l aliasName path symbol q, a = j :: 0 :: b ∧
      p.items[j]? = some (.module l aliasName path symbol q) ∧ (unit q).at? b = some (item i) := by
  rcases at?_unit_cases h rfl with ⟨-, ⟨⟩⟩ | ⟨j, _, ha, ⟨⟩, hj⟩ | hmodule
  · exact .inl ⟨j, ha, hj⟩
  · exact .inr hmodule

end Node

/-- The aliases of the modules above a place. -/
def Program.aliasesTo (p : Program) : List Nat → List String
  | j :: _ :: a =>
    match p.items[j]? with
    | some (.module _ aliasName _ _ q) => aliasName.text :: q.aliasesTo a
    | _ => []
  | _ => []

lemma Program.aliasesTo_below {p q : Program} {l} {aliasName : Name} {file}
    {symbol} (h : p.items[j]? = some (.module l aliasName file symbol q)) (n : Nat) (a : List Nat) :
    p.aliasesTo (j :: n :: a) = aliasName.text :: q.aliasesTo a := by
  simp [aliasesTo, h]

end SketchCompiler
