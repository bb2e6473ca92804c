import SketchCompiler.Proofs.Scoping

namespace SketchCompiler

open List Node

variable {α : Type} (number : Nat) (d : VarDecl)

lemma flatMap_zipIdx {β : Type} (f : α → List β) (as : List α) (k : Nat) :
    ((as.zipIdx k).flatMap fun x => f x.1) = as.flatMap f := by
  rw [← flatMap_map, zipIdx_map_fst]

inductive Spot where
  | node (n : Node)
  | declared (d : VarDecl)
  | field (d : VarDecl)
  /-- An initializer with a handler, and the variable, which is declared before the handler. -/
  | guarded (loc : Location) (value : Expr) (handler : List Stmt) (x : Binder)
  /-- What is not read with the unit: another unit, the settings of a board, and the range of a field. -/
  | unread (n : Node)

inductive SpotPart where
  | child (x : Spot)
  | block (number : Nat) (kind : ScopeKind) (header : List Binder) (parts : List SpotPart)

namespace SpotPart

def ofNodes (ns : List Node) : List SpotPart := ns.map fun n => child (.node n)

def ofBody (number : Nat) (kind : ScopeKind) (header : List Binder) (body : List Stmt) : SpotPart :=
  block number kind header (ofNodes (ofBlock body))

def ofBranches (branches : List Branch) (start : Nat) : List SpotPart :=
  (branches.zipIdx start).flatMap fun x => [child (.node (.expr x.1.test)), ofBody x.2 .block [] x.1.body]

def ofArms (arms : List Arm) (start : Nat) : List SpotPart :=
  (arms.zipIdx start).flatMap fun x => ofNodes (x.1.patterns.flatMap ofPattern) ++ [ofBody x.2 .block [] x.1.body]

def ofMethods (methods : List (Located FunctionDecl)) (start : Nat) : List SpotPart :=
  (methods.zipIdx start).map fun x => ofBody x.2 .method (x.1.value.params.map Param.binder) x.1.value.body

end SpotPart

namespace Spot

open Node SpotPart

def toNode : Spot → Node
  | node n | unread n => n
  | declared d | field d => var d
  | guarded l e handler _ => expr (.guarded l e handler)

def reference? : Spot → Option Reference
  | node n => n.reference?
  | _ => none

def binder? : Spot → Option Binder
  | node (item (.aliasDecl _ name _ symbol)) => some ⟨name, .constant, symbol⟩
  | declared d =>
    match d.initializer with
    | some (.guarded ..) => none
    | _ => some d.binder
  | guarded _ _ _ x => some x
  | _ => none

def before : Spot → List SpotPart
  | node (unit p) => [block 0 .global (p.items.flatMap Item.binders) (ofNodes (p.items.map item))]
  | node (item (.config _ entries)) => entries.map fun f => child (unread (expr f.value))
  | node (item (.module _ _ _ _ program)) => [child (unread (unit program))]
  | node (item (.var _ d)) | node (stmt (.var _ d)) => [child (declared d)]
  | node (item (.function _ d)) => [ofBody 0 .function (d.params.map Param.binder) d.body]
  | node (item (.classDecl _ d)) => d.fields.map (fun f => child (field f.value)) ++
      (d.constructor.toList.map fun k => ofBody 0 .method (k.params.map Param.binder) k.body) ++ ofMethods d.methods 1
  | node (item (.event _ _ body)) => [ofBody 0 .function [] body]
  | node (item (.interrupt _ d)) => [child (node (expr d.pin)), ofBody 0 .function [] d.body]
  | node (item (.task _ d)) => ofNodes (ofExpr? d.period) ++ [ofBody 0 .function [] d.body]
  | node (stmt (.cond _ branches otherwise)) =>
    ofBranches branches 0 ++ otherwise.toList.map (ofBody branches.length .block [])
  | node (stmt (.whileLoop _ e body)) | node (stmt (.repeatLoop _ e body)) =>
    [child (node (expr e)), ofBody 0 .loop [] body]
  | node (stmt (.forLoop _ init e update body)) =>
    [block 0 .loop [] (ofNodes (ofStmt? init ++ ofExpr? e ++ ofStmt? update) ++ [ofBody 1 .block [] body])]
  | node (stmt (.choose _ e arms)) => child (node (expr e)) :: ofArms arms 0
  | node (stmt (.switch _ e cases otherwise)) =>
    child (node (expr e)) :: (ofBranches cases 0 ++ otherwise.toList.map (ofBody cases.length .block []))
  | node (stmt (.atomic _ body)) => [ofBody 0 .block [] body]
  | node (expr (.guarded _ e handler)) => [child (node (expr e)), ofBody 0 .block [] handler]
  | node n => ofNodes n.children
  | declared d => ofNodes (ofRange? d.range) ++
      match d.initializer with
      | some (.guarded l e handler) => [child (guarded l e handler d.binder)]
      | e => ofNodes (ofExpr? e)
  | field d => (ofRange? d.range).map (fun n => child (unread n)) ++ ofNodes (ofExpr? d.initializer)
  | guarded _ e _ _ => [child (node (expr e))]
  | unread _ => []

/-- Only an initializer with a handler has parts behind what it declares. -/
def after : Spot → List SpotPart
  | guarded _ _ handler _ => [ofBody 0 .block [] handler]
  | _ => []

end Spot

namespace SpotPart

mutual

/-- The children, each with the numbers of the blocks around it. -/
def slots : SpotPart → List (List Nat × Spot)
  | child x => [([], x)]
  | block number _ _ parts => (partsSlots parts).map fun s => (number :: s.1, s.2)

def partsSlots : List SpotPart → List (List Nat × Spot)
  | [] => []
  | p :: ps => p.slots ++ partsSlots ps

end

mutual

def heads : SpotPart → List (Nat × List Binder)
  | child _ => []
  | block number _ header parts => (number, header) :: partsHeads parts

def partsHeads : List SpotPart → List (Nat × List Binder)
  | [] => []
  | p :: ps => p.heads ++ partsHeads ps

end

lemma partsSlots_eq (ps : List SpotPart) : partsSlots ps = ps.flatMap slots := by
  induction ps with
  | nil => rfl
  | cons p ps ih => rw [partsSlots, ih, flatMap_cons]

lemma partsHeads_eq (ps : List SpotPart) : partsHeads ps = ps.flatMap heads := by
  induction ps with
  | nil => rfl
  | cons p ps ih => rw [partsHeads, ih, flatMap_cons]

@[simp]
lemma partsSlots_append (ps qs : List SpotPart) : partsSlots (ps ++ qs) = partsSlots ps ++ partsSlots qs := by
  simp [partsSlots_eq]

@[simp]
lemma partsHeads_append (ps qs : List SpotPart) : partsHeads (ps ++ qs) = partsHeads ps ++ partsHeads qs := by
  simp [partsHeads_eq]

@[simp]
lemma partsSlots_map (f : α → SpotPart) (as : List α) : partsSlots (as.map f) = as.flatMap fun a => (f a).slots := by
  rw [partsSlots_eq, flatMap_map]

lemma partsHeads_map (f : α → SpotPart) (as : List α) : partsHeads (as.map f) = as.flatMap fun a => (f a).heads := by
  rw [partsHeads_eq, flatMap_map]

@[simp]
lemma partsSlots_ofNodes (ns : List Node) : partsSlots (ofNodes ns) = ns.map fun n => ([], .node n) := by
  simp [ofNodes, slots, ← map_eq_flatMap]

@[simp]
lemma partsHeads_ofNodes (ns : List Node) : partsHeads (ofNodes ns) = [] := by
  simp [ofNodes, partsHeads_map, heads]

@[simp]
lemma partsHeads_children (f : α → Spot) (as : List α) : partsHeads (as.map fun a => child (f a)) = [] := by
  simp [partsHeads_map, heads]

@[simp]
lemma slots_ofBody (kind : ScopeKind) (header : List Binder) (body : List Stmt) :
    (ofBody number kind header body).slots = body.map fun s => ([number], .node (.stmt s)) := by
  simp [ofBody, slots, ofBlock]

@[simp]
lemma heads_ofBody (kind : ScopeKind) (header : List Binder) (body : List Stmt) :
    (ofBody number kind header body).heads = [(number, header)] := by
  simp [ofBody, heads]

@[simp]
lemma partsHeads_ofBodies (kind : ScopeKind) (header : α → List Binder)
    (body : α → List Stmt) (as : List α) :
    partsHeads (as.map fun a => ofBody number kind (header a) (body a)) = as.map fun a => (number, header a) := by
  simp [partsHeads_map, ← map_eq_flatMap]

@[simp]
lemma partsSlots_ofBranches (bs : List Branch) (k : Nat) : partsSlots (ofBranches bs k) =
    (bs.zipIdx k).flatMap fun x => ([], .node (.expr x.1.test)) :: x.1.body.map fun s => ([x.2], .node (.stmt s)) := by
  simp [ofBranches, partsSlots_eq, flatMap_assoc, slots]

@[simp]
lemma partsHeads_ofBranches (bs : List Branch) (k : Nat) :
    partsHeads (ofBranches bs k) = (bs.zipIdx k).map fun x => (x.2, []) := by
  simp [ofBranches, partsHeads_eq, flatMap_assoc, heads, ← map_eq_flatMap]

@[simp]
lemma partsSlots_ofArms (arms : List Arm) (k : Nat) : partsSlots (ofArms arms k) =
    (arms.zipIdx k).flatMap fun x => (x.1.patterns.flatMap ofPattern).map (fun n => ([], .node n)) ++
      x.1.body.map fun s => ([x.2], .node (.stmt s)) := by
  simp only [ofArms, partsSlots_eq, flatMap_assoc, flatMap_append]
  simp [← partsSlots_eq]

@[simp]
lemma partsHeads_ofArms (arms : List Arm) (k : Nat) :
    partsHeads (ofArms arms k) = (arms.zipIdx k).map fun x => (x.2, []) := by
  simp only [ofArms, partsHeads_eq, flatMap_assoc, flatMap_append]
  simp [← partsHeads_eq, ← map_eq_flatMap]

@[simp]
lemma partsSlots_ofMethods (ms : List (Located FunctionDecl)) (k : Nat) : partsSlots (ofMethods ms k) =
    (ms.zipIdx k).flatMap fun x => x.1.value.body.map fun s => ([x.2], .node (.stmt s)) := by
  simp [ofMethods]

@[simp]
lemma partsHeads_ofMethods (ms : List (Located FunctionDecl)) (k : Nat) :
    partsHeads (ofMethods ms k) = (ms.zipIdx k).map fun x => (x.2, x.1.value.params.map Param.binder) := by
  simp [ofMethods, partsHeads_map, ← map_eq_flatMap]

end SpotPart

namespace Spot

open Node SpotPart

def slots (x : Spot) : List (List Nat × Spot) := partsSlots (x.before ++ x.after)

def heads (x : Spot) : List (Nat × List Binder) := partsHeads (x.before ++ x.after)

def isRead : Spot → Bool
  | unread _ => false
  | _ => true

def isNode : Spot → Bool
  | node _ => true
  | _ => false

@[simp]
lemma toNode_node (n : Node) : (node n).toNode = n := rfl

@[simp]
lemma toNode_unread (n : Node) : (unread n).toNode = n := rfl

@[simp]
lemma toNode_declared : (declared d).toNode = var d := rfl

@[simp]
lemma toNode_field : (field d).toNode = var d := rfl

@[simp]
lemma toNode_guarded (l : Location) (e : Expr) (handler : List Stmt) (x : Binder) :
    (guarded l e handler x).toNode = expr (.guarded l e handler) := rfl

variable {x y : Spot} {i : Nat} {ks : List Nat}

section

attribute [local simp] slots before after children around partsSlots SpotPart.slots ofBlock isNode Function.comp_def

lemma slots_item (i : Item) : (node (item i)).slots.map (·.2.toNode) = (item i).children ∧
    (node (item i)).slots.map (·.1) = (item i).around := by
  have hm (ms : List (Located FunctionDecl)) : ((ms.zipIdx 1).flatMap fun x => x.1.value.body.map stmt) =
      ms.flatMap fun m => m.value.body.map stmt := flatMap_zipIdx (fun m => m.value.body.map stmt) ms 1
  cases i with
  | classDecl l d =>
    cases h : d.constructor <;> simp [ofConstructor?, h, hm, map_flatMap, ← map_eq_flatMap]
  | _ =>
    simp [← map_eq_flatMap]

lemma slots_stmt (s : Stmt) : (node (stmt s)).slots.map (·.2.toNode) = (stmt s).children ∧
    (node (stmt s)).slots.map (·.1) = (stmt s).around := by
  have hb (bs : List Branch) : ((bs.zipIdx).flatMap fun x => expr x.1.test :: x.1.body.map stmt) =
      bs.flatMap ofBranch := flatMap_zipIdx ofBranch bs 0
  have ha (as : List Arm) : ((as.zipIdx).flatMap fun x => x.1.patterns.flatMap ofPattern ++ x.1.body.map stmt) =
      as.flatMap ofArm := flatMap_zipIdx ofArm as 0
  cases s with
  | cond l bs o | switch l e bs o =>
    cases o <;> simp [ofBlock?, hb, map_flatMap]
  | forLoop l init e update body =>
    simp [-map_const']
  | _ =>
    simp [ha, map_flatMap]

lemma declared_plain {d : VarDecl} (h : ∀ l e handler, d.initializer ≠ some (.guarded l e handler)) :
    (declared d).before = ofNodes (ofRange? d.range) ++ ofNodes (ofExpr? d.initializer) ∧
      (declared d).binder? = some d.binder := by
  rw [before, binder?]
  constructor
  · split
    · exact absurd ‹_› (h _ _ _)
    · rfl
  · split
    · exact absurd ‹_› (h _ _ _)
    · rfl

lemma slots_of_isRead {x : Spot} (hx : x.isRead) :
    x.slots.map (·.2.toNode) = x.toNode.children ∧ x.slots.map (·.1) = x.toNode.around := by
  cases x with
  | node n =>
    cases n with
    | unit p => simp
    | item i => exact slots_item i
    | var d => simp
    | stmt s => exact slots_stmt s
    | expr e =>
      cases e <;> simp
  | declared d =>
    rcases h : d.initializer with _ | e
    · simp [ofExpr?, h]
    · cases e <;> simp [ofExpr?, h]
  | field d => simp [← map_eq_flatMap]
  | guarded l e handler y =>
    simp
  | unread n => cases hx

/-- Which spots stand below which: child `i` of the first is the second. -/
inductive Below : Spot → Nat → Spot → Prop
  | node {x i n} : Below x i (.node n)
  | ofItem {l d} : Below (.node (item (.var l d))) 0 (declared d)
  | ofStmt {l d} : Below (.node (stmt (.var l d))) 0 (declared d)
  | field {l d f i} : d.fields[i]? = some f → Below (.node (item (.classDecl l d))) i (field f.value)
  | guarded {l d e handler} : d.initializer = some (.guarded l e handler) →
      Below (declared d) (ofRange? d.range).length (guarded l e handler d.binder)
  | entry {l entries f i} : entries[i]? = some f → Below (.node (item (.config l entries))) i (unread (expr f.value))
  | module {l aliasName path symbol p} : Below (.node (item (.module l aliasName path symbol p))) 0 (unread (unit p))
  | bound {d n i} : (ofRange? d.range)[i]? = some n → Below (.field d) i (unread n)

lemma eq_node_of_all {ss : List (List Nat × Spot)} (hs : ss.all (·.2.isNode)) (h : ss[i]? = some (ks, y)) :
    ∃ n, y = node n := by
  have hy : y.isNode := all_eq_true.mp hs _ (mem_of_getElem? h)
  cases y with
  | node n => exact ⟨n, rfl⟩
  | _ => cases hy

lemma below_of_nodes (h : x.slots[i]? = some (ks, y)) (hx : x.slots.all (·.2.isNode)) : Below x i y := by
  obtain ⟨n, rfl⟩ := eq_node_of_all hx h
  exact .node

lemma below_of_append (as : List α) (f : α → Spot) (ps : List SpotPart) (h : x.slots[i]? = some (ks, y))
    (hx : x.slots = as.map (fun a => ([], f a)) ++ partsSlots ps) (hp : (partsSlots ps).all (·.2.isNode))
    (hf : ∀ a, as[i]? = some a → Below x i (f a)) : Below x i y := by
  rw [hx, getElem?_append] at h
  split at h
  · rw [getElem?_map] at h
    obtain ⟨a, ha, he⟩ := Option.map_eq_some_iff.mp h
    cases he
    exact hf a ha
  · obtain ⟨n, rfl⟩ := eq_node_of_all hp h
    exact .node

lemma below_of_singleton {y'} (h : x.slots[i]? = some (ks, y)) (hx : x.slots = [([], y')])
    (hy : Below x 0 y') : Below x i y := by
  rw [hx] at h
  cases i with
  | zero =>
    cases h
    exact hy
  | succ i => cases h

lemma below_declared {d} (h : (declared d).slots[i]? = some (ks, y)) : Below (declared d) i y := by
  have plain (hd : (declared d).before = ofNodes (ofRange? d.range) ++ ofNodes (ofExpr? d.initializer)) :
      Below (declared d) i y := by
    refine below_of_nodes h ?_
    simp [hd, -before]
  rcases hi : d.initializer with _ | e
  · exact plain (by simp [hi])
  · cases e with
    | guarded l e handler =>
      simp only [slots, before, hi, after, append_nil, partsSlots_append, partsSlots_ofNodes, getElem?_append] at h
      split at h
      · obtain ⟨n, rfl⟩ := eq_node_of_all (by simp) h
        exact .node
      · rename_i hlt
        have hs := List.getElem?_eq_some_iff.mp h
        obtain ⟨hlen, he⟩ := hs
        simp only [partsSlots, SpotPart.slots, length_map, append_nil, length_singleton] at hlen hlt
        obtain rfl : i = (ofRange? d.range).length := by omega
        simp only [partsSlots, SpotPart.slots, length_map, Nat.sub_self, append_nil, getElem_cons_zero,
          Prod.mk.injEq] at he
        rw [← he.2]
        exact .guarded hi
    | _ => exact plain (by simp [hi])

lemma below_of_slot (h : x.slots[i]? = some (ks, y)) : Below x i y := by
  cases x with
  | node n =>
    cases n with
    | unit p => exact below_of_nodes h (by simp)
    | item i =>
      cases i with
      | config l entries =>
        refine below_of_append entries (fun f => unread (expr f.value)) [] h ?_ rfl fun f hf => .entry hf
        simp [← map_eq_flatMap]
      | module l aliasName path symbol program => exact below_of_singleton h rfl .module
      | var l d => exact below_of_singleton h rfl .ofItem
      | classDecl l d =>
        refine below_of_append d.fields (fun f => field f.value) ((d.constructor.toList.map fun k =>
          ofBody 0 .method (k.params.map Param.binder) k.body) ++ ofMethods d.methods 1) h ?_ ?_ fun f hf => .field hf
        · simp [← map_eq_flatMap]
        · simp
      | _ => exact below_of_nodes h (by simp)
    | var d => exact below_of_nodes h (by simp)
    | stmt s =>
      cases s with
      | var l d => exact below_of_singleton h rfl .ofStmt
      | _ => exact below_of_nodes h (by simp)
    | expr e =>
      cases e <;> exact below_of_nodes h (by simp)
  | declared d => exact below_declared h
  | field d =>
    refine below_of_append (ofRange? d.range) unread (ofNodes (ofExpr? d.initializer)) h ?_ ?_ fun n hn => .bound hn
    · simp [← map_eq_flatMap]
    · simp
  | guarded l e handler b => exact below_of_nodes h (by simp)
  | unread n => cases h

end

attribute [local simp] heads before after partsHeads SpotPart.heads header children

lemma heads_declared : (declared d).heads = [] := by
  simp only [heads, before, after, append_nil, partsHeads_append, partsHeads_ofNodes, nil_append]
  split <;> simp

lemma header_of_mem_heads (hx : x.isRead) {k} {xs} (h : (k, xs) ∈ x.heads) : xs = x.toNode.header k := by
  cases x with
  | node n =>
    cases n with
    | unit p => simp_all
    | item i =>
      cases i with
      | classDecl l d =>
        simp only [heads, before, after, append_nil, partsHeads_append, partsHeads_children, nil_append,
          partsHeads_ofBodies, partsHeads_ofMethods, mem_append, mem_map, Option.mem_toList, Prod.mk.injEq,
          Prod.exists] at h
        rcases h with ⟨c, hc, rfl, rfl⟩ | ⟨m, j, hm, rfl, rfl⟩
        · simp [hc]
        · obtain ⟨hj, hm⟩ := mk_mem_zipIdx_iff_le_and_getElem?_sub.mp hm
          obtain ⟨j, rfl⟩ := Nat.exists_eq_add_of_le' hj
          simp at hm ⊢
          simp [hm]
      | _ => simp_all
    | var d => simp_all
    | stmt s =>
      cases s <;> simp_all [partsHeads_map]
      all_goals grind
    | expr e => cases e <;> simp_all
  | declared d => simp [heads_declared, -heads] at h
  | field d => simp at h
  | guarded l e handler b => simp_all
  | unread n => cases h

lemma mem_heads_of_header (hx : x.isRead) {k : Nat} (h : x.toNode.header k ≠ []) :
    (k, x.toNode.header k) ∈ x.heads := by
  cases x with
  | node n =>
    cases n with
    | unit p =>
      cases k with
      | zero => simp
      | succ k => exact absurd rfl h
    | item i =>
      cases i with
      | function l d =>
        cases k with
        | zero => simp
        | succ k => exact absurd rfl h
      | classDecl l d =>
        cases k with
        | zero =>
          cases hc : d.constructor with
          | none => simp [hc] at h
          | some c => simp [hc]
        | succ k =>
          cases hm : d.methods[k]? with
          | none => simp [hm] at h
          | some m =>
            have hz : (m, k + 1) ∈ d.methods.zipIdx 1 := by
              rw [mk_mem_zipIdx_iff_le_and_getElem?_sub]
              exact ⟨by omega, by simpa using hm⟩
            simp only [heads, before, after, append_nil, partsHeads_append, partsHeads_ofMethods, mem_append,
              mem_map, Prod.exists]
            refine .inr ⟨m, k + 1, hz, ?_⟩
            simp [hm]
      | _ => exact absurd rfl h
    | _ => exact absurd rfl h
  | unread n => cases hx
  | _ => exact absurd rfl h

lemma nodup_heads (x : Spot) : (x.heads.map (·.1)).Nodup := by
  cases x with
  | node n =>
    cases n with
    | unit p => simp
    | item i =>
      cases i with
      | classDecl l d =>
        cases h : d.constructor <;>
          simp [h, Function.comp_def, nodup_range', mem_range']
        omega
      | _ => simp
    | var d => simp
    | stmt s =>
      cases s with
      | cond l bs o | switch l e bs o =>
        cases o <;> simp [Function.comp_def, nodup_append, nodup_range', mem_range']
        omega
      | _ => simp [Function.comp_def, nodup_range']
    | expr e => cases e <;> simp
  | declared d => simp [heads_declared, -heads]
  | field d => simp
  | guarded l e handler b => simp
  | unread n => simp

end Spot

end SketchCompiler
