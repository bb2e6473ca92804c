import SketchCompiler.Interrupts
import SketchCompiler.Proofs.Places

namespace SketchCompiler.Node

open List

variable {n : Node}

lemma eq_flatMap {α β : Type} {collect : List α → List β} {own : α → List β} (hnil : collect [] = [])
    (hcons : ∀ a as, collect (a :: as) = own a ++ collect as) (as : List α) : collect as = as.flatMap own := by
  induction as with
  | nil => exact hnil
  | cons a as ih => rw [hcons, ih, flatMap_cons]

section Findings

variable (t : SymbolTable)

/-- What a node by itself does in the body of an interrupt. -/
def finding : Node → List Finding
  | stmt (.whileLoop l ..) | stmt (.forLoop l ..) | stmt (.repeatLoop l ..) => [.error ⟨.loop, l⟩]
  | expr (.name _ r) => t.sharedUse r.symbol
  | expr (.member _ _ _ symbol) => t.sharedUse symbol
  | expr (.call _ callee _) => t.callFindings callee
  | _ => []

def findings : Node → List Finding
  | unit _ | item _ => []
  | var d => d.findings t
  | stmt s => s.findings t
  | expr e => e.findings t

lemma exprsFindings_eq (es : List Expr) : exprsFindings t es = (es.map expr).flatMap (findings t) := by
  rw [flatMap_map]
  exact eq_flatMap rfl (fun _ _ => rfl) es

lemma exprFindings?_eq (e : Option Expr) : exprFindings? t e = (ofExpr? e).flatMap (findings t) := by
  cases e <;> simp [exprFindings?, ofExpr?, findings]

lemma fieldsFindings_eq (fs : List FieldValue) :
    fieldsFindings t fs = (fs.map fun f => expr f.value).flatMap (findings t) := by
  rw [flatMap_map]
  exact eq_flatMap rfl (fun ⟨_, _⟩ _ => rfl) fs

lemma rangeFindings?_eq (r : Option Range) : rangeFindings? t r = (ofRange? r).flatMap (findings t) := by
  rcases r with _ | ⟨min, max⟩ <;> simp [rangeFindings?, ofRange?, findings]

lemma stmtFindings?_eq (s : Option Stmt) : stmtFindings? t s = (ofStmt? s).flatMap (findings t) := by
  cases s <;> simp [stmtFindings?, ofStmt?, findings]

lemma blockFindings_eq (body : List Stmt) : blockFindings t body = (ofBlock body).flatMap (findings t) := by
  rw [ofBlock, flatMap_map]
  exact eq_flatMap rfl (fun _ _ => rfl) body

lemma blockFindings?_eq (body : Option (List Stmt)) : blockFindings? t body = (ofBlock? body).flatMap (findings t) := by
  cases body with
  | none => rfl
  | some body => exact blockFindings_eq t body

lemma branchesFindings_eq (bs : List Branch) : branchesFindings t bs = (bs.flatMap ofBranch).flatMap (findings t) := by
  rw [flatMap_assoc]
  refine eq_flatMap rfl (fun ⟨e, body⟩ bs => ?_) bs
  rw [branchesFindings, blockFindings_eq]
  rfl

lemma patternsFindings_eq (ps : List Pattern) :
    patternsFindings t ps = (ps.flatMap ofPattern).flatMap (findings t) := by
  rw [flatMap_assoc]
  refine eq_flatMap rfl (fun p ps => ?_) ps
  cases p <;> simp [patternsFindings, ofPattern, findings]

lemma armsFindings_eq (as : List Arm) : armsFindings t as = (as.flatMap ofArm).flatMap (findings t) := by
  rw [flatMap_assoc]
  refine eq_flatMap rfl (fun ⟨patterns, body⟩ as => ?_) as
  rw [armsFindings, blockFindings_eq, patternsFindings_eq, ofArm, flatMap_append]

lemma findings_eq (hn : n.isInner) : n.findings t = n.finding t ++ n.children.flatMap (findings t) := by
  cases n with
  | unit p => simp [isInner] at hn
  | item i => simp [isInner] at hn
  | var d =>
    cases d
    simp [findings, VarDecl.findings, finding, children, rangeFindings?_eq, exprFindings?_eq]
  | stmt s =>
    cases s <;> simp only [findings, Stmt.findings, finding, children, exprFindings?_eq, stmtFindings?_eq,
      blockFindings_eq, blockFindings?_eq, branchesFindings_eq, armsFindings_eq, flatMap_append,
      flatMap_cons, flatMap_nil, nil_append, append_nil, cons_append, append_assoc]
  | expr e =>
    cases e <;> simp only [findings, Expr.findings, finding, children, exprsFindings_eq, fieldsFindings_eq,
      blockFindings_eq, flatMap_cons, flatMap_nil, nil_append, append_nil, append_assoc]

lemma findings_eq_nodes (hn : n.isInner) : n.findings t = n.nodes.flatMap (finding t) :=
  flatMap_nodes isInner_of_mem_children (findings_eq t) hn

lemma blockFindings_eq_nodes (body : List Stmt) :
    blockFindings t body = ((ofBlock body).flatMap nodes).flatMap (finding t) := by
  rw [blockFindings_eq, flatMap_assoc]
  refine flatMap_congr fun n hn => findings_eq_nodes t ?_
  obtain ⟨s, -, rfl⟩ := mem_ofBlock.mp hn
  rfl

end Findings

section Vars

def vars : Node → List VarDecl
  | unit p => p.vars
  | item i => i.vars
  | var d => d.vars
  | stmt s => s.vars
  | expr e => e.vars

def var? : Node → Option VarDecl
  | var d => some d
  | _ => none

lemma exprsVars_eq (es : List Expr) : exprsVars es = (es.map expr).flatMap vars := by
  rw [flatMap_map]
  exact eq_flatMap rfl (fun _ _ => rfl) es

lemma exprVars?_eq (e : Option Expr) : exprVars? e = (ofExpr? e).flatMap vars := by
  cases e <;> simp [exprVars?, ofExpr?, vars]

lemma fieldsVars_eq (fs : List FieldValue) : fieldsVars fs = (fs.map fun f => expr f.value).flatMap vars := by
  rw [flatMap_map]
  exact eq_flatMap rfl (fun ⟨_, _⟩ _ => rfl) fs

lemma rangeVars?_eq (r : Option Range) : rangeVars? r = (ofRange? r).flatMap vars := by
  rcases r with _ | ⟨min, max⟩ <;> simp [rangeVars?, ofRange?, vars]

lemma stmtVars?_eq (s : Option Stmt) : stmtVars? s = (ofStmt? s).flatMap vars := by
  cases s <;> simp [stmtVars?, ofStmt?, vars]

lemma blockVars_eq (body : List Stmt) : blockVars body = (ofBlock body).flatMap vars := by
  rw [ofBlock, flatMap_map]
  exact eq_flatMap rfl (fun _ _ => rfl) body

lemma blockVars?_eq (body : Option (List Stmt)) : blockVars? body = (ofBlock? body).flatMap vars := by
  cases body with
  | none => rfl
  | some body => exact blockVars_eq body

lemma branchesVars_eq (bs : List Branch) : branchesVars bs = (bs.flatMap ofBranch).flatMap vars := by
  rw [flatMap_assoc]
  refine eq_flatMap rfl (fun ⟨e, body⟩ bs => ?_) bs
  rw [branchesVars, blockVars_eq]
  rfl

lemma patternsVars_eq (ps : List Pattern) : patternsVars ps = (ps.flatMap ofPattern).flatMap vars := by
  rw [flatMap_assoc]
  refine eq_flatMap rfl (fun p ps => ?_) ps
  cases p <;> simp [patternsVars, ofPattern, vars]

lemma armsVars_eq (as : List Arm) : armsVars as = (as.flatMap ofArm).flatMap vars := by
  rw [flatMap_assoc]
  refine eq_flatMap rfl (fun ⟨patterns, body⟩ as => ?_) as
  rw [armsVars, blockVars_eq, patternsVars_eq, ofArm, flatMap_append]

lemma itemsVars_eq (is : List Item) : itemsVars is = (is.map item).flatMap vars := by
  rw [flatMap_map]
  exact eq_flatMap rfl (fun _ _ => rfl) is

lemma classVars_eq (l : Location) (d : ClassDecl) : d.vars = (item (.classDecl l d)).children.flatMap vars := by
  obtain ⟨_, _, constructor, _, _⟩ := d
  cases constructor <;>
    simp [ClassDecl.vars, children, ofConstructor?, blockVars_eq, flatMap_map, flatMap_assoc, vars]

lemma vars_eq (n : Node) : n.vars = n.var?.toList ++ n.children.flatMap vars := by
  cases n with
  | unit p =>
    obtain ⟨_, _, items⟩ := p
    exact itemsVars_eq items
  | item i =>
    cases i <;> simp [vars, Item.vars, var?, children, fieldsVars_eq, exprVars?_eq, blockVars_eq]
    case classDecl l d => simpa [children] using classVars_eq l d
  | var d =>
    cases d
    simp [vars, VarDecl.vars, var?, children, rangeVars?_eq, exprVars?_eq]
  | stmt s =>
    cases s <;> simp only [vars, Stmt.vars, var?, children, exprVars?_eq, stmtVars?_eq, blockVars_eq, blockVars?_eq,
      branchesVars_eq, armsVars_eq, Option.toList_none, flatMap_append, flatMap_cons, flatMap_nil,
      nil_append, append_nil, append_assoc]
  | expr e =>
    cases e <;> simp only [vars, Expr.vars, var?, children, exprsVars_eq, fieldsVars_eq, blockVars_eq,
      Option.toList_none, flatMap_cons, flatMap_nil, nil_append, append_nil, append_assoc]

lemma vars_eq_nodes (n : Node) : n.vars = n.nodes.filterMap var? := by
  have h : n.vars = n.nodes.flatMap fun m => m.var?.toList :=
    flatMap_nodes (P := fun _ => True) (fun _ _ => trivial) (fun {m} _ => m.vars_eq) trivial
  rw [h, filterMap_eq_flatMap_toList]

lemma mem_vars {d} : d ∈ n.vars ↔ var d ∈ n.nodes := by
  rw [vars_eq_nodes, mem_filterMap]
  constructor
  · rintro ⟨m, hm, hd⟩
    cases m <;> simp_all [var?]
  · exact fun h => ⟨_, h, rfl⟩

end Vars

end SketchCompiler.Node
