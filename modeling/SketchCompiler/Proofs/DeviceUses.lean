import SketchCompiler.Hardware.Plan
import SketchCompiler.Proofs.Nodes

namespace SketchCompiler

open List

variable {α : Type}

inductive DeviceUse where
  | declare (symbol : Option SymbolId) (device : Device) (loc : Location) (args : List Expr)
  | call (loc : Location) (object : Expr) (method : Name) (found : Nat)
  | misplace (device : Device) (loc : Location)

def DeviceUse.run (k : Target) : DeviceUse → Plan Unit
  | declare symbol device loc args => Plan.declareDevice k symbol device loc args
  | call loc object method found => Plan.useCallee k found (.member loc object method none)
  | misplace device loc => Plan.report (.instantiation device) loc

/-- The device that the initializer makes, with its place and its arguments. -/
def VarDecl.device? (d : VarDecl) : Option (Device × Location × List Expr) :=
  match d.initializer with
  | some (.new l type args) => type.value.device?.map (·, l, args)
  | _ => none

lemma VarDecl.device?_eq_some {d : VarDecl} {device} {l} {args} (h : d.device? = some (device, l, args)) :
    ∃ type, d.initializer = some (.new l type args) ∧ type.value.device? = some device := by
  unfold device? at h
  split at h
  case h_1 l' type args' hi =>
    obtain ⟨device', hd, he⟩ := Option.map_eq_some_iff.mp h
    cases he
    exact ⟨type, hi, hd⟩
  case h_2 => cases h

namespace Node

/-- The use that comes ahead of the nodes below. -/
def useBefore : Node → List DeviceUse
  | expr (.call _ (.member l object method _) args) => [.call l object method args.length]
  | expr (.new l type _) => type.value.device?.toList.map (.misplace · l)
  | _ => []

/-- The use that comes behind the nodes below. -/
def useAfter : Node → List DeviceUse
  | var d =>
    match d.device? with
    | some (device, l, args) => [.declare d.symbol device l args]
    | none => []
  | _ => []

/-- The nodes that are walked next: of a variable that is a device, only the arguments. -/
def walked : Node → List Node
  | var d =>
    match d.device? with
    | some (_, _, args) => args.map expr
    | none => (var d).children
  | n => n.children

lemma sizeOf_lt_of_mem_walked {n c : Node} (h : c ∈ n.walked) : sizeOf c < sizeOf n := by
  cases n with
  | var d =>
    rw [walked] at h
    split at h
    case h_1 device l args hd =>
      -- The arguments are the children of the initializer, which is a child of the variable.
      obtain ⟨type, hi, -⟩ := VarDecl.device?_eq_some hd
      have hc : c ∈ (expr (.new l type args)).children := h
      have hv : expr (.new l type args) ∈ (var d).children := by simp [children, hi, ofExpr?]
      exact (sizeOf_lt_of_mem_children hc).trans (sizeOf_lt_of_mem_children hv)
    case h_2 => exact sizeOf_lt_of_mem_children h
  | _ => exact sizeOf_lt_of_mem_children h

/-- The uses at and below a node, in the order of the walk. -/
def uses (n : Node) : List DeviceUse :=
  n.useBefore ++ n.walked.attach.flatMap (fun c => uses c.1) ++ n.useAfter
termination_by sizeOf n
decreasing_by exact sizeOf_lt_of_mem_walked c.2

lemma uses_eq (n : Node) : n.uses = n.useBefore ++ n.walked.flatMap uses ++ n.useAfter := by
  rw [uses, flatMap_subtype (g := uses) fun _ _ => rfl, unattach_attach]

section Plan

variable (k : Target)

def plan : Node → Plan Unit
  | unit p => p.plan k
  | item i => i.plan k
  | var d => d.plan k
  | stmt s => s.plan k
  | expr e => e.plan k

lemma eq_forM {walk : List α → Plan Unit} {own : α → Plan Unit} (hnil : walk [] = pure ())
    (hcons : ∀ a as, walk (a :: as) = do own a; walk as) (as : List α) : walk as = forM as own := by
  induction as with
  | nil => exact hnil
  | cons a as ih => rw [hcons, ih, forM_cons]

lemma forM_flatMap {β : Type} (own : β → Plan Unit) (g : α → List β) (as : List α) :
    forM (as.flatMap g) own = forM as fun a => forM (g a) own := by
  induction as with
  | nil => rfl
  | cons a as ih => rw [flatMap_cons, forM_append, forM_cons, ih]

lemma forM_congr {f g : α → Plan Unit} {as : List α} (h : ∀ a ∈ as, f a = g a) : forM as f = forM as g := by
  induction as with
  | nil => rfl
  | cons a as ih =>
    rw [forM_cons, forM_cons, h a mem_cons_self, ih fun b hb => h b (mem_cons_of_mem _ hb)]

lemma planExprs_eq (es : List Expr) : planExprs k es = forM (es.map expr) (plan k) := by
  rw [forM_map]
  exact eq_forM rfl (fun _ _ => rfl) es

lemma planExpr?_eq (e : Option Expr) : planExpr? k e = forM (ofExpr? e) (plan k) := by
  cases e <;> simp [planExpr?, ofExpr?, plan]

lemma planFields_eq (fs : List FieldValue) : planFields k fs = forM (fs.map fun f => expr f.value) (plan k) := by
  rw [forM_map]
  exact eq_forM rfl (fun ⟨_, _⟩ _ => rfl) fs

lemma planRange?_eq (r : Option Range) : planRange? k r = forM (ofRange? r) (plan k) := by
  rcases r with _ | ⟨min, max⟩ <;> simp [planRange?, ofRange?, plan]

lemma planStmt?_eq (s : Option Stmt) : planStmt? k s = forM (ofStmt? s) (plan k) := by
  cases s <;> simp [planStmt?, ofStmt?, plan]

lemma planBlock_eq (body : List Stmt) : planBlock k body = forM (ofBlock body) (plan k) := by
  rw [ofBlock, forM_map]
  exact eq_forM rfl (fun _ _ => rfl) body

lemma planBlock?_eq (body : Option (List Stmt)) : planBlock? k body = forM (ofBlock? body) (plan k) := by
  cases body with
  | none => rfl
  | some body => exact planBlock_eq k body

lemma planBranches_eq (bs : List Branch) : planBranches k bs = forM (bs.flatMap ofBranch) (plan k) := by
  rw [forM_flatMap]
  refine eq_forM rfl (fun ⟨e, body⟩ bs => ?_) bs
  rw [planBranches, planBlock_eq]
  simp [ofBranch, plan]

lemma planPatterns_eq (ps : List Pattern) : planPatterns k ps = forM (ps.flatMap ofPattern) (plan k) := by
  rw [forM_flatMap]
  refine eq_forM rfl (fun p ps => ?_) ps
  cases p <;> simp [planPatterns, ofPattern, plan]

lemma planArms_eq (as : List Arm) : planArms k as = forM (as.flatMap ofArm) (plan k) := by
  rw [forM_flatMap]
  refine eq_forM rfl (fun ⟨patterns, body⟩ as => ?_) as
  rw [planArms, planBlock_eq, planPatterns_eq]
  simp [ofArm]

attribute [local simp] plan children walked useAfter useBefore VarDecl.plan VarDecl.device? planExprs_eq planBlock_eq
  planExpr?_eq planRange?_eq

lemma planItems_eq (is : List Item) : planItems k is = forM (is.map item) (plan k) := by
  rw [forM_map]
  exact eq_forM rfl (fun _ _ => rfl) is

lemma planClass_eq (l : Location) (d : ClassDecl) : d.plan k = forM (item (.classDecl l d)).children (plan k) := by
  obtain ⟨_, _, constructor, _, _⟩ := d
  cases constructor <;> simp [ClassDecl.plan, ofConstructor?, forM_flatMap]

lemma planVar_eq (d : VarDecl) : d.plan k = (do
    forM (var d).walked (plan k)
    forM (var d).useAfter (DeviceUse.run k)) := by
  obtain ⟨_, type, _, initializer, _, _⟩ := d
  cases initializer with
  | none => simp
  | some e =>
    cases e with
    | new l type args =>
      cases hd : type.value.device? with
      | none =>
        simp [hd, ofExpr?, Expr.plan]
      | some device => simp [hd, DeviceUse.run]
    | _ => simp

lemma plan_eq (n : Node) : n.plan k = (do
    forM n.useBefore (DeviceUse.run k)
    forM n.walked (plan k)
    forM n.useAfter (DeviceUse.run k)) := by
  cases n with
  | unit p =>
    cases p
    simp [Program.plan, planItems_eq]
  | item i =>
    cases i with
    | classDecl l d => simp [Item.plan, planClass_eq k l]
    | _ =>
      simp [Item.plan, planFields_eq]
  | var d =>
    rw [plan, planVar_eq]
    simp
  | stmt s =>
    cases s <;> simp [Stmt.plan, planStmt?_eq, planBlock?_eq, planBranches_eq, planArms_eq]
  | expr e =>
    cases e with
    | call l callee args =>
      cases callee <;> simp [Expr.plan, Plan.useCallee, DeviceUse.run]
    | new l type args =>
      cases hd : type.value.device? <;>
        simp [Expr.plan, hd, DeviceUse.run]
    | _ => simp [Expr.plan, planFields_eq]

lemma plan_eq_uses (n : Node) : n.plan k = forM n.uses (DeviceUse.run k) := by
  induction hs : sizeOf n using Nat.strong_induction_on generalizing n with
  | _ size ih =>
    subst hs
    rw [plan_eq, uses_eq, forM_append, forM_append, forM_flatMap, bind_assoc]
    have hw : forM n.walked (plan k) = forM n.walked fun c => forM c.uses (DeviceUse.run k) :=
      forM_congr fun c hc => ih _ (sizeOf_lt_of_mem_walked hc) c rfl
    rw [hw]

end Plan

end Node

end SketchCompiler
