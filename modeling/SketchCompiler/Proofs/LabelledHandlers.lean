import SketchCompiler.Proofs.WrittenHandlers

namespace SketchCompiler

open Node List

section

variable (f : Location → String)

mutual

/-- The expression with a label at the head of each handler in it; the label is a line of the target. -/
def Expr.label : Expr → Expr
  | .literal l v => .literal l v
  | .name l r => .name l r
  | .self l => .self l
  | .binary l a op b => .binary l a.label op b.label
  | .unary l op e => .unary l op e.label
  | .call l callee args => .call l callee.label (labelExprs args)
  | .member l object name symbol => .member l object.label name symbol
  | .new l type args => .new l type (labelExprs args)
  | .array l es => .array l (labelExprs es)
  | .subscript l a i => .subscript l a.label i.label
  | .convert l e type => .convert l e.label type
  | .guarded l e handler => .guarded l e.label (.native l (f l) :: labelBlock handler)
  | .struct l type fields => .struct l type (labelFields fields)
  | .clamp l e min max => .clamp l e.label min.label max.label

def labelExprs : List Expr → List Expr
  | [] => []
  | e :: es => e.label :: labelExprs es

def labelExpr? : Option Expr → Option Expr
  | none => none
  | some e => some e.label

def labelFields : List FieldValue → List FieldValue
  | [] => []
  | ⟨name, e⟩ :: fs => ⟨name, e.label⟩ :: labelFields fs

def labelRange? : Option Range → Option Range
  | none => none
  | some ⟨min, max⟩ => some ⟨min.label, max.label⟩

def VarDecl.label : VarDecl → VarDecl
  | ⟨qualifier, type, name, initializer, range, symbol⟩ =>
    ⟨qualifier, type, name, labelExpr? initializer, labelRange? range, symbol⟩

def Stmt.label : Stmt → Stmt
  | .var l d => .var l d.label
  | .assign l target e => .assign l target.label e.label
  | .expr l e => .expr l e.label
  | .cond l branches otherwise => .cond l (labelBranches branches) (labelBlock? otherwise)
  | .whileLoop l e body => .whileLoop l e.label (labelBlock body)
  | .forLoop l init e update body =>
    .forLoop l (labelStmt? init) (labelExpr? e) (labelStmt? update) (labelBlock body)
  | .repeatLoop l e body => .repeatLoop l e.label (labelBlock body)
  | .choose l e arms => .choose l e.label (labelArms arms)
  | .switch l e cases otherwise => .switch l e.label (labelBranches cases) (labelBlock? otherwise)
  | .atomic l body => .atomic l (labelBlock body)
  | .emit l r => .emit l r
  | .ret l e => .ret l (labelExpr? e)
  | .breakLoop l => .breakLoop l
  | .continueLoop l => .continueLoop l
  | .native l text => .native l text

def labelStmt? : Option Stmt → Option Stmt
  | none => none
  | some s => some s.label

def labelBlock : List Stmt → List Stmt
  | [] => []
  | s :: ss => s.label :: labelBlock ss

def labelBlock? : Option (List Stmt) → Option (List Stmt)
  | none => none
  | some body => some (labelBlock body)

def labelBranches : List Branch → List Branch
  | [] => []
  | ⟨e, body⟩ :: bs => ⟨e.label, labelBlock body⟩ :: labelBranches bs

def labelArms : List Arm → List Arm
  | [] => []
  | ⟨patterns, body⟩ :: as => ⟨labelPatterns patterns, labelBlock body⟩ :: labelArms as

def labelPatterns : List Pattern → List Pattern
  | [] => []
  | .wildcard l :: ps => .wildcard l :: labelPatterns ps
  | .value l e :: ps => .value l e.label :: labelPatterns ps

end

end

section Values

variable {k : Scene} {f : Location → String}

lemma Expr.symbol?_label (e : Expr) : (e.label f).symbol? = e.symbol? := by
  cases e <;> rfl

lemma Expr.wrap_label (e : Expr) (code : String) : (e.label f).wrap code = e.wrap code := by
  cases e <;> rfl

lemma Expr.isRepeatable_label (e : Expr) : (e.label f).isRepeatable = e.isRepeatable := by
  cases e <;> rfl

lemma Expr.isSome_handler?_label (e : Expr) : (e.label f).handler?.isSome = e.handler?.isSome := by
  cases e with
  | clamp l v min max => cases v <;> rfl
  | _ => rfl

lemma Scene.callee_label (e : Expr) (code : String) : k.callee (e.label f) code = k.callee e code := by
  cases e <;> rfl

lemma Scene.member_label (object : Expr) (code name : String) (symbol : Option SymbolId) :
    k.member (object.label f) code name symbol = k.member object code name symbol := by
  cases object <;> rfl

lemma Scene.deviceMethod?_label (object : Expr) (method : String) :
    k.deviceMethod? (object.label f) method = k.deviceMethod? object method := by
  rw [deviceMethod?, deviceMethod?, HardwarePlan.instanceOf?, HardwarePlan.instanceOf?, object.symbol?_label]

def Expr.isMember : Expr → Bool
  | .member .. => true
  | _ => false

lemma Expr.isMember_label (e : Expr) : (e.label f).isMember = e.isMember := by
  cases e <;> rfl

lemma Expr.code_call {callee : Expr} (h : callee.isMember = false) (l : Location) (args : List Expr) :
    (Expr.call l callee args).code k = k.callee callee (callee.code k) ++ s!"({commaList (exprCodes k args)})" := by
  cases callee with
  | member l object name symbol => cases h
  | _ => rfl

lemma Expr.code_call_label {callee : Expr} {args} (h : callee.isMember = false)
    (hcallee : (callee.label f).code k = callee.code k) (hargs : exprCodes k (labelExprs f args) = exprCodes k args)
    (l : Location) : ((Expr.call l callee args).label f).code k = (Expr.call l callee args).code k := by
  rw [Expr.label, Expr.code_call h, Expr.code_call (callee.isMember_label.trans h), Scene.callee_label, hcallee, hargs]

mutual

lemma Expr.code_label (k : Scene) (f : Location → String) : ∀ e : Expr, (e.label f).code k = e.code k
  | .literal .. | .name .. | .self _ => rfl
  | .binary l a op b => by
    simp only [Expr.label, Expr.code, Expr.wrap_label, a.code_label k f, b.code_label k f]
  | .unary l op e => by simp only [Expr.label, Expr.code, Expr.wrap_label, e.code_label k f]
  | .call l callee args => by
    have hargs := exprCodes_label k f args
    have hcallee := callee.code_label k f
    cases callee with
    | member l' object name symbol =>
      have hobject := object.code_label k f
      rw [Expr.label, Expr.label, Expr.code, Expr.code, Scene.deviceMethod?_label, Scene.member_label, hobject, hargs]
      rfl
    | _ => exact Expr.code_call_label rfl hcallee hargs l
  | .member l object name symbol => by simp only [Expr.label, Expr.code, Scene.member_label, object.code_label k f]
  | .new l type args => by simp only [Expr.label, Expr.code, exprCodes_label k f args]
  | .array l es => by simp only [Expr.label, Expr.code, exprCodes_label k f es]
  | .subscript l a i => by simp only [Expr.label, Expr.code, Expr.wrap_label, a.code_label k f, i.code_label k f]
  | .convert l e type => by simp only [Expr.label, Expr.code, e.code_label k f]
  | .guarded l e handler => by simp only [Expr.label, Expr.code, e.code_label k f]
  | .struct l type fields => by simp only [Expr.label, Expr.code, fieldCodes_label k f fields]
  | .clamp l e min max => by
    simp only [Expr.label, Expr.code, e.code_label k f, min.code_label k f, max.code_label k f]

lemma exprCodes_label (k : Scene) (f : Location → String) :
    ∀ es : List Expr, exprCodes k (labelExprs f es) = exprCodes k es
  | [] => rfl
  | e :: es => by rw [labelExprs, exprCodes, exprCodes, e.code_label k f, exprCodes_label k f es]

lemma fieldCodes_label (k : Scene) (f : Location → String) :
    ∀ fs : List FieldValue, fieldCodes k (labelFields f fs) = fieldCodes k fs
  | [] => rfl
  | ⟨name, e⟩ :: fs => by rw [labelFields, fieldCodes, fieldCodes, e.code_label k f, fieldCodes_label k f fs]

end

lemma code?_label (e : Option Expr) : (labelExpr? f e).map (Expr.code k) = e.map (Expr.code k) := by
  cases e with
  | none => rfl
  | some e => exact congrArg some (e.code_label k f)

lemma Expr.operand_label (e : Expr) : (e.label f).operand k = e.operand k := by
  rw [operand, operand, e.wrap_label, e.code_label k f]

lemma VarDecl.code_label (d : VarDecl) : (d.label f).code k = d.code k := by
  obtain ⟨_, _, _, initializer, _, symbol⟩ := d
  cases initializer with
  | none => rfl
  | some e =>
    dsimp only [VarDecl.label, labelExpr?, VarDecl.code]
    cases symbol.bind k.plan.instance? with
    | none =>
      dsimp only
      rw [e.code_label k f]
    | some i => rfl

lemma inlineCode?_label (s : Option Stmt) : inlineCode? k (labelStmt? f s) = inlineCode? k s := by
  cases s with
  | none => rfl
  | some s =>
    cases s with
    | var l d => exact d.code_label
    | assign l target e =>
      simp only [labelStmt?, Stmt.label, inlineCode?, Stmt.inlineCode, target.code_label k f, e.code_label k f]
    | expr l e => exact e.code_label k f
    | _ => rfl

lemma any_isWildcard_label (ps : List Pattern) : (labelPatterns f ps).any (·.isWildcard) = ps.any (·.isWildcard) := by
  induction ps with
  | nil => rfl
  | cons p ps ih =>
    cases p with
    | wildcard l => rfl
    | value l e => exact ih

lemma tests_label (subject : String) (ps : List Pattern) :
    (labelPatterns f ps).filterMap (·.test? k subject) = ps.filterMap (·.test? k subject) := by
  induction ps with
  | nil => rfl
  | cons p ps ih =>
    cases p with
    | wildcard l => exact ih
    | value l e =>
      have hhead : (Pattern.value l (e.label f)).test? k subject = (Pattern.value l e).test? k subject := by
        rw [Pattern.test?, Pattern.test?, e.operand_label]
      rw [labelPatterns, filterMap_cons, filterMap_cons, hhead, ih]

lemma isEmpty_labelArms (as : List Arm) : (labelArms f as).isEmpty = as.isEmpty := by
  rcases as with _ | ⟨⟨patterns, body⟩, as⟩ <;> rfl

end Values

def Line.text? : Line → Option String
  | .blank => none
  | .code _ text => some text

/-- Handlers, each with the place of the value that it is for. -/
abbrev Handlers := Multiset (Location × List Stmt)

/-- The lines on the right are those on the left with labels. For each of the handlers one label stands at the head of a
block that is guarded by a value and holds the lines of the handler. -/
inductive Labelled (k : Scene) (f : Location → String) : Handlers → List Line → List Line → Prop
  | nil : Labelled k f 0 [] []
  | line {xs ls ls'} (l : Line) (h : Labelled k f xs ls ls') : Labelled k f xs (l :: ls) (l :: ls')
  | guard {xs ys body' ls ls' depth n handler} (l : Location) (value : String)
      (hbody : Labelled k f xs ((blockLines k (depth + 1) handler).run n).1 body') (h : Labelled k f ys ls ls') :
      Labelled k f ((l, handler) ::ₘ (xs + ys))
      (.code depth s!"if (!({value})) \x7b" ::
      (((blockLines k (depth + 1) handler).run n).1 ++ .code depth "\x7d" :: ls))
      (.code depth s!"if (!({value})) \x7b" :: .code (depth + 1) (f l) :: (body' ++ .code depth "\x7d" :: ls'))

namespace Labelled

variable {k : Scene} {f : Location → String} {xs ys : Handlers} {ls ls' rs rs' : List Line}

lemma append (h : Labelled k f xs ls ls') (h' : Labelled k f ys rs rs') :
    Labelled k f (xs + ys) (ls ++ rs) (ls' ++ rs') := by
  induction h with
  | nil => simpa using h'
  | line l h ih => exact .line l ih
  | guard l value hbody h ihbody ih =>
    have hg := guard l value hbody ih
    simpa [add_assoc] using hg

lemma refl (ls : List Line) : Labelled k f 0 ls ls := by
  induction ls with
  | nil => exact .nil
  | cons l ls ih => exact .line l ih

variable (h : Labelled k f xs ls ls')

include h

lemma prepend (before : List Line) : Labelled k f xs (before ++ ls) (before ++ ls') := by
  simpa using (refl before).append h

lemma between (before after : List Line) : Labelled k f xs (before ++ ls ++ after) (before ++ ls' ++ after) := by
  simpa using (h.prepend before).append (refl after)

lemma isEmpty_eq : ls'.isEmpty = ls.isEmpty := by
  cases h <;> rfl

lemma count_texts (text : String) : (ls'.filterMap Line.text?).count text =
      (ls.filterMap Line.text?).count text + (xs.map fun x => f x.1).count text := by
  induction h with
  | nil => rfl
  | line l h ih =>
    cases l with
    | blank => exact ih
    | code depth t =>
      simp only [filterMap_cons, Line.text?, count_cons, ih]
      omega
  | guard l value hbody h ihbody ih =>
    have hlabel : (if f l == text then 1 else 0) = if text = f l then 1 else 0 := by
      simp only [beq_iff_eq, eq_comm (a := text)]
    simp only [filterMap_cons, Line.text?, filterMap_append, count_cons, count_append, ihbody, ih,
      Multiset.map_cons, Multiset.map_add, Multiset.count_cons, Multiset.count_add, hlabel]
    omega

end Labelled

/-- Two computations go in step. What is counted is kept: the handlers of the step and those that are left in the state
before are those of the results and those that are left behind. -/
def InStep {σ α β : Type} (T : Handlers → σ → σ → Prop) (R : Handlers → α → β → Prop) (xs : Handlers)
    (m : StateM σ α) (m' : StateM σ β) : Prop :=
  ∀ zs s s', T zs s s' → ∃ ys zs', R ys (m.run s).1 (m'.run s').1 ∧ T zs' (m.run s).2 (m'.run s').2 ∧ ys + zs' = zs + xs

namespace InStep

variable {σ α β α' β' γ γ' : Type} {T : Handlers → σ → σ → Prop} {R : Handlers → α → β → Prop}
  {R' : Handlers → α' → β' → Prop} {S : Handlers → γ → γ' → Prop} {xs ys : Handlers} {m : StateM σ α} {m' : StateM σ β}
  {r : StateM σ α'} {r' : StateM σ β'} {g : α → γ} {g' : β → γ'}

lemma pure {a : α} {b : β} (h : R xs a b) : InStep T R xs (Pure.pure a) (Pure.pure b) :=
  fun zs _ _ hT => ⟨xs, zs, h, hT, add_comm xs zs⟩

variable (hm : InStep T R xs m m')

include hm

lemma bind {g : α → StateM σ γ} {g' : β → StateM σ γ'}
    (hg : ∀ zs a b, R zs a b → InStep T S (zs + ys) (g a) (g' b)) : InStep T S (xs + ys) (m >>= g) (m' >>= g') := by
  intro zs s s' hT
  obtain ⟨ws, zs', hR, hT', hsum⟩ := hm zs s s' hT
  obtain ⟨us, vs, hS, hT'', hsum'⟩ := hg ws _ _ hR zs' _ _ hT'
  refine ⟨us, vs, hS, hT'', hsum'.trans ?_⟩
  rw [← add_assoc, add_comm zs' ws, hsum, add_assoc]

lemma map (hg : ∀ zs a b, R zs a b → S zs (g a) (g' b)) :
    InStep T S xs (m >>= fun a => Pure.pure (g a)) (m' >>= fun b => Pure.pure (g' b)) := by
  intro zs s s' hT
  obtain ⟨ws, zs', hR, hT', hsum⟩ := hm zs s s' hT
  exact ⟨ws, zs', hg _ _ _ hR, hT', hsum⟩

lemma map_add {zs} (hg : ∀ ws a b, R ws a b → S (zs + ws) (g a) (g' b)) :
    InStep T S (zs + xs) (m >>= fun a => Pure.pure (g a)) (m' >>= fun b => Pure.pure (g' b)) := by
  intro us s s' hT
  obtain ⟨ws, vs, hR, hT', hsum⟩ := hm us s s' hT
  refine ⟨zs + ws, vs, hg _ _ _ hR, hT', ?_⟩
  rw [add_assoc, hsum, add_left_comm]

lemma map₂ {g : α → α' → γ} {g' : β → β' → γ'} (hr : InStep T R' ys r r')
    (hg : ∀ zs ws a b c d, R zs a b → R' ws c d → S (zs + ws) (g a c) (g' b d)) :
    InStep T S (xs + ys) (m >>= fun a => r >>= fun c => Pure.pure (g a c))
      (m' >>= fun b => r' >>= fun d => Pure.pure (g' b d)) := by
  exact hm.bind fun zs a b hab => hr.map_add fun ws c d hcd => hg zs ws a b c d hab hcd

lemma and_then {g : α → StateM σ γ} {g' : β → StateM σ γ'}
    (hg : ∀ zs a b, R zs a b → InStep T S zs (g a) (g' b)) : InStep T S xs (m >>= g) (m' >>= g') := by
  have h : InStep T S (xs + 0) (m >>= g) (m' >>= g') := hm.bind fun zs a b hab => by simpa using hg zs a b hab
  rwa [add_zero] at h

end InStep

/-- The two are the same, and there are no handlers. -/
def Same {α : Type} (xs : Handlers) (a b : α) : Prop := xs = 0 ∧ a = b

lemma InStep.after {σ α γ γ' : Type} {T : Handlers → σ → σ → Prop} {S : Handlers → γ → γ' → Prop} {xs}
    {m m' : StateM σ α} {g : α → StateM σ γ} {g' : α → StateM σ γ'} (hm : InStep T Same 0 m m')
    (hg : ∀ a, InStep T S xs (g a) (g' a)) : InStep T S xs (m >>= g) (m' >>= g') := by
  have h : InStep T S (0 + xs) (m >>= g) (m' >>= g') := hm.bind fun zs a b hab => by
    obtain ⟨rfl, rfl⟩ := hab
    simpa using hg a
  rwa [zero_add] at h

/-- The lines of the two are in step up to labels. The state only counts temporary names. -/
abbrev LabelsIn (k : Scene) (f : Location → String) (xs : List (Location × List Stmt))
    (m m' : StateM Nat (List Line)) : Prop :=
  InStep Same (Labelled k f) xs m m'

namespace LabelsIn

variable {k : Scene} {f : Location → String} {xs ys : List (Location × List Stmt)} {m m' r r' : StateM Nat (List Line)}

lemma lines (ls : List Line) : LabelsIn k f [] (pure ls) (pure ls) := .pure (.refl ls)

lemma after {α : Type} (m : StateM Nat α) {g g' : α → StateM Nat (List Line)}
    (h : ∀ a, LabelsIn k f xs (g a) (g' a)) : LabelsIn k f xs (m >>= g) (m >>= g') := by
  have hm : InStep Same Same 0 m m := by
    rintro _ n _ ⟨rfl, rfl⟩
    exact ⟨0, 0, ⟨rfl, rfl⟩, ⟨rfl, rfl⟩, rfl⟩
  exact hm.after h

lemma join {g g' : List Line → List Line → List Line} (hm : LabelsIn k f xs m m') (hr : LabelsIn k f ys r r')
    (hg : ∀ zs ws ls ls' rs rs', Labelled k f zs ls ls' → Labelled k f ws rs rs' →
      Labelled k f (zs + ws) (g ls rs) (g' ls' rs')) :
    LabelsIn k f (xs ++ ys) (m >>= fun ls => r >>= fun rs => pure (g ls rs))
      (m' >>= fun ls => r' >>= fun rs => pure (g' ls rs)) :=
  InStep.map₂ hm hr hg

lemma guard {depth : Nat} {handler} (l : Location) (value : String)
    (h : LabelsIn k f (blockHandlers k handler) (blockLines k (depth + 1) handler)
      (blockLines k (depth + 1) (labelBlock f handler))) : LabelsIn k f ((l, handler) :: blockHandlers k handler) (do
        let body ← blockLines k (depth + 1) handler
        return .code depth s!"if (!({value})) \x7b" :: body ++ [.code depth "\x7d"]) (do
        let body ← blockLines k (depth + 1) (.native l (f l) :: labelBlock f handler)
        return .code depth s!"if (!({value})) \x7b" :: body ++ [.code depth "\x7d"]) := by
  rintro zs n n' ⟨rfl, rfl⟩
  obtain ⟨ys, zs', hbody, ⟨rfl, hn⟩, hsum⟩ := h 0 n n ⟨rfl, rfl⟩
  refine ⟨(l, handler) ::ₘ (ys + 0), 0, .guard l value hbody .nil, ⟨rfl, hn⟩, ?_⟩
  rw [add_zero, zero_add] at hsum
  rw [add_zero, add_zero, zero_add, hsum]
  rfl

end LabelsIn

section Statements

variable (k : Scene) (f : Location → String)

mutual

lemma Stmt.labelsIn_lines (depth : Nat) :
    ∀ s : Stmt, LabelsIn k f ((stmt s).writtenHandlers k) (s.lines k depth) ((s.label f).lines k depth)
  | .var l ⟨qualifier, type, name, initializer, range, symbol⟩ => by
    have ih := labelsIn_guardLines? depth name.text initializer
    have hcode := VarDecl.code_label (k := k) (f := f) ⟨qualifier, type, name, initializer, range, symbol⟩
    rw [VarDecl.label] at hcode
    rw [writtenHandlers_varStmt, writtenHandlers_var, Stmt.label, VarDecl.label, Stmt.lines, Stmt.lines, hcode]
    cases symbol.bind k.plan.instance? with
    | some i => exact .lines _
    | none => exact ih.map fun _ _ _ h => .line _ h
  | .assign l target e => by
    have ih := e.labelsIn_guardLines depth (target.code k)
    rw [writtenHandlers_assign, Stmt.label, Stmt.lines, Stmt.lines, target.code_label, e.code_label]
    exact ih.map fun _ _ _ h => .line _ h
  | .expr l e => by
    have ih := e.labelsIn_guardLines depth (e.code k)
    rw [writtenHandlers_exprStmt, Stmt.label, Stmt.lines, Stmt.lines, e.code_label, e.isSome_handler?_label]
    split
    · exact ih
    · have hnone : e.handler? = none := by simpa using ‹¬ e.handler?.isSome›
      rw [writtenHandlers_of_handler? hnone]
      exact .lines _
  | .cond l branches otherwise => by
    rw [writtenHandlers_cond, Stmt.label, Stmt.lines, Stmt.lines]
    exact (labelsIn_branchLines depth true branches).join (labelsIn_otherwiseLines depth otherwise)
      fun _ _ _ _ _ _ h h' => (h.append h').between [] [_]
  | .whileLoop l e body => by
    rw [writtenHandlers_whileLoop, Stmt.label, Stmt.lines, Stmt.lines, e.code_label]
    exact (labelsIn_blockLines (depth + 1) body).map fun _ _ _ h => h.between [_] [_]
  | .forLoop l init e update body => by
    rw [writtenHandlers_forLoop, Stmt.label, Stmt.lines, Stmt.lines, code?_label, inlineCode?_label, inlineCode?_label]
    exact (labelsIn_blockLines (depth + 1) body).map fun _ _ _ h => h.between [_] [_]
  | .repeatLoop l e body => by
    rw [writtenHandlers_repeatLoop, Stmt.label, Stmt.lines, Stmt.lines, e.operand_label]
    exact .after _ fun counter => (labelsIn_blockLines (depth + 1) body).map fun _ _ _ h => h.between [_] [_]
  | .choose l e arms => by
    have harms : ((armHandlers k false arms : List _) : Handlers) = armHandlers k true arms + wildcardHandlers k arms :=
      Multiset.coe_eq_coe.mpr (armHandlers_perm arms).symm
    have ih (subject : String) (store close : List Line) : LabelsIn k f (armHandlers k false arms)
        (do
          let tests ← armLines k depth subject true arms
          let otherwise ← wildcardLines k depth (if tests.isEmpty then "\x7b" else "\x7d else \x7b") arms
          return store ++ tests ++ otherwise ++ close)
        (do
          let tests ← armLines k depth subject true (labelArms f arms)
          let otherwise ← wildcardLines k depth (if tests.isEmpty then "\x7b" else "\x7d else \x7b") (labelArms f arms)
          return store ++ tests ++ otherwise ++ close) := by
      rw [LabelsIn, harms]
      refine (labelsIn_armLines depth subject true arms).bind fun zs tests tests' htests => ?_
      rw [htests.isEmpty_eq]
      refine (labelsIn_wildcardLines depth _ arms).map_add fun ws otherwise otherwise' hother => ?_
      simpa using (htests.append hother).between store close
    rw [writtenHandlers_choose, Stmt.label, Stmt.lines, Stmt.lines, e.isRepeatable_label, e.code_label,
      isEmpty_labelArms]
    split
    · exact ih _ _ _
    · exact .after _ fun name => ih name _ _
  | .switch l e cases otherwise => by
    rw [writtenHandlers_switch, Stmt.label, Stmt.lines, Stmt.lines, e.code_label]
    exact (labelsIn_caseLines depth cases).join (labelsIn_defaultLines depth otherwise)
      fun _ _ _ _ _ _ h h' => (h.append h').between [_] [_]
  | .atomic l body => by
    rw [writtenHandlers_atomic, Stmt.label, Stmt.lines, Stmt.lines]
    exact (labelsIn_blockLines (depth + 1) body).map fun _ _ _ h => h.between [_, _] [_, _]
  | .emit l r => by
    rw [writtenHandlers_of_false rfl fun _ _ _ => rfl]
    exact .lines _
  | .ret l e => by
    rw [writtenHandlers_of_false rfl fun _ _ _ => rfl]
    cases e with
    | none => exact .lines _
    | some e =>
      rw [Stmt.label, labelExpr?, Stmt.lines, Stmt.lines, e.code_label]
      exact .lines _
  | .breakLoop l => by
    rw [writtenHandlers_of_false rfl fun _ _ _ => rfl]
    exact .lines _
  | .continueLoop l => by
    rw [writtenHandlers_of_false rfl fun _ _ _ => rfl]
    exact .lines _
  | .native l text => by
    rw [writtenHandlers_of_false rfl fun _ _ _ => rfl]
    exact .lines _

lemma labelsIn_blockLines (depth : Nat) :
    ∀ body : List Stmt, LabelsIn k f (blockHandlers k body) (blockLines k depth body)
      (blockLines k depth (labelBlock f body))
  | [] => .lines _
  | s :: ss => by
    rw [labelBlock, blockLines, blockLines]
    exact (s.labelsIn_lines depth).join (labelsIn_blockLines depth ss) fun _ _ _ _ _ _ h h' => h.append h'

lemma Expr.labelsIn_guardLines (depth : Nat) (value : String) (e : Expr) :
    LabelsIn k f ((expr e).writtenHandlers k) (e.guardLines k depth value) ((e.label f).guardLines k depth value) := by
  match e with
  | .guarded l v handler =>
    rw [writtenHandlers_guarded]
    exact .guard l value (labelsIn_blockLines (depth + 1) handler)
  | .clamp _ e _ _ =>
    cases e with
    | guarded l _ handler =>
      rw [writtenHandlers_clamp]
      exact .guard l value (labelsIn_blockLines (depth + 1) handler)
    | _ =>
      rw [writtenHandlers_of_handler? rfl]
      exact .lines _
  | .literal .. | .name .. | .self _ | .binary .. | .unary .. | .call .. | .member .. | .new .. | .array ..
  | .subscript .. | .convert .. | .struct .. =>
    rw [writtenHandlers_of_handler? rfl]
    exact .lines _

lemma labelsIn_guardLines? (depth : Nat) (value : String) :
    ∀ e : Option Expr, LabelsIn k f (e.toList.flatMap fun e => (expr e).writtenHandlers k) (guardLines? k depth value e)
      (guardLines? k depth value (labelExpr? f e))
  | none => .lines _
  | some e => by
    have ih := e.labelsIn_guardLines depth value
    rw [labelExpr?, guardLines?, guardLines?, Option.toList_some, flatMap_singleton]
    exact ih

lemma labelsIn_branchLines (depth : Nat) (first : Bool) :
    ∀ bs : List Branch, LabelsIn k f (bs.flatMap fun b => blockHandlers k b.body) (branchLines k depth first bs)
      (branchLines k depth first (labelBranches f bs))
  | [] => .lines _
  | ⟨e, body⟩ :: bs => by
    rw [labelBranches, branchLines, branchLines, e.code_label]
    exact (labelsIn_blockLines (depth + 1) body).join (labelsIn_branchLines depth false bs)
      fun _ _ _ _ _ _ h h' => .line _ (h.append h')

lemma labelsIn_otherwiseLines (depth : Nat) :
    ∀ body : Option (List Stmt), LabelsIn k f (body.toList.flatMap (blockHandlers k)) (otherwiseLines k depth body)
      (otherwiseLines k depth (labelBlock? f body))
  | none => .lines _
  | some body => by
    have ih := labelsIn_blockLines (depth + 1) body
    rw [labelBlock?, otherwiseLines, otherwiseLines, Option.toList_some, flatMap_singleton]
    exact ih.map fun _ _ _ h => .line _ h

lemma labelsIn_armLines (depth : Nat) (subject : String) (first : Bool) :
    ∀ as : List Arm, LabelsIn k f (armHandlers k true as) (armLines k depth subject first as)
      (armLines k depth subject first (labelArms f as))
  | [] => .lines _
  | ⟨patterns, body⟩ :: as => by
    rw [labelArms, armLines, armLines, any_isWildcard_label, tests_label, armHandlers, Bool.and_true, Bool.true_or]
    have ih := labelsIn_blockLines (depth + 1) body
    split
    · exact labelsIn_armLines depth subject first as
    · exact ih.join (labelsIn_armLines depth subject false as) fun _ _ _ _ _ _ h h' => .line _ (h.append h')

lemma labelsIn_wildcardLines (depth : Nat) (opening : String) :
    ∀ as : List Arm, LabelsIn k f (wildcardHandlers k as) (wildcardLines k depth opening as)
      (wildcardLines k depth opening (labelArms f as))
  | [] => .lines _
  | ⟨patterns, body⟩ :: as => by
    rw [labelArms, wildcardLines, wildcardLines, any_isWildcard_label, wildcardHandlers]
    have ih := labelsIn_blockLines (depth + 1) body
    split
    · exact ih.map fun _ _ _ h => .line _ h
    · exact labelsIn_wildcardLines depth opening as

lemma labelsIn_caseLines (depth : Nat) :
    ∀ bs : List Branch, LabelsIn k f (bs.flatMap fun b => blockHandlers k b.body) (caseLines k depth bs)
      (caseLines k depth (labelBranches f bs))
  | [] => .lines _
  | ⟨e, body⟩ :: bs => by
    rw [labelBranches, caseLines, caseLines, e.code_label]
    exact (labelsIn_blockLines (depth + 1) body).join (labelsIn_caseLines depth bs)
      fun _ _ _ _ _ _ h h' => (h.between [_] [_, _]).append h'

lemma labelsIn_defaultLines (depth : Nat) :
    ∀ body : Option (List Stmt), LabelsIn k f (body.toList.flatMap (blockHandlers k)) (defaultLines k depth body)
      (defaultLines k depth (labelBlock? f body))
  | none => .lines _
  | some body => by
    have ih := labelsIn_blockLines (depth + 1) body
    rw [labelBlock?, defaultLines, defaultLines, Option.toList_some, flatMap_singleton]
    exact ih.map fun _ _ _ h => h.between [_] [_, _]

end

end Statements

end SketchCompiler
