import SketchCompiler.Proofs.LegibleExprs

namespace SketchCompiler

variable {l : Location}

mutual

def TargetTree.bare : TargetTree → TargetTree
  | .operand text => .operand text
  | .paren inner => inner.bare
  | .signed sign t => .signed sign t.bare
  | .cast type t => .cast type t.bare
  | .binary left op right => .binary left.bare op right.bare
  | .call callee args => .call callee.bare (bareTrees args)
  | .member object name => .member object.bare name
  | .subscript array index => .subscript array.bare index.bare

def bareTrees : List TargetTree → List TargetTree
  | [] => []
  | t :: ts => t.bare :: bareTrees ts

end

def UnOp.sign : UnOp → TargetSign
  | negate => .minus
  | not => .bang

mutual

def Expr.target (k : Scene) : Expr → TargetTree
  | .literal _ v => .operand v.code
  | .name _ r => .operand (k.reference r)
  | .binary _ a op b => .binary (a.target k) op (b.target k)
  | .unary _ op e => .signed op.sign (e.target k)
  | .call _ callee args => .call (k.calleeTree callee (callee.target k)) (exprTargets k args)
  | .member l object name symbol =>
    if k.isQualified object symbol then .operand ((Expr.member l object name symbol).code k)
    else .member (object.target k) name.text
  | .subscript _ a i => .subscript (a.target k) (i.target k)
  | .convert _ e type =>
    if type.value.code = "String" then .call (.operand "String") [e.target k] else .cast type.value.code (e.target k)
  | e => .operand (e.code k)

def exprTargets (k : Scene) : List Expr → List TargetTree
  | [] => []
  | e :: es => e.target k :: exprTargets k es

end

namespace Expr

def isNegation : Expr → Bool
  | unary _ .negate _ => true
  | _ => false

/-- The code of the expression begins with a sign or a cast. -/
def isPrefixed : Expr → Bool
  | unary .. => true
  | convert _ _ type => type.value.code ≠ "String"
  | _ => false

def isNumeral : Expr → Bool
  | literal _ v => (TargetTree.operand v.code).isNumeral
  | _ => false

end Expr

mutual

/-- No minus sign meets another one, no sign and no cast stands where only its operand is called, subscripted or asked
for a member, and no number has a member. -/
def Expr.faithful : Expr → Bool
  | .binary _ a _ b => a.faithful && b.faithful
  | .unary _ op e => e.faithful && !(op = .negate && e.isNegation)
  | .call _ callee args => callee.faithful && !callee.isPrefixed && faithfulExprs args
  | .member _ object _ _ => object.faithful && !object.isPrefixed && !object.isNumeral
  | .subscript _ a i => a.faithful && !a.isPrefixed && i.faithful
  | .convert _ e _ => e.faithful
  | _ => true

def faithfulExprs : List Expr → Bool
  | [] => true
  | e :: es => e.faithful && faithfulExprs es

end

attribute [local simp] TargetTree.bare Expr.target Expr.faithful

lemma mergeSigns_cons (op : UnOp) (ops : List UnOp) : ∃ sign signs, mergeSigns (op :: ops) = sign :: signs := by
  unfold mergeSigns
  split <;> simp_all

lemma mergeSigns_cons_of_apart {op : UnOp} {ops : List UnOp} (h : op = .negate → ops.head? ≠ some .negate) :
    mergeSigns (op :: ops) = op.sign :: mergeSigns ops := by
  cases op with
  | not => rfl
  | negate =>
    refine mergeSigns.eq_2 ops fun ops' hops => ?_
    subst hops
    exact h rfl rfl

def TargetTree.isPrefixed : TargetTree → Bool
  | .signed .. | .cast .. => true
  | _ => false

namespace TargetForm

def Plain (f : TargetForm) : Prop := f.signs = [] ∧ f.type = none

variable {f : TargetForm}

lemma Plain.tree (h : f.Plain) : f.tree = f.core := by
  rw [TargetForm.tree, h.1, cast, h.2]
  rfl

lemma isPrefixed_bare_tree (h : ¬ f.Plain) : f.tree.bare.isPrefixed := by
  cases hs : f.signs with
  | cons op ops =>
    obtain ⟨sign, signs, hm⟩ := mergeSigns_cons op ops
    rw [tree, hs, hm]
    rfl
  | nil =>
    cases ht : f.type with
    | none => exact absurd ⟨hs, ht⟩ h
    | some type =>
      rw [tree, hs, cast, ht]
      rfl

end TargetForm

lemma TargetTree.bare_dot_of_numeral {t : TargetTree} (h : t.isNumeral) (name : String) :
    ∃ text, (t.dot name).bare = .operand text := by
  cases t with
  | operand x => exact ⟨x ++ "." ++ name, by simp [dot, h]⟩
  | _ => cases h

namespace Expr

variable {k : Scene} {e : Expr}

lemma tree_binary {a b : Expr} {op} : ((binary l a op b).form k).tree =
    .binary (a.wrapForm (a.form k)).tree op (b.wrapForm (b.form k)).tree := rfl

lemma bare_tree_wrapForm (e : Expr) (f : TargetForm) : (e.wrapForm f).tree.bare = f.tree.bare := by
  unfold wrapForm
  split <;> rfl

section Forms

variable {o : Expr} {name : Name} {symbol : Option SymbolId} {type : Located TypeName}

lemma form_qualified (hq : k.isQualified o symbol) :
    (member l o name symbol).form k = { core := .operand ((member l o name symbol).code k) } := by
  rw [form, if_pos hq]

lemma form_member (hq : k.isQualified o symbol = false) : (member l o name symbol).form k =
    { o.wrapForm (o.form k) with core := (o.wrapForm (o.form k)).core.dot name.text } := by
  rw [form, if_neg (by simp [hq])]

lemma form_string (ht : type.value.code = "String") :
    (convert l e type).form k = { core := .call (.operand "String") [(e.form k).tree] } := by
  rw [form, if_pos ht]

lemma form_cast (ht : type.value.code ≠ "String") :
    (convert l e type).form k = { type := some type.value.code, core := .paren (e.form k).tree } := by
  rw [form, if_neg ht]

end Forms

section Operands

lemma Legible.plain (h : Legible k e) (hf : e.faithful) (hp : e.isPrefixed = false) :
    (e.wrapForm (e.form k)).Plain := by
  induction h with
  | number | bool | str | name | binary => exact ⟨rfl, rfl⟩
  | unary => cases hp
  | call _ _ _ ih _ =>
    simp only [faithful, Bool.and_eq_true, Bool.not_eq_true'] at hf
    exact ih hf.1.1 hf.1.2
  | subscript _ _ ih _ =>
    simp only [faithful, Bool.and_eq_true, Bool.not_eq_true'] at hf
    exact ih hf.1.1 hf.1.2
  | qualified hq _ _ =>
    rw [form_qualified hq]
    exact ⟨rfl, rfl⟩
  | member _ hq _ ih =>
    simp only [faithful, Bool.and_eq_true, Bool.not_eq_true'] at hf
    rw [form_member hq]
    exact ih hf.1.1 hf.1.2
  | @convert l e type _ _ _ =>
    have ht : type.value.code = "String" := by simpa [isPrefixed] using hp
    rw [form_string ht]
    exact ⟨rfl, rfl⟩

lemma isPrefixed_of_plain (h : (e.wrapForm (e.form k)).Plain) : e.isPrefixed = false := by
  cases e with
  | unary l op x => cases h.1
  | convert l x type =>
    by_contra hp
    have ht : type.value.code ≠ "String" := by simpa [isPrefixed] using hp
    rw [form_cast ht] at h
    cases h.2
  | _ => rfl

lemma Legible.head?_signs (h : Legible k e) (hf : e.faithful) :
    (e.wrapForm (e.form k)).signs.head? = some .negate ↔ e.isNegation := by
  by_cases hp : e.isPrefixed
  · cases h with
    | @unary l op x _ => cases op <;> simp [wrapForm, isBinary, form, isNegation]
    | @convert l x type _ _ =>
      have ht : type.value.code ≠ "String" := by simpa [isPrefixed] using hp
      rw [form_cast ht]
      simp [wrapForm, isBinary, isNegation]
    | _ => cases hp
  · have hsigns := (h.plain hf (by simpa using hp)).1
    rw [hsigns]
    cases e with
    | unary => exact absurd rfl hp
    | _ => simp [isNegation]

lemma Legible.isNumeral_core (h : Legible k e) (hf : e.faithful) (hp : e.isPrefixed = false) :
    (e.wrapForm (e.form k)).core.isNumeral = e.isNumeral := by
  induction h with
  | number | bool | str => rfl
  | name _ hr => exact TargetReader.isNumeral_path hr
  | binary | call | subscript => rfl
  | unary => cases hp
  | qualified hq _ hr =>
    rw [form_qualified hq]
    exact TargetReader.isNumeral_path hr
  | member _ hq _ ih =>
    simp only [faithful, Bool.and_eq_true, Bool.not_eq_true'] at hf
    have hn := (ih hf.1.1 hf.1.2).trans hf.2
    rw [form_member hq, wrapForm]
    simp only [isBinary, Bool.false_eq_true, if_false]
    rw [TargetTree.dot_of_not_numeral hn]
    rfl
  | @convert l e type _ _ _ =>
    have ht : type.value.code = "String" := by simpa [isPrefixed] using hp
    rw [form_string ht]
    rfl

end Operands

section Meaning

lemma faithful_of_isPath : ∀ {e : Expr}, e.isPath k → e.faithful
  | .name .., _ => rfl
  | .member l o field symbol, h => by
    simp only [isPath, Bool.and_eq_true] at h
    have hshape : o.isPrefixed = false ∧ o.isNumeral = false := by
      cases o with
      | name | member => exact ⟨rfl, rfl⟩
      | _ => cases h.2
    simp [faithful_of_isPath h.2, hshape]

/-- The code of the expression means what it says exactly if it is faithful. -/
def Means (k : Scene) (e : Expr) : Prop := (e.form k).tree.bare = e.target k ↔ e.faithful

lemma Means.operand (h : Means k e) : (e.wrapForm (e.form k)).tree.bare = e.target k ↔ e.faithful := by
  rw [bare_tree_wrapForm]
  exact h

lemma means_exprs {es} (h : ∀ e ∈ es, Means k e) :
    bareTrees (formTrees k es) = exprTargets k es ↔ faithfulExprs es := by
  induction es with
  | nil => simp [formTrees, bareTrees, exprTargets, faithfulExprs]
  | cons e es ih =>
    obtain ⟨he, hes⟩ := List.forall_mem_cons.mp h
    rw [formTrees, bareTrees, exprTargets, faithfulExprs, List.cons.injEq, Bool.and_eq_true]
    exact and_congr he (ih hes)

lemma Legible.means_extended {e' : Expr} {t : TargetTree} (h : Legible k e) (hm : Means k e)
    (hform : e'.form k = { e.wrapForm (e.form k) with core := t }) (ht : (e'.target k).isPrefixed = false)
    (hplain : (e.wrapForm (e.form k)).Plain → ((e.wrapForm (e.form k)).core.bare = e.target k ↔ e.faithful) →
      e.isPrefixed = false → (t.bare = e'.target k ↔ e'.faithful))
    (hfaithful : e'.faithful → e.faithful ∧ e.isPrefixed = false) : Means k e' := by
  unfold Means
  rw [hform]
  by_cases hp : (e.wrapForm (e.form k)).Plain
  · have hcore := hm.operand
    rw [hp.tree] at hcore
    rw [TargetForm.Plain.tree (f := { e.wrapForm (e.form k) with core := t }) hp]
    exact hplain hp hcore (isPrefixed_of_plain hp)
  · have hprefixed := TargetForm.isPrefixed_bare_tree (f := { e.wrapForm (e.form k) with core := t }) hp
    constructor
    · intro heq
      rw [heq, ht] at hprefixed
      cases hprefixed
    · intro hf
      obtain ⟨hf, hnot⟩ := hfaithful hf
      exact absurd (h.plain hf hnot) hp

lemma Means.binary {a b} {op} (ha : Means k a) (hb : Means k b) : Means k (.binary l a op b) := by
  unfold Means
  rw [tree_binary, TargetTree.bare, target, faithful, TargetTree.binary.injEq, Bool.and_eq_true]
  exact and_congr ha.operand ((and_iff_right rfl).trans hb.operand)

lemma Means.unary {op} (h : Legible k e) (hm : Means k e) : Means k (.unary l op e) := by
  have hform : ((Expr.unary l op e).form k).tree =
      (mergeSigns (op :: (e.wrapForm (e.form k)).signs)).foldr .signed (e.wrapForm (e.form k)).cast := rfl
  unfold Means
  rw [hform, faithful, Bool.and_eq_true, target]
  by_cases happart : op = .negate → (e.wrapForm (e.form k)).signs.head? ≠ some .negate
  · have htree : (mergeSigns (op :: (e.wrapForm (e.form k)).signs)).foldr .signed (e.wrapForm (e.form k)).cast =
        .signed op.sign (e.wrapForm (e.form k)).tree := by
      rw [mergeSigns_cons_of_apart happart]
      rfl
    rw [htree, TargetTree.bare, TargetTree.signed.injEq, and_iff_right rfl, hm.operand]
    refine ⟨fun hf => ⟨hf, ?_⟩, fun hf => hf.1⟩
    rw [ne_eq, h.head?_signs hf] at happart
    simpa [← imp_iff_not_or] using happart
  · -- The sign and the first one of the operand are one mark.
    obtain ⟨rfl, hhead⟩ := Classical.not_imp.mp happart
    rw [not_not] at hhead
    obtain ⟨ops, hops⟩ := List.head?_eq_some_iff.mp hhead
    rw [hops]
    refine iff_of_false (fun hsame => ?_) fun hf => ?_
    · cases hsame
    · simp [(h.head?_signs hf.1).mp hhead] at hf

lemma bare_builtin (name : String) : (Builtin.tree name).bare = Builtin.tree name := by
  unfold Builtin.tree
  split <;> rfl

lemma Means.call {c} {args} (hc : Legible k c) (hm : Means k c)
    (hargs : ∀ e ∈ args, Means k e) : Means k (.call l c args) := by
  refine hc.means_extended hm rfl rfl (fun hp hcore hnot => ?_) fun hf => ?_
  · rw [TargetTree.bare, target, faithful, TargetTree.call.injEq, Bool.and_eq_true, Bool.and_eq_true, hnot]
    refine and_congr ?_ (means_exprs hargs)
    by_cases hb : k.isBuiltin c
    · unfold Scene.isBuiltin at hb
      split at hb
      · simp [Scene.calleeTree, of_decide_eq_true hb, bare_builtin]
      · cases hb
    · have hb' : k.isBuiltin c = false := by simpa using hb
      rw [calleeTree_of_not_builtin hb', calleeTree_of_not_builtin hb']
      exact hcore.trans (and_iff_left rfl).symm
  · simp only [faithful, Bool.and_eq_true, Bool.not_eq_true'] at hf
    exact hf.1

lemma Means.subscript {a i} (ha : Legible k a) (hm : Means k a) (hi : Means k i) : Means k (.subscript l a i) := by
  refine ha.means_extended hm rfl rfl (fun hp hcore hnot => ?_) fun hf => ?_
  · rw [TargetTree.bare, target, faithful, TargetTree.subscript.injEq, Bool.and_eq_true, Bool.and_eq_true, hnot]
    exact and_congr (hcore.trans (and_iff_left rfl).symm) hi
  · simp only [faithful, Bool.and_eq_true, Bool.not_eq_true'] at hf
    exact hf.1

lemma Means.member {o} {name} {symbol} (ho : Legible k o)
    (hm : Means k o) (hq : k.isQualified o symbol = false) : Means k (.member l o name symbol) := by
  have htarget : (Expr.member l o name symbol).target k = .member (o.target k) name.text := by
    rw [target, if_neg (by simp [hq])]
  refine ho.means_extended hm (form_member hq) (by rw [htarget]; rfl) (fun hp hcore hnot => ?_) fun hf => ?_
  · rw [htarget, faithful, Bool.and_eq_true, Bool.and_eq_true]
    by_cases hn : (o.wrapForm (o.form k)).core.isNumeral
    · refine iff_of_false (fun hsame => ?_) fun hf => ?_
      · obtain ⟨text, htext⟩ := TargetTree.bare_dot_of_numeral hn name.text
        cases htext.symm.trans hsame
      · simp [← ho.isNumeral_core hf.1.1 hnot, hn] at hf
    · have hnumeral : o.isNumeral = false := by
        cases o with
        | literal l v => exact Bool.eq_false_iff.mpr hn
        | _ => rfl
      rw [TargetTree.dot_of_not_numeral (by simpa using hn), TargetTree.bare, TargetTree.member.injEq, hnumeral, hnot]
      simpa using hcore
  · simp only [faithful, Bool.and_eq_true, Bool.not_eq_true'] at hf
    exact hf.1

lemma Means.convert {type} (h : Means k e) : Means k (.convert l e type) := by
  unfold Means
  rw [target, faithful]
  by_cases ht : type.value.code = "String"
  · have htree : ((Expr.convert l e type).form k).tree.bare = .call (.operand "String") [(e.form k).tree.bare] := by
      rw [form_string ht]
      rfl
    rw [htree, if_pos ht, TargetTree.call.injEq, List.cons.injEq]
    exact ⟨fun hc => h.mp hc.2.1, fun hf => ⟨rfl, h.mpr hf, rfl⟩⟩
  · have htree : ((Expr.convert l e type).form k).tree.bare = .cast type.value.code (e.form k).tree.bare := by
      rw [form_cast ht]
      rfl
    rw [htree, if_neg ht, TargetTree.cast.injEq]
    exact (and_iff_right rfl).trans h

lemma Legible.means (h : Legible k e) : Means k e := by
  induction h with
  | number | bool | str | name => exact iff_of_true rfl rfl
  | binary _ _ iha ihb => exact iha.binary ihb
  | unary he ih => exact .unary he ih
  | call hc _ _ ihc ihargs => exact .call hc ihc ihargs
  | @qualified l o name symbol hq ho hp =>
    have htarget : (Expr.member l o name symbol).target k = .operand ((Expr.member l o name symbol).code k) := by
      rw [target, if_pos hq]
    unfold Means
    rw [form_qualified hq, htarget]
    exact iff_of_true rfl (faithful_of_isPath (k := k) (by simp [isPath, hq, ho]))
  | member ho hq _ iho => exact .member ho iho hq
  | subscript ha _ iha ihi => exact .subscript ha iha ihi
  | convert _ _ ih => exact ih.convert

end Meaning

end Expr

/-- The code of an expression that is read can be read in the target language, before and after names are resolved, and
it means what the expression says exactly if the expression is faithful. -/
theorem Program.Read.code_means_iff {p q : Program} {k : Scene} {e : Expr} (hp : p.Read)
    (hq : q = p ∨ p.resolveNames = (q, .ok k.table)) (he : .expr e ∈ (Node.unit q).nodes) (ho : e.operational k) :
    ∃ t, TargetTree.read? (e.code k) = some t ∧ (t.bare = e.target k ↔ e.faithful) := by
  have hlegible := hp.legible hq he ho
  exact ⟨(e.form k).tree, hlegible.read?_code, hlegible.means⟩

namespace Sample

def signsText : String := "fn f(int x) -> int { return -(-x) * -(x - 1) }"

def verdicts (k : Scene) (p : Program) : List (String × Bool × Bool) := (Node.unit p).nodes.filterMap fun
  | .expr e => some (e.code k, e.operational k, e.faithful)
  | _ => none

lemma exists_of_mem_verdicts {k} {p} {code} {faithful : Bool} (h : (code, true, faithful) ∈ verdicts k p) :
    ∃ e, .expr e ∈ (Node.unit p).nodes ∧ e.code k = code ∧ e.operational k ∧ e.faithful = faithful := by
  obtain ⟨n, hn, he⟩ := List.mem_filterMap.mp h
  split at he
  case h_1 e =>
    simp only [Option.some.injEq, Prod.mk.injEq] at he
    exact ⟨e, hn, he⟩
  case h_2 => cases he

/-- The code of the one is not read as what it says, and that of the other is. -/
theorem signs_meet : ∃ q e e', (ofText signsText).Read ∧
    (ofText signsText).resolveNames = (q, .ok (plainScene (ofText signsText)).table) ∧
    .expr e ∈ (Node.unit q).nodes ∧ e.code (plainScene (ofText signsText)) = "--x" ∧
    .expr e' ∈ (Node.unit q).nodes ∧ e'.code (plainScene (ofText signsText)) = "-(x - 1)" ∧
    (∃ t, TargetTree.read? "--x" = some t ∧ t.bare ≠ e.target (plainScene (ofText signsText))) ∧
    ∃ t, TargetTree.read? "-(x - 1)" = some t ∧ t.bare = e'.target (plainScene (ofText signsText)) := by
  have hall : passes signsText = true ∧
      ("--x", true, false) ∈ verdicts (plainScene (ofText signsText)) (ofText signsText).resolveNames.1 ∧
      ("-(x - 1)", true, true) ∈ verdicts (plainScene (ofText signsText)) (ofText signsText).resolveNames.1 := by
    decide +kernel
  obtain ⟨hpasses, hmeet, hapart⟩ := hall
  obtain ⟨hp, h, -⟩ := of_passes signsText hpasses
  rw [← plainScene_table] at h
  obtain ⟨e, he, hcode, hops, hnot⟩ := exists_of_mem_verdicts hmeet
  obtain ⟨e', he', hcode', hops', hfaithful⟩ := exists_of_mem_verdicts hapart
  obtain ⟨t, ht, hmeans⟩ := hp.code_means_iff (.inr h) he hops
  obtain ⟨t', ht', hmeans'⟩ := hp.code_means_iff (.inr h) he' hops'
  rw [hcode] at ht
  rw [hcode'] at ht'
  refine ⟨_, e, e', hp, h, he, hcode, he', hcode', ⟨t, ht, fun hsame => ?_⟩, t', ht', hmeans'.mpr hfaithful⟩
  cases hnot.symm.trans (hmeans.mp hsame)

end Sample

end SketchCompiler
