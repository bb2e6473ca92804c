import SketchCompiler.Proofs.Findings
import SketchCompiler.Proofs.Sample

namespace SketchCompiler

open List Node

variable {n : Node} (p : Program)

namespace SymbolTable

variable (t : SymbolTable) {object : Expr} {e : InterruptError}

def IsBuiltinObject (object : Expr) : Prop := ∃ l name id, object = .name l ⟨name, some id⟩ ∧ t.kind id = .builtin

/-- What an interrupt must not call, and how that is reported. -/
inductive ForbiddenCallee : Expr → InterruptError → Prop
  | blocking {l name id} (hk : t.kind id = .builtin) (hb : name.text ∈ Builtin.blocking) :
    ForbiddenCallee (.name l ⟨name, some id⟩) (.forbiddenCall name.text)
  | function {l name id} (hk : t.kind id = .function) :
    ForbiddenCallee (.name l ⟨name, some id⟩) (.functionCall (t.qualifiedName id "."))
  | builtinMember {l l' name id method symbol} (hk : t.kind id = .builtin) :
    ForbiddenCallee (.member l (.name l' ⟨name, some id⟩) method symbol)
      (.forbiddenCall (name.text ++ "." ++ method.text))
  | memberFunction {l object method id} (ho : ¬ t.IsBuiltinObject object) (hk : t.kind id = .function) :
    ForbiddenCallee (.member l object method (some id)) (.functionCall (t.qualifiedName id "."))
  | method {l object method id type} (ho : ¬ t.IsBuiltinObject object) (hi : object.instance? = some id)
      (ht : t.typeOf? id = some type) (hk : t.kind type = .classType) :
    ForbiddenCallee (.member l object method none) (.functionCall (t.qualifiedName type "." ++ "." ++ method.text))

lemma forbiddenMethod?_eq_some_iff {method} :
    t.forbiddenMethod? object method = some e ↔ ∃ id type, object.instance? = some id ∧ t.typeOf? id = some type ∧
      t.kind type = .classType ∧ e = .functionCall (t.qualifiedName type "." ++ "." ++ method) := by
  simp only [forbiddenMethod?, Option.bind_eq_bind, Option.bind_eq_some_iff, Option.ite_none_right_eq_some,
    Option.some.injEq]
  grind

lemma forbiddenMember?_eq_some_iff {l} {method : Name} {symbol}
    (ho : ¬ t.IsBuiltinObject object) : t.forbiddenMember? object method.text symbol = some e ↔ t.ForbiddenCallee
    (.member l object method symbol) e := by
  cases symbol with
  | none =>
    simp only [forbiddenMember?, forbiddenMethod?_eq_some_iff]
    constructor
    · rintro ⟨id, type, hi, ht, hk, rfl⟩
      exact .method ho hi ht hk
    · intro h
      cases h with
      | builtinMember hk => exact absurd ⟨_, _, _, rfl, hk⟩ ho
      | method _ hi ht hk => exact ⟨_, _, hi, ht, hk, rfl⟩
  | some id =>
    simp only [forbiddenMember?, Option.ite_none_right_eq_some, Option.some.injEq]
    constructor
    · rintro ⟨hk, rfl⟩
      exact .memberFunction ho hk
    · intro h
      cases h with
      | builtinMember hk => exact absurd ⟨_, _, _, rfl, hk⟩ ho
      | memberFunction _ hk => exact ⟨hk, rfl⟩

lemma forbiddenCall?_eq_some_iff {callee} : t.forbiddenCall? callee = some e ↔ t.ForbiddenCallee callee e := by
  -- The first five cases decide by the kind of a name; the next two leave the decision to the member.
  fun_cases forbiddenCall? t callee with
  | case1 l name id hk hb =>
    constructor
    · intro h
      cases h
      exact .blocking hk (contains_iff_mem.mp hb)
    · intro h
      cases h with
      | blocking => rfl
      | function hf => rw [hk] at hf; cases hf
  | case2 l name id hk hb =>
    refine ⟨nofun, fun h => ?_⟩
    cases h with
    | blocking _ hm => exact absurd (contains_iff_mem.mpr hm) hb
    | function hf => rw [hk] at hf; cases hf
  | case3 l name id hk hf =>
    constructor
    · intro h
      cases h
      exact .function hf
    · intro h
      cases h with
      | blocking hb => exact absurd hb hk
      | function => rfl
  | case4 l name id hk hf =>
    refine ⟨nofun, fun h => ?_⟩
    cases h with
    | blocking hb => exact absurd hb hk
    | function h => exact absurd h hf
  | case5 l l' name id method symbol hk =>
    have ho : t.IsBuiltinObject (.name l' ⟨name, some id⟩) := ⟨_, _, _, rfl, hk⟩
    constructor
    · intro h
      cases h
      exact .builtinMember hk
    · intro h
      cases h with
      | builtinMember => rfl
      | memberFunction h => exact absurd ho h
      | method h => exact absurd ho h
  | case6 l l' name id method symbol hk =>
    refine t.forbiddenMember?_eq_some_iff ?_
    rintro ⟨_, _, _, h, hb⟩
    cases h
    exact hk hb
  | case7 l object method symbol hn =>
    refine t.forbiddenMember?_eq_some_iff ?_
    rintro ⟨l', name, id, rfl, -⟩
    exact hn l' name id rfl
  | case8 callee hn hm ho =>
    refine ⟨nofun, fun h => ?_⟩
    cases h with
    | blocking => exact absurd rfl (hn _ _ _)
    | function => exact absurd rfl (hn _ _ _)
    | builtinMember => exact absurd rfl (hm _ _ _ _ _ _)
    | memberFunction => exact absurd rfl (ho _ _ _ _)
    | method => exact absurd rfl (ho _ _ _ _)

end SymbolTable

namespace Node

/-- What an interrupt must not do, and how that is reported: a loop at the loop, a call at what is called. -/
inductive Violation (t : SymbolTable) : Node → Located InterruptError → Prop
  | whileLoop {l e body} : Violation t (stmt (.whileLoop l e body)) ⟨.loop, l⟩
  | forLoop {l init e update body} : Violation t (stmt (.forLoop l init e update body)) ⟨.loop, l⟩
  | repeatLoop {l e body} : Violation t (stmt (.repeatLoop l e body)) ⟨.loop, l⟩
  | call {l callee args e} (h : t.ForbiddenCallee callee e) : Violation t (expr (.call l callee args)) ⟨e, callee.loc⟩

def violation? (t : SymbolTable) : Node → Option (Located InterruptError)
  | stmt (.whileLoop l ..) | stmt (.forLoop l ..) | stmt (.repeatLoop l ..) => some ⟨.loop, l⟩
  | expr (.call _ callee _) => (t.forbiddenCall? callee).map (⟨·, callee.loc⟩)
  | _ => none

lemma violation?_eq_some_iff {t} {e} : n.violation? t = some e ↔ Violation t n e := by
  fun_cases violation? t n with
  | case4 l callee args =>
    simp only [Option.map_eq_some_iff, SymbolTable.forbiddenCall?_eq_some_iff]
    constructor
    · rintro ⟨e, h, rfl⟩
      exact .call h
    · intro h
      cases h with
      | call h => exact ⟨_, h, rfl⟩
  | case5 n hw hf hr hc =>
    refine ⟨nofun, fun h => ?_⟩
    cases h with
    | whileLoop => exact absurd rfl (hw _ _ _)
    | forLoop => exact absurd rfl (hf _ _ _ _ _)
    | repeatLoop => exact absurd rfl (hr _ _ _)
    | call => exact absurd rfl (hc _ _ _)
  | _ =>
    constructor
    · rintro ⟨⟩
      constructor
    · rintro ⟨⟩
      rfl

end Node

def Finding.error? : Finding → Option (Located InterruptError)
  | error e => some e
  | volatile _ => none

namespace Node

variable (t : SymbolTable)

lemma filterMap_error?_finding (n : Node) : (n.finding t).filterMap Finding.error? = (n.violation? t).toList := by
  have hs (symbol : Option SymbolId) : (t.sharedUse symbol).filterMap Finding.error? = [] := by
    unfold SymbolTable.sharedUse
    split
    · split <;> rfl
    · rfl
  fun_cases finding t n with
  | case4 l r => exact hs _
  | case5 l object name symbol => exact hs _
  | case6 l callee args =>
    simp only [SymbolTable.callFindings, violation?]
    cases t.forbiddenCall? callee <;> rfl
  | case7 n hw hf hr _ _ hc =>
    unfold violation?
    split
    · exact absurd rfl (hw _ _ _)
    · exact absurd rfl (hf _ _ _ _ _)
    · exact absurd rfl (hr _ _ _)
    · exact absurd rfl (hc _ _ _)
    · rfl
  | _ => rfl

lemma filterMap_error?_block (body : List Stmt) :
    (blockFindings t body).filterMap Finding.error? = ((ofBlock body).flatMap nodes).filterMap (violation? t) := by
  rw [blockFindings_eq_nodes, filterMap_flatMap, filterMap_eq_flatMap_toList]
  exact flatMap_congr fun n _ => filterMap_error?_finding t n

lemma filterMap_error?_reactive (vars : List VarDecl) : (reactiveFindings vars).filterMap Finding.error? = [] := by
  rw [reactiveFindings, filterMap_filterMap]
  refine filterMap_eq_nil_iff.mpr fun d _ => ?_
  split
  · cases d.symbol <;> rfl
  · rfl

def outerFindings : Node → List Finding
  | unit p => p.findings t
  | item i => i.findings t
  | _ => []

lemma itemsFindings_eq (is : List Item) : itemsFindings t is = (is.map item).flatMap (outerFindings t) := by
  rw [flatMap_map]
  exact eq_flatMap rfl (fun _ _ => rfl) is

lemma outerFindings_of_isPlain {i : Item} (hi : isPlain i) : (item i).outerFindings t = reactiveFindings i.vars := by
  cases i <;> first | rfl | simp [isPlain] at hi

lemma outerFindings_of_isGroup (hn : n.isGroup) :
    n.outerFindings t = n.children.flatMap (outerFindings t) := by
  cases n with
  | unit p =>
    obtain ⟨_, _, items⟩ := p
    exact itemsFindings_eq t items
  | item i =>
    cases i with
    | module l aliasName path symbol program => simp [children, outerFindings, Item.findings]
    | _ => cases hn
  | _ => cases hn

lemma filterMap_error?_outer (n : Node) :
    (n.outerFindings t).filterMap Finding.error? = n.bodyNodes.filterMap (violation? t) := by
  induction n using outerInduct with
  | inner n hn =>
    rw [bodyNodes_of_isInner hn]
    cases n <;> simp_all [isInner, outerFindings]
  | plain i hi =>
    rw [outerFindings_of_isPlain t hi, filterMap_error?_reactive, bodyNodes_of_isPlain hi, filterMap_nil]
  | interrupt l d =>
    rw [bodyNodes_interrupt, ← filterMap_error?_block]
    rfl
  | group n hn ih =>
    rw [outerFindings_of_isGroup t hn, bodyNodes_eq (ne_interrupt_of_isGroup hn), filterMap_flatMap, filterMap_flatMap]
    exact flatMap_congr ih

end Node

namespace Program

/-- The node at a place in the body of an interrupt of the program or of a module that it loads. -/
def InterruptNodeAt (p : Program) (a : List Nat) (n : Node) : Prop := (unit p).at? a = some n ∧ (unit p).inBody a = true

def interruptErrors (p : Program) (t : SymbolTable) : List (Located InterruptError) :=
  match p.checkInterrupts t with
  | .ok _ => []
  | .error errors => errors

lemma checkInterrupts_eq (t : SymbolTable) :
    p.checkInterrupts t = match (p.findings t).filterMap Finding.error? with
      | [] => .ok (.ofFindings (p.findings t))
      | errors => .error errors := rfl

lemma interruptErrors_eq (t : SymbolTable) :
    p.interruptErrors t = (unit p).bodyNodes.filterMap (violation? t) := by
  rw [← filterMap_error?_outer, interruptErrors, checkInterrupts_eq, outerFindings]
  cases (p.findings t).filterMap Finding.error? <;> rfl

lemma checkInterrupts_isOk_iff (t : SymbolTable) :
    (∃ s, p.checkInterrupts t = .ok s) ↔ p.interruptErrors t = [] := by
  rw [interruptErrors, checkInterrupts_eq]
  cases (p.findings t).filterMap Finding.error? <;> simp

lemma forall₂_filterMap {α β γ : Type} {f : β → Option γ} {Q : α → β → Prop} {xs : List (α × β)}
    (h : ∀ x ∈ xs, Q x.1 x.2) : List.Forall₂ (fun a c => ∃ b, Q a b ∧ f b = some c)
      ((xs.filter fun x => (f x.2).isSome).map (·.1)) ((xs.map (·.2)).filterMap f) := by
  induction xs with
  | nil => exact .nil
  | cons x xs ih =>
    have hxs := ih fun y hy => h y (mem_cons_of_mem _ hy)
    cases hf : f x.2 with
    | none =>
      rw [filter_cons_of_neg (by simp [hf]), map_cons, filterMap_cons_none hf]
      exact hxs
    | some c =>
      have hx : ∃ b, Q x.1 b ∧ f b = some c := ⟨x.2, h x mem_cons_self, hf⟩
      rw [filter_cons_of_pos (by simp [hf]), map_cons, map_cons, filterMap_cons_some hf]
      exact .cons hx hxs

/-- The reported errors are the violations in interrupts, in the order of their places and each once; without a
violation the check succeeds. -/
theorem interruptErrors_are_violations (p : Program) (t : SymbolTable) :
    (∃ places : List (List Nat), places.Pairwise (· < ·) ∧
      (∀ a, a ∈ places ↔ ∃ n e, p.InterruptNodeAt a n ∧ n.Violation t e) ∧
      List.Forall₂ (fun a e => ∃ n, p.InterruptNodeAt a n ∧ n.Violation t e) places (p.interruptErrors t)) ∧
    ((∃ s, p.checkInterrupts t = .ok s) ↔ ∀ a n e, p.InterruptNodeAt a n → ¬ n.Violation t e) := by
  simp only [← Node.violation?_eq_some_iff]
  refine ⟨⟨((Node.unit p).bodyPlaces.filter fun x => (x.2.violation? t).isSome).map (·.1), ?_, ?_, ?_⟩, ?_⟩
  · exact pairwise_map.mpr ((Node.pairwise_bodyPlaces _).filter _)
  · intro a
    simp only [mem_map, mem_filter, Prod.exists, exists_and_right, exists_eq_right, Node.mem_bodyPlaces,
      Option.isSome_iff_exists, InterruptNodeAt, ← exists_and_left]
  · -- The errors are read off the same list of places that is filtered here.
    rw [interruptErrors_eq]
    exact forall₂_filterMap fun x hx => Node.mem_bodyPlaces.mp hx
  · rw [checkInterrupts_isOk_iff, interruptErrors_eq, filterMap_eq_nil_iff]
    simp only [Node.mem_bodyNodes]
    constructor
    · intro h a n e hn hv
      rw [h n ⟨a, hn⟩] at hv
      cases hv
    · rintro h n ⟨a, hn⟩
      exact Option.eq_none_iff_forall_not_mem.mpr fun e he => h a n e hn he

end Program

namespace Sample

/-- A default that is written above a case. -/
def defaultText : String := "interrupt on 2 rising {
    switch 1 {
        default { delay(1) }
        case 1 { delay(2) }
    }
}"

/-- The tree has the default behind the cases, and so have the errors. -/
theorem default_reported_behind_cases : ∃ q t, (ofText defaultText).resolveNames = (q, .ok t) ∧
    (q.interruptErrors t).map (fun e => (e.loc.line, e.value)) =
      [(4, .forbiddenCall "delay"), (3, .forbiddenCall "delay")] := by
  have hall : isResolved (ofText defaultText) ∧
      ((ofText defaultText).resolveNames.1.interruptErrors (tableOf (ofText defaultText))).map
        (fun e => (e.loc.line, e.value)) = [(4, .forbiddenCall "delay"), (3, .forbiddenCall "delay")] := by
    decide +kernel
  exact ⟨_, _, resolveNames_eq hall.1, hall.2⟩

end Sample

end SketchCompiler
