import Mathlib
import SketchCompiler.Proofs.InterruptErrors

namespace SketchCompiler

open List

variable {s : ScopeId} {callee : Expr}

/-- The value that the program gives to the alias `id`. -/
def Program.AliasOf (p : Program) (id : SymbolId) (value : Expr) : Prop :=
  ∃ a l name, (Node.unit p).at? a = some (.item (.aliasDecl l name value (some id)))

namespace SymbolTable

variable (t : SymbolTable)

/-- The type or module that a type's first name stands for in scope `s`. Variables do not hide types: a type is read
where its variable is declared, before any later variable of its name. -/
def typeNamed? (s : ScopeId) (name : String) : Option SymbolId :=
  (t.chain s).findSome? fun scope =>
    (scope.names.lookup name).filter fun id => (t.kind id).isType || t.kind id = .moduleAlias

def typePath? (s : ScopeId) : List String → Option SymbolId
  | [] => none
  | first :: path => do t.follow? (← t.typeNamed? s first) path

def isStored (id : SymbolId) : Bool :=
  match t.kind id with
  | .var | .constant | .param | .field => true
  | _ => false

/-- The declared type of an expression that is read in scope `s`, and whether it is an array of that type. -/
inductive HasType (s : ScopeId) : Expr → SymbolId → Bool → Prop
  | symbol {e id type declared} (he : e.symbol? = some id) (hs : t.isStored id) (hd : (t.get id).type = some declared)
      (ht : t.typePath? (t.get id).scope declared.path = some type) : HasType s e type declared.array
  | field {l object name owner members id type declared} (ho : HasType s object owner false)
      (hm : (t.get owner).members = some members) (hf : t.member? members name.text = some id) (hs : t.isStored id)
      (hd : (t.get id).type = some declared) (ht : t.typePath? (t.get id).scope declared.path = some type) :
      HasType s (.member l object name none) type declared.array
  | element {l array index type} (ha : HasType s array type true) : HasType s (.subscript l array index) type false
  | created {l declared args type} (ht : t.typePath? s declared.value.path = some type) :
      HasType s (.new l declared args) type declared.value.array

/-- What stands for a function, a task or a builtin that waits. -/
inductive DenotesCode (p : Program) : Expr → Prop
  | function {e id} (he : e.symbol? = some id) (hk : t.kind id = .function) : DenotesCode p e
  | task {e id} (he : e.symbol? = some id) (hk : t.kind id = .task) : DenotesCode p e
  | blocking {l name id} (hk : t.kind id = .builtin) (hb : name.text ∈ Builtin.blocking) :
      DenotesCode p (.name l ⟨name, some id⟩)
  | aliased {e id value} (he : e.symbol? = some id) (hk : t.kind id = .constant) (ha : p.AliasOf id value)
      (hv : DenotesCode p value) : DenotesCode p e

/-- Calling the expression runs code of the program or waits. -/
inductive RunsCode (p : Program) (s : ScopeId) : Expr → Prop
  | denoted {callee : Expr} (h : t.DenotesCode p callee) : RunsCode p s callee
  | method {l object name type} (ho : t.HasType s object type false) (hk : t.kind type = .classType) :
      RunsCode p s (.member l object name none)

/-- The class that the check looks up for an object. -/
def SeenClass (object : Expr) : Prop :=
  ∃ id type, object.instance? = some id ∧ t.typeOf? id = some type ∧ t.kind type = .classType

/-- The objects whose class the check does not look up: new objects, fields, elements of those, and variables whose
type has the name of a later variable of their scope. -/
inductive Unseen : Expr → Prop
  | created {l type args} : Unseen (.new l type args)
  | field {l object name} : Unseen (.member l object name none)
  | element {l array index} (h : Unseen array) : Unseen (.subscript l array index)
  | hidden {e id} (he : e.symbol? = some id)
      (h : ∀ type, t.typeOf? id = some type → t.kind type ≠ .classType) : Unseen e

/-- Every member of a builtin object is forbidden, whatever it stands for. -/
def OfBuiltin (callee : Expr) : Prop :=
  ∃ l object name symbol, callee = .member l object name symbol ∧ t.IsBuiltinObject object

/-- The calls that run code and pass the check. -/
inductive Escapes (p : Program) (s : ScopeId) : Expr → Prop
  | task {callee id} (hb : ¬ t.OfBuiltin callee) (hc : callee.symbol? = some id) (hk : t.kind id = .task) :
      Escapes p s callee
  | aliased {callee id value} (hb : ¬ t.OfBuiltin callee) (hc : callee.symbol? = some id) (hk : t.kind id = .constant)
      (ha : p.AliasOf id value) (hv : t.DenotesCode p value) : Escapes p s callee
  | method {l object name type} (ho : t.HasType s object type false) (hk : t.kind type = .classType)
      (hu : t.Unseen object) : Escapes p s (.member l object name none)

variable {t}

lemma Unseen.not_seenClass {e} (h : t.Unseen e) : ¬ t.SeenClass e := by
  induction h with
  | created => rintro ⟨id, type, hi, -⟩; cases hi
  | field => rintro ⟨id, type, hi, -⟩; cases hi
  | element _ ih => exact ih
  | @hidden e id he h =>
    rintro ⟨id', type, hi, ht, hk⟩
    have : e.instance? = some id := by
      cases e <;> simp_all [Expr.symbol?, Expr.instance?]
    simp_all

lemma HasType.seenClass_or_unseen {e} {type} {array : Bool}
    (h : t.HasType s e type array) : t.SeenClass e ∨ t.Unseen e := by
  induction h with
  | @symbol e id type declared he hs hd ht =>
    have hi : e.instance? = some id := by
      cases e <;> simp_all [Expr.symbol?, Expr.instance?]
    by_cases hc : ∃ type, t.typeOf? id = some type ∧ t.kind type = .classType
    · obtain ⟨type, ht, hk⟩ := hc
      exact .inl ⟨id, type, hi, ht, hk⟩
    · exact .inr (.hidden he fun type ht hk => hc ⟨type, ht, hk⟩)
  | field => exact .inr .field
  | element _ ih => exact ih.imp id .element
  | created => exact .inr .created

lemma forbidden_of_function {id} (hc : callee.symbol? = some id)
    (hk : t.kind id = .function) : ∃ e, t.ForbiddenCallee callee e := by
  cases callee with
  | name l r =>
    obtain ⟨name, symbol⟩ := r
    obtain rfl : symbol = some id := hc
    exact ⟨_, .function hk⟩
  | member l object name symbol =>
    obtain rfl : symbol = some id := hc
    by_cases ho : t.IsBuiltinObject object
    · obtain ⟨_, _, _, rfl, hb⟩ := ho
      exact ⟨_, .builtinMember hb⟩
    · exact ⟨_, .memberFunction ho hk⟩
  | _ => cases hc

lemma forbidden_of_seenClass {l} {object} {name} (h : t.SeenClass object) :
    ∃ e, t.ForbiddenCallee (.member l object name none) e := by
  by_cases ho : t.IsBuiltinObject object
  · obtain ⟨_, _, _, rfl, hb⟩ := ho
    exact ⟨_, .builtinMember hb⟩
  · obtain ⟨id, type, hi, ht, hk⟩ := h
    exact ⟨_, .method ho hi ht hk⟩

lemma forbidden_of_ofBuiltin (h : t.OfBuiltin callee) : ∃ e, t.ForbiddenCallee callee e := by
  obtain ⟨l, _, name, symbol, rfl, _, _, _, rfl, hb⟩ := h
  exact ⟨_, .builtinMember hb⟩

lemma RunsCode.forbidden_or_escapes {p} (h : t.RunsCode p s callee) :
    (∃ e, t.ForbiddenCallee callee e) ∨ t.Escapes p s callee := by
  -- Members of builtin objects go first: they are reported whatever else they stand for.
  by_cases hb : t.OfBuiltin callee
  · exact .inl (forbidden_of_ofBuiltin hb)
  cases h with
  | denoted h =>
    cases h with
    | function hc hk => exact .inl (forbidden_of_function hc hk)
    | task hc hk => exact .inr (.task hb hc hk)
    | blocking hk hm => exact .inl ⟨_, .blocking hk hm⟩
    | aliased hc hk ha hv => exact .inr (.aliased hb hc hk ha hv)
  | method ho hk =>
    rcases ho.seenClass_or_unseen with hs | hu
    · exact .inl (forbidden_of_seenClass hs)
    · exact .inr (.method ho hk hu)

lemma Escapes.runsCode {p} (h : t.Escapes p s callee) : t.RunsCode p s callee := by
  cases h with
  | task _ hc hk => exact .denoted (.task hc hk)
  | aliased _ hc hk ha hv => exact .denoted (.aliased hc hk ha hv)
  | method ho hk _ => exact .method ho hk

lemma not_forbidden_of_kind {id} (hb : ¬ t.OfBuiltin callee)
    (hc : callee.symbol? = some id) (hn : t.kind id ≠ .builtin) (hf : t.kind id ≠ .function) (e : InterruptError) :
    ¬ t.ForbiddenCallee callee e := by
  intro h
  cases h with
  | blocking hk => cases hc; exact hn hk
  | function hk => cases hc; exact hf hk
  | builtinMember hk => exact hb ⟨_, _, _, _, rfl, _, _, _, rfl, hk⟩
  | memberFunction _ hk => cases hc; exact hf hk
  | method => cases hc

lemma HasType.not_isBuiltinObject {object} {type} {array : Bool}
    (h : t.HasType s object type array) : ¬ t.IsBuiltinObject object := by
  rintro ⟨l, name, id, rfl, hk⟩
  cases h with
  | symbol he hs =>
    cases he
    simp [isStored, hk] at hs

lemma Escapes.not_forbidden {p} (h : t.Escapes p s callee) (e : InterruptError) : ¬ t.ForbiddenCallee callee e := by
  cases h with
  | task hb hc hk => exact not_forbidden_of_kind hb hc (by simp [hk]) (by simp [hk]) e
  | aliased hb hc hk => exact not_forbidden_of_kind hb hc (by simp [hk]) (by simp [hk]) e
  | method ho _ hu =>
    intro h
    cases h with
    | builtinMember hk => exact ho.not_isBuiltinObject ⟨_, _, _, rfl, hk⟩
    | method _ hi ht hk => exact hu.not_seenClass ⟨_, _, hi, ht, hk⟩

end SymbolTable

/-- The calls of an accepted interrupt that run code of the program, or wait, are those of tasks, of aliases of code,
and of methods of objects whose class is not looked up. None of those is reported in any program. -/
theorem Program.accepted_call_runs_code_iff {p : Program} {t : SymbolTable} {volatile : VolatileSet}
    (hp : p.checkInterrupts t = .ok volatile) (s : ScopeId) :
    (∀ a l callee args, p.InterruptNodeAt a (.expr (.call l callee args)) →
      (t.RunsCode p s callee ↔ t.Escapes p s callee)) ∧
    ∀ l callee args, t.Escapes p s callee → ∀ e, ¬ (Node.expr (.call l callee args)).Violation t e := by
  constructor
  · intro a l callee args hc
    refine ⟨fun h => h.forbidden_or_escapes.resolve_left ?_, SymbolTable.Escapes.runsCode⟩
    rintro ⟨e, he⟩
    have hv : (Node.expr (.call l callee args)).violation? t = some ⟨e, callee.loc⟩ :=
      Node.violation?_eq_some_iff.mpr (.call he)
    have hnil : p.interruptErrors t = [] := (checkInterrupts_isOk_iff p t).mp ⟨volatile, hp⟩
    rw [interruptErrors_eq, filterMap_eq_nil_iff] at hnil
    rw [hnil _ (Node.mem_bodyNodes.mpr ⟨a, hc⟩)] at hv
    cases hv
  · intro l callee args he e hv
    cases hv with
    | call h => exact he.not_forbidden _ h

namespace Sample

def wakingCalls (task pause box : Option SymbolId) : List Expr := [
  .name default ⟨name "blink", task⟩,
  .name default ⟨name "pause", pause⟩,
  .member default (.new default (type "Slow") []) (name "run") none,
  .member default (.member default (.name default ⟨name "box", box⟩) (name "slow") none) (name "run") none]

def waking : Program := unit [
  .task default { name := name "blink", period := none, body := [] },
  .aliasDecl default (name "pause") (use "delay") none,
  .classDecl default { name := name "Slow", fields := [], constructor := none, methods := [method "run" []] },
  .classDecl default
    { name := name "Box", fields := [⟨mutableVar "Slow" "slow", default⟩], constructor := none, methods := [] },
  .var default (mutableVar "Box" "box"),
  interrupt ((wakingCalls none none none).map call)]

lemma waking_passes : waking.resolveNames.1.checkInterrupts (tableOf waking) = .ok ⟨[35]⟩ ∧
    waking.resolveNames.1.items[1]? =
      some (.aliasDecl default (name "pause") (.name default ⟨name "delay", some 2⟩) (some 34)) ∧
    waking.resolveNames.1.items[5]? = some (.interrupt default ⟨none, .name default ⟨name "LOW", some 23⟩, .rising,
      (wakingCalls (some 29) (some 34) (some 35)).map call⟩) := by cbv

lemma waking_alias : waking.resolveNames.1.AliasOf 34 (.name default ⟨name "delay", some 2⟩) :=
  ⟨[1], default, name "pause", by simp [Node.at?, Node.children, waking_passes.2.1]⟩

lemma waking_call : ∀ callee ∈ wakingCalls (some 29) (some 34) (some 35),
    ∃ a, waking.resolveNames.1.InterruptNodeAt a (.expr (.call default callee [])) := by
  intro callee hc
  apply Node.mem_bodyNodes.mp
  refine Node.mem_bodyNodes_unit (mem_of_getElem? waking_passes.2.2) (mem_map_of_mem hc) ?_
  simp [call, Node.nodes_eq (.stmt _), Node.nodes_eq (.expr (.call ..)), Node.children]

lemma waking_runsCode : ∀ callee ∈ wakingCalls (some 29) (some 34) (some 35),
    (tableOf waking).RunsCode waking.resolveNames.1 1 callee := by
  have hk : (tableOf waking).kind 29 = .task ∧ (tableOf waking).kind 34 = .constant ∧
      (tableOf waking).kind 2 = .builtin ∧ (tableOf waking).kind 30 = .classType ∧
      (tableOf waking).isStored 33 = true ∧ (tableOf waking).isStored 35 = true := by decide +kernel
  have ht : (tableOf waking).typePath? 1 ["Slow"] = some 30 ∧
      ((tableOf waking).get 33).type = some { base := "Slow" } ∧
      (tableOf waking).typePath? ((tableOf waking).get 33).scope ["Slow"] = some 30 ∧
      ((tableOf waking).get 35).type = some { base := "Box" } ∧
      (tableOf waking).typePath? ((tableOf waking).get 35).scope ["Box"] = some 32 ∧
      ((tableOf waking).get 32).members = some 3 ∧ (tableOf waking).member? 3 (name "slow").text = some 33 := by
    decide +kernel
  obtain ⟨hblink, hpause, hdelay, hslow, hs33, hs35⟩ := hk
  obtain ⟨hnew, h33, hp33, h35, hp35, hm, hf⟩ := ht
  simp only [wakingCalls, mem_cons, not_mem_nil, or_false]
  rintro callee (rfl | rfl | rfl | rfl)
  · exact .denoted (.task rfl hblink)
  · exact .denoted (.aliased rfl hpause waking_alias (.blocking hdelay (by decide)))
  · exact .method (.created hnew) hslow
  · have hbox : (tableOf waking).HasType 1 (.name default ⟨name "box", some 35⟩) 32 false := .symbol rfl hs35 h35 hp35
    exact .method (.field hbox hm hf hs33 h33 hp33) hslow

theorem waking_calls_escape : waking.resolveNames.1.checkInterrupts (tableOf waking) = .ok ⟨[35]⟩ ∧
    ∀ callee ∈ wakingCalls (some 29) (some 34) (some 35),
      (tableOf waking).Escapes waking.resolveNames.1 1 callee := by
  refine ⟨waking_passes.1, fun callee hc => ?_⟩
  obtain ⟨a, ha⟩ := waking_call callee hc
  have h := (Program.accepted_call_runs_code_iff waking_passes.1 1).1 a default callee [] ha
  exact h.mp (waking_runsCode callee hc)

end Sample

end SketchCompiler
