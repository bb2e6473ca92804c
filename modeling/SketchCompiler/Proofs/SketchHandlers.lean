import SketchCompiler.Proofs.LabelledHandlers

namespace SketchCompiler

open Node Emit List

variable {α : Type}

variable (path : List String)

def FunctionDecl.label (f : Location → String) (d : FunctionDecl) : FunctionDecl :=
  { d with body := labelBlock f d.body }

def ClassDecl.label (f : Location → String) (d : ClassDecl) : ClassDecl :=
  { d with
    fields := d.fields.map fun d => { d with value := d.value.label f }
    constructor := d.constructor.map fun c => { c with body := labelBlock f c.body }
    methods := d.methods.map fun m => { m with value := m.value.label f } }

mutual

def Item.label (f : Location → String) : Item → Item
  | .config l entries => .config l (labelFields f entries)
  | .load l path aliasName => .load l path aliasName
  | .module l aliasName path symbol program => .module l aliasName path symbol (program.label f)
  | .nativeInclude l path => .nativeInclude l path
  | .var l d => .var l (d.label f)
  | .aliasDecl l name e symbol => .aliasDecl l name (e.label f) symbol
  | .function l d => .function l (d.label f)
  | .classDecl l d => .classDecl l (d.label f)
  | .enumDecl l d => .enumDecl l d
  | .structDecl l d => .structDecl l d
  | .signal l name symbol => .signal l name symbol
  | .event l kind body => .event l kind (labelBlock f body)
  | .interrupt l d => .interrupt l { d with pin := d.pin.label f, body := labelBlock f d.body }
  | .task l d => .task l { d with period := labelExpr? f d.period, body := labelBlock f d.body }
  | .native l text => .native l text

def labelItems (f : Location → String) : List Item → List Item
  | [] => []
  | i :: is => i.label f :: labelItems f is

def Program.label (f : Location → String) : Program → Program
  | ⟨name, mainMark, items⟩ => ⟨name, mainMark, labelItems f items⟩

end

/-- Two lists go in step, and the handlers are those of their elements. -/
inductive Each {α β : Type} (R : Handlers → α → β → Prop) : Handlers → List α → List β → Prop
  | nil : Each R 0 [] []
  | cons {xs ys a b as bs} (h : R xs a b) (hs : Each R ys as bs) : Each R (xs + ys) (a :: as) (b :: bs)

namespace Each

variable {β γ δ σ : Type} {R : Handlers → α → β → Prop} {xs ys : Handlers} {as as' : List α} {bs bs' : List β}

lemma append (h : Each R xs as bs) (h' : Each R ys as' bs') : Each R (xs + ys) (as ++ as') (bs ++ bs') := by
  induction h with
  | nil => simpa using h'
  | cons h hs ih =>
    rw [add_assoc]
    exact .cons h ih

lemma snoc {a : α} {b : β} (h : Each R xs as bs) (hab : R ys a b) : Each R (xs + ys) (as ++ [a]) (bs ++ [b]) := by
  have hone : Each R (ys + 0) [a] [b] := .cons hab .nil
  rw [add_zero] at hone
  exact h.append hone

lemma flatten {k} {f : Location → String} {lss lss' : List (List Line)}
    (h : Each (Labelled k f) xs lss lss') : Labelled k f xs lss.flatten lss'.flatten := by
  induction h with
  | nil => exact .nil
  | cons h hs ih => exact h.append ih

lemma mapM {T : Handlers → σ → σ → Prop} {S : Handlers → γ → δ → Prop} {g : α → StateM σ γ} {g' : β → StateM σ δ}
    (h : Each R xs as bs) (hg : ∀ xs a b, R xs a b → InStep T S xs (g a) (g' b)) :
    InStep T (Each S) xs (as.mapM g) (bs.mapM g') := by
  induction h with
  | nil => exact .pure .nil
  | cons h hs ih =>
    rw [mapM_cons, mapM_cons]
    exact (hg _ _ _ h).map₂ ih fun _ _ _ _ _ _ h h' => .cons h h'

end Each

lemma InStep.mapM_map {σ β γ δ : Type} {T : Handlers → σ → σ → Prop} {S : Handlers → γ → δ → Prop}
    {part : α → List (Location × List Stmt)} {g : α → StateM σ γ} {g' : β → StateM σ δ} {x : α → β}
    (h : ∀ a, InStep T S (part a) (g a) (g' (x a))) (as : List α) :
    InStep T (Each S) (as.flatMap part : List _) (as.mapM g) ((as.map x).mapM g') := by
  have heach : Each (fun xs a b => xs = (part a : Handlers) ∧ b = x a) (as.flatMap part : List _) as (as.map x) := by
    induction as with
    | nil => exact .nil
    | cons a as ih => exact .cons ⟨rfl, rfl⟩ ih
  refine heach.mapM ?_
  rintro _ a _ ⟨rfl, rfl⟩
  exact h a

section States

variable (k : Scene) (f : Location → String)

/-- A block that waits, and the same with labels. -/
def LabelledBlock (xs : Handlers) (body body' : List Stmt) : Prop :=
  xs = blockHandlers k body ∧ body' = labelBlock f body

inductive LabelledDeferred : Handlers → Deferred → Deferred → Prop
  | line (text : String) : LabelledDeferred 0 (.line text) (.line text)
  | guard (value : String) (l : Location) (handler : List Stmt) :
      LabelledDeferred ((l, handler) :: blockHandlers k handler) (.guard value handler)
        (.guard value (.native l (f l) :: labelBlock f handler))

/-- The states differ in nothing but labels, and the handlers that wait are those for `setup()`, of the blocks for it
and of the blocks for `loop()`. -/
structure LabelledState (xs ys zs : Handlers) (s s' : Emission) : Prop where
  interrupts : s'.interrupts = s.interrupts
  handlers : s'.handlers = s.handlers
  temporaries : s'.temporaries = s.temporaries
  setup : Each (LabelledDeferred k f) xs s.setup s'.setup
  starts : Each (LabelledBlock k f) ys s.starts s'.starts
  schedule : s'.schedule = s.schedule
  dispatch : s'.dispatch = s.dispatch
  loops : Each (LabelledBlock k f) zs s.loops s'.loops

/-- The handlers that wait are the same all the time. -/
def Waiting (xs ys zs : Handlers) (ws : Handlers) (s s' : Emission) : Prop := ws = 0 ∧ LabelledState k f xs ys zs s s'

/-- All handlers that wait. -/
def Pending (ws : Handlers) (s s' : Emission) : Prop := ∃ xs ys zs, LabelledState k f xs ys zs s s' ∧ ws = xs + ys + zs

variable {k f} {xs ys zs ws : Handlers} {β : Type} {R : Handlers → α → β → Prop}

lemma InStep.run {m : Emit α} {m' : Emit β} {s s'} (h : InStep (Waiting k f xs ys zs) R ws m m')
    (hs : LabelledState k f xs ys zs s s') :
    R ws (m.run s).1 (m'.run s').1 ∧ LabelledState k f xs ys zs (m.run s).2 (m'.run s').2 := by
  obtain ⟨vs, vs', hR, ⟨rfl, hs'⟩, hsum⟩ := h 0 s s' ⟨rfl, hs⟩
  rw [add_zero, zero_add] at hsum
  exact ⟨hsum ▸ hR, hs'⟩

lemma InStep.pending {m : Emit α} {m' : Emit β} (h : ∀ xs ys zs, InStep (Waiting k f xs ys zs) R ws m m') :
    InStep (Pending k f) R ws m m' := by
  rintro us s s' ⟨xs, ys, zs, hs, rfl⟩
  obtain ⟨hR, hs'⟩ := (h xs ys zs).run hs
  exact ⟨ws, _, hR, ⟨xs, ys, zs, hs', rfl⟩, add_comm _ _⟩

lemma waiting_withTemporaries {hs} {m m'} (h : LabelsIn k f hs m m') :
    InStep (Waiting k f xs ys zs) (Labelled k f) hs (withTemporaries m) (withTemporaries m') := by
  rintro _ s s' ⟨rfl, hs⟩
  obtain ⟨vs, vs', hl, ⟨rfl, hn⟩, hsum⟩ := h 0 s.temporaries s'.temporaries ⟨rfl, hs.temporaries.symm⟩
  exact ⟨vs, 0, hl, ⟨rfl, { hs with temporaries := hn.symm }⟩, hsum⟩

lemma waiting_nextHandler : InStep (Waiting k f xs ys zs) Same 0 nextHandler nextHandler := by
  rintro _ s s' ⟨rfl, hs⟩
  exact ⟨0, 0, ⟨rfl, hs.handlers.symm⟩, ⟨rfl, { hs with handlers := congrArg (· + 1) hs.handlers }⟩, rfl⟩

lemma waiting_nextInterrupt : InStep (Waiting k f xs ys zs) Same 0 nextInterrupt nextInterrupt := by
  rintro _ s s' ⟨rfl, hs⟩
  exact ⟨0, 0, ⟨rfl, hs.interrupts.symm⟩, ⟨rfl, { hs with interrupts := congrArg (· + 1) hs.interrupts }⟩, rfl⟩

lemma waiting_schedule (line : String) :
    InStep (Waiting k f xs ys zs) Same 0 (Emit.schedule line) (Emit.schedule line) := by
  rintro _ s s' ⟨rfl, hs⟩
  exact ⟨0, 0, ⟨rfl, rfl⟩, ⟨rfl, { hs with schedule := congrArg (· ++ [line]) hs.schedule }⟩, rfl⟩

lemma waiting_dispatch (flag handler : String) :
    InStep (Waiting k f xs ys zs) Same 0 (Emit.dispatch flag handler) (Emit.dispatch flag handler) := by
  rintro _ s s' ⟨rfl, hs⟩
  exact ⟨0, 0, ⟨rfl, rfl⟩, ⟨rfl, { hs with dispatch := congrArg (addHandler flag handler) hs.dispatch }⟩, rfl⟩

lemma waiting_defer (line : String) : InStep (Waiting k f xs ys zs) Same 0 (defer line) (defer line) := by
  rintro _ s s' ⟨rfl, hs⟩
  have hsetup := hs.setup.snoc (.line line)
  rw [add_zero] at hsetup
  exact ⟨0, 0, ⟨rfl, rfl⟩, ⟨rfl, { hs with setup := hsetup }⟩, rfl⟩

lemma waiting_forM_defer (lines : List String) :
    InStep (Waiting k f xs ys zs) Same 0 (lines.forM defer) (lines.forM defer) := by
  induction lines with
  | nil => exact .pure ⟨rfl, rfl⟩
  | cons line lines ih => exact .after (waiting_defer line) fun _ => ih

lemma waiting_functionLines (signature : String) (body : List Stmt) :
    InStep (Waiting k f xs ys zs) (Labelled k f) (blockHandlers k body) (functionLines k signature body)
      (functionLines k signature (labelBlock f body)) :=
  (waiting_withTemporaries (labelsIn_blockLines k f 1 body)).map fun _ _ _ h => h.between [_] [_, _]

lemma pending_guard (value : String) (l : Location) (handler : List Stmt) :
    InStep (Pending k f) Same ((l, handler) :: blockHandlers k handler : List _)
      (modify fun s => { s with setup := s.setup ++ [.guard value handler] })
      (modify fun s => { s with setup := s.setup ++ [.guard value (.native l (f l) :: labelBlock f handler)] }) := by
  rintro _ s s' ⟨xs, ys, zs, hs, rfl⟩
  refine ⟨0, _, ⟨rfl, rfl⟩, ⟨_, ys, zs, { hs with setup := hs.setup.snoc (.guard value l handler) }, rfl⟩, ?_⟩
  rw [zero_add, add_right_comm xs, add_right_comm]

lemma pending_starts (body : List Stmt) :
    InStep (Pending k f) Same (blockHandlers k body) (modify fun s => { s with starts := s.starts ++ [body] })
      (modify fun s => { s with starts := s.starts ++ [labelBlock f body] }) := by
  rintro _ s s' ⟨xs, ys, zs, hs, rfl⟩
  refine ⟨0, _, ⟨rfl, rfl⟩, ⟨xs, _, zs, { hs with starts := hs.starts.snoc ⟨rfl, rfl⟩ }, rfl⟩, ?_⟩
  rw [zero_add, ← add_assoc, add_right_comm]

lemma pending_loops (body : List Stmt) :
    InStep (Pending k f) Same (blockHandlers k body) (modify fun s => { s with loops := s.loops ++ [body] })
      (modify fun s => { s with loops := s.loops ++ [labelBlock f body] }) := by
  rintro _ s s' ⟨xs, ys, zs, hs, rfl⟩
  refine ⟨0, _, ⟨rfl, rfl⟩, ⟨xs, ys, _, { hs with loops := hs.loops.snoc ⟨rfl, rfl⟩ }, rfl⟩, ?_⟩
  rw [zero_add, ← add_assoc]

end States

section Items

variable {k : Scene} {f : Location → String} {xs ys zs : Handlers}

lemma Expr.handler?_label {e : Expr} {handler} (h : e.handler? = some handler) :
    ∃ l, (e.label f).handler? = some (.native l (f l) :: labelBlock f handler) ∧
      (expr e).writtenHandlers k = (l, handler) :: blockHandlers k handler := by
  rcases e.handler?_cases h with ⟨l, v, rfl⟩ | ⟨l', l, v, min, max, rfl⟩
  · exact ⟨l, rfl, writtenHandlers_guarded l v handler⟩
  · exact ⟨l, rfl, writtenHandlers_clamp l' l v min max handler⟩

lemma VarDecl.pending_globalLines (l : Location) (d : VarDecl) :
    InStep (Pending k f) (Labelled k f) ((item (.var l d)).writtenHandlers k) (d.globalLines k)
      ((d.label f).globalLines k) := by
  have hcode := d.code_label (k := k) (f := f)
  obtain ⟨_, _, _, initializer, _, symbol⟩ := d
  rw [VarDecl.label] at hcode
  rw [writtenHandlers_varItem, writtenHandlers_var, VarDecl.label, VarDecl.globalLines, VarDecl.globalLines, hcode]
  cases symbol with
  | none => exact .pure (.refl _)
  | some id =>
    simp only [Option.isSome_some, Option.bind_some]
    cases hi : k.plan.instance? id with
    | some i => exact .pending fun _ _ _ => .after (waiting_forM_defer _) fun _ => .pure (.refl _)
    | none =>
      cases initializer with
      | none => exact .pure (.refl _)
      | some e =>
        cases hh : e.handler? with
        | none =>
          have hl : (e.label f).handler? = none := by simpa [hh] using e.isSome_handler?_label (f := f)
          have hgrade : (expr e).writtenHandlers k = [] := writtenHandlers_of_handler? hh
          simp only [labelExpr?, Option.bind_some, hh, hl, Option.toList_some, flatMap_singleton, hgrade]
          exact .pure (.refl _)
        | some handler =>
          obtain ⟨l', hl, hgrade⟩ := Expr.handler?_label (k := k) (f := f) hh
          simp only [labelExpr?, Option.bind_some, hh, hl, Option.toList_some, flatMap_singleton, hgrade]
          exact (pending_guard _ l' handler).and_then fun _ _ _ h => h.1 ▸ .pure (.refl _)

lemma pending_eventLines (root : Bool) (kind : Event) (body : List Stmt) :
    InStep (Pending k f) (Labelled k f) (blockHandlers k body) (eventLines k path root kind body)
      (eventLines k path root kind (labelBlock f body)) := by
  have own (name : Nat → String) (next : String → Emit Unit)
      (hnext : ∀ name xs ys zs, InStep (Waiting k f xs ys zs) Same 0 (next name) (next name)) :
      InStep (Pending k f) (Labelled k f) (blockHandlers k body)
        (do
          let n ← nextHandler
          let lines ← functionLines k s!"void {name n}()" body
          next (name n)
          return lines)
        (do
          let n ← nextHandler
          let lines ← functionLines k s!"void {name n}()" (labelBlock f body)
          next (name n)
          return lines) :=
    .pending fun xs ys zs => .after waiting_nextHandler fun n => (waiting_functionLines _ body).and_then
      fun _ _ _ h => .after (hnext _ xs ys zs) fun _ => .pure h
  have waits {m m' : Emit PUnit} (hm : InStep (Pending k f) Same (blockHandlers k body) m m') :
      InStep (Pending k f) (Labelled k f) (blockHandlers k body) (do m; return []) (do m'; return []) :=
    hm.and_then fun _ _ _ h => h.1 ▸ .pure .nil
  cases kind with
  | start =>
    cases root with
    | true => exact waits (pending_starts body)
    | false =>
      exact own (fun n => s!"ys_start_{n}") (fun name => defer s!"{qualify path name}();")
        fun _ _ _ _ => waiting_defer _
  | loop =>
    cases root with
    | true => exact waits (pending_loops body)
    | false =>
      exact own (fun n => s!"ys_loop_{n}") (fun name => Emit.schedule s!"{qualify path name}();")
        fun _ _ _ _ => waiting_schedule _
  | signal r =>
    have h := own (fun n => s!"ys_on_{r.name.text}_{n}")
      (fun name => Emit.dispatch (k.signalReference r) s!"{qualify path name}();") fun _ _ _ _ => waiting_dispatch _ _
    cases root <;> exact h

lemma InterruptDecl.waiting_lines (d : InterruptDecl) :
    InStep (Waiting k f xs ys zs) (Labelled k f) (blockHandlers k d.body) (d.lines k path)
      (InterruptDecl.lines k path { d with pin := d.pin.label f, body := labelBlock f d.body }) := by
  rw [InterruptDecl.lines, InterruptDecl.lines, d.pin.code_label]
  exact .after waiting_nextInterrupt fun n => (waiting_functionLines _ d.body).and_then
    fun _ _ _ h => .after (waiting_defer _) fun _ => .pure h

lemma TaskDecl.waiting_lines (d : TaskDecl) :
    InStep (Waiting k f xs ys zs) (Labelled k f) (blockHandlers k d.body) (d.lines k path)
      (TaskDecl.lines k path { d with period := labelExpr? f d.period, body := labelBlock f d.body }) := by
  obtain ⟨name, period, body, symbol⟩ := d
  rw [TaskDecl.lines, TaskDecl.lines]
  cases period with
  | none => exact .after (waiting_schedule _) fun _ => (waiting_functionLines _ body).map fun _ _ _ h => h.prepend _
  | some e =>
    dsimp only [labelExpr?]
    rw [e.operand_label]
    exact .after (waiting_schedule _) fun _ => (waiting_functionLines _ body).map fun _ _ _ h => h.prepend _

lemma ClassDecl.waiting_bodyLines (l : Location) (d : ClassDecl) :
    InStep (Waiting k f xs ys zs) (Labelled k f) ((item (.classDecl l d)).writtenHandlers k) (d.bodyLines k)
      ((d.label f).bodyLines k) := by
  have hconstructor : InStep (Waiting k f xs ys zs) (Labelled k f)
      (d.constructor.toList.flatMap fun c => blockHandlers k c.body : List _) (d.constructorLines k)
      ((d.label f).constructorLines k) := by
    unfold ClassDecl.constructorLines ClassDecl.label
    cases d.constructor with
    | none => exact .pure .nil
    | some c =>
      rw [Option.toList_some, flatMap_singleton]
      exact waiting_functionLines _ c.body
  have hmethods : InStep (Waiting k f xs ys zs) (Each (Labelled k f))
      (d.methods.flatMap fun m => blockHandlers k m.value.body : List _)
      (d.methods.mapM fun m =>
        functionLines k (m.value.signature s!"{d.name.text}::{m.value.name.text}") m.value.body)
      ((d.label f).methods.mapM fun m =>
        functionLines k (m.value.signature s!"{d.name.text}::{m.value.name.text}") m.value.body) := by
    have hlabel : (d.label f).methods = d.methods.map fun m => { m with value := m.value.label f } := rfl
    rw [hlabel]
    refine .mapM_map (fun m => ?_) d.methods
    exact waiting_functionLines _ m.value.body
  rw [writtenHandlers_classDecl]
  exact hconstructor.map₂ hmethods fun _ _ _ _ _ _ h h' => h.append h'.flatten

lemma ClassDecl.lines_label (d : ClassDecl) : (d.label f).lines k = d.lines k := by
  obtain ⟨_, fields, constructor, methods, _⟩ := d
  have hfields : (fields.map fun x => { x with value := x.value.label f }).map
      (fun x => Line.code 1 (x.value.code k ++ ";")) = fields.map fun x => Line.code 1 (x.value.code k ++ ";") := by
    rw [map_map]
    exact map_congr_left fun x _ => by rw [Function.comp_apply, x.value.code_label]
  have hmethods : (methods.map fun m => { m with value := m.value.label f }).map
      (fun m => Line.code 1 (m.value.signature m.value.name.text ++ ";")) =
        methods.map fun m => Line.code 1 (m.value.signature m.value.name.text ++ ";") := by
    rw [map_map]
    rfl
  dsimp only [ClassDecl.label, ClassDecl.lines]
  rw [hfields, hmethods]
  cases constructor <;> rfl

lemma Item.typeLines_label (i : Item) : (i.label f).typeLines k = i.typeLines k := by
  cases i with
  | classDecl l d => exact d.lines_label
  | _ => rfl

lemma Item.prototypeLines_label (i : Item) : (i.label f).prototypeLines = i.prototypeLines := by
  cases i <;> rfl

lemma Item.commentLines_label (i : Item) : (i.label f).commentLines k = i.commentLines k := by
  cases i <;> rfl

end Items

def Item.codeHandlers (k : Scene) : Item → List (Location × List Stmt)
  | .var l d => (item (.var l d)).writtenHandlers k
  | .function _ d => blockHandlers k d.body
  | .event _ _ body => blockHandlers k body
  | .interrupt _ d => blockHandlers k d.body
  | .task _ d => blockHandlers k d.body
  | _ => []

def Item.methodHandlers (k : Scene) : Item → List (Location × List Stmt)
  | .classDecl l d => (item (.classDecl l d)).writtenHandlers k
  | _ => []

def Item.moduleHandlers (k : Scene) : Item → List (Location × List Stmt)
  | .module _ _ _ _ p => (unit p).writtenHandlers k
  | _ => []

section Units

variable {k : Scene} {f : Location → String}

lemma Item.writtenHandlers_eq (i : Item) :
    (item i).writtenHandlers k = i.moduleHandlers k ++ (i.codeHandlers k ++ i.methodHandlers k) := by
  cases i with
  | var l d => exact (append_nil _).symm
  | function l d => exact (writtenHandlers_function l d).trans (append_nil _).symm
  | event l kind body => exact (writtenHandlers_event l kind body).trans (append_nil _).symm
  | interrupt l d => exact (writtenHandlers_interrupt l d).trans (append_nil _).symm
  | task l d => exact (writtenHandlers_task l d).trans (append_nil _).symm
  | classDecl l d => rfl
  | module l aliasName path symbol p =>
    exact (writtenHandlers_module l aliasName path symbol p).trans (append_nil _).symm
  | _ => exact writtenHandlers_of_false rfl fun _ _ _ => rfl

lemma Item.pending_codeLines (root : Bool) (i : Item) :
    InStep (Pending k f) (Labelled k f) (i.codeHandlers k) (i.codeLines k path root)
      ((i.label f).codeLines k path root) := by
  cases i with
  | var l d => exact d.pending_globalLines l
  | aliasDecl l name e symbol =>
    rw [Item.label, Item.codeLines, Item.codeLines, e.code_label]
    exact .pure (.refl _)
  | function l d => exact .pending fun _ _ _ => waiting_functionLines _ d.body
  | event l kind body => exact pending_eventLines path root kind body
  | interrupt l d => exact .pending fun _ _ _ => d.waiting_lines path
  | task l d => exact .pending fun _ _ _ => d.waiting_lines path
  | _ => exact .pure (.refl _)

lemma Item.pending_lines (root : Bool) (i : Item) :
    InStep (Pending k f) (Labelled k f) (i.codeHandlers k) (i.lines k path root) ((i.label f).lines k path root) := by
  rw [Item.lines, Item.lines, i.commentLines_label]
  exact (i.pending_codeLines path root).map fun _ _ _ h => h.prepend _

lemma Item.pending_methodLines (i : Item) :
    InStep (Pending k f) (Labelled k f) (i.methodHandlers k) (i.methodLines k) ((i.label f).methodLines k) := by
  cases i with
  | classDecl l d => exact .pending fun _ _ _ => d.waiting_bodyLines l
  | _ => exact .pure .nil

lemma labelItems_eq (items : List Item) : labelItems f items = items.map (Item.label f) :=
  eq_map rfl (fun _ _ => rfl) items

lemma flatMap_labelItems {part : Item → List α} (h : ∀ i : Item, part (i.label f) = part i)
    (items : List Item) : (labelItems f items).flatMap part = items.flatMap part := by
  rw [labelItems_eq, flatMap_map]
  exact flatMap_congr fun i _ => h i

lemma pending_unitLines (root : Bool) (items : List Item) : InStep (Pending k f) (Labelled k f)
      (items.flatMap (·.codeHandlers k) ++ items.flatMap (·.methodHandlers k) : List _)
      (unitLines k path root items) (unitLines k path root (labelItems f items)) := by
  have hcode : InStep (Pending k f) (Each (Labelled k f)) (items.flatMap (·.codeHandlers k) : List _)
      (items.mapM (·.lines k path root)) ((labelItems f items).mapM (·.lines k path root)) := by
    rw [labelItems_eq]
    exact .mapM_map (·.pending_lines path root) items
  have hmethods : InStep (Pending k f) (Each (Labelled k f)) (items.flatMap (·.methodHandlers k) : List _)
      (items.mapM (·.methodLines k)) ((labelItems f items).mapM (·.methodLines k)) := by
    rw [labelItems_eq]
    exact .mapM_map (·.pending_methodLines) items
  rw [unitLines, unitLines, flatMap_labelItems Item.typeLines_label, flatMap_labelItems Item.prototypeLines_label]
  exact hcode.map₂ hmethods fun _ _ _ _ _ _ h h' => (h.flatten.prepend _).append h'.flatten

end Units

lemma Program.coe_writtenHandlers (k : Scene) (p : Program) : ((unit p).writtenHandlers k : Handlers) =
    (p.items.flatMap (·.moduleHandlers k) : List _) +
      (p.items.flatMap (·.codeHandlers k) ++ p.items.flatMap (·.methodHandlers k) : List _) := by
  have hcode := flatMap_append_perm p.items (·.codeHandlers k) (·.methodHandlers k)
  have hall := flatMap_append_perm p.items (·.moduleHandlers k) fun i => i.codeHandlers k ++ i.methodHandlers k
  rw [writtenHandlers_unit, flatMap_congr fun i _ => i.writtenHandlers_eq]
  exact Multiset.coe_eq_coe.mpr (hall.symm.trans (hcode.symm.append_left _))

mutual

lemma Item.pending_moduleLines (k : Scene) (f : Location → String) (path : List String) :
    ∀ i : Item, InStep (Pending k f) (Labelled k f) (i.moduleHandlers k) (i.moduleLines k path)
      ((i.label f).moduleLines k path)
  | .module l aliasName path' symbol program => by
    rw [Item.label, Item.moduleLines, Item.moduleLines]
    exact (program.pending_lines k f (path ++ [aliasName.text]) false).map fun _ _ _ h => h.between [_, _] [_, _]
  | .config .. | .load .. | .nativeInclude .. | .var .. | .aliasDecl .. | .function .. | .classDecl .. | .enumDecl ..
  | .structDecl .. | .signal .. | .event .. | .interrupt .. | .task .. | .native .. => .pure .nil

lemma pending_moduleLines (k : Scene) (f : Location → String) (path : List String) :
    ∀ is : List Item, InStep (Pending k f) (Labelled k f) (is.flatMap (·.moduleHandlers k) : List _)
      (moduleLines k path is) (moduleLines k path (labelItems f is))
  | [] => .pure .nil
  | i :: is => by
    rw [labelItems, moduleLines, moduleLines]
    exact (i.pending_moduleLines k f path).map₂ (pending_moduleLines k f path is) fun _ _ _ _ _ _ h h' => h.append h'

lemma Program.pending_lines (k : Scene) (f : Location → String) (path : List String) (root : Bool) :
    ∀ p : Program, InStep (Pending k f) (Labelled k f) ((unit p).writtenHandlers k) (p.lines k path root)
      ((p.label f).lines k path root)
  | ⟨name, mainMark, items⟩ => by
    rw [Program.coe_writtenHandlers, Program.label, Program.lines, Program.lines]
    exact (pending_moduleLines k f path items).map₂ (pending_unitLines path root items)
      fun _ _ _ _ _ _ h h' => h.append h'

end

section Sketch

variable {k : Scene} {f : Location → String} {xs ys zs ws : Handlers}

lemma waiting_get {S : Handlers → α → α → Prop} {g g' : Emission → Emit α}
    (h : ∀ s s', LabelledState k f xs ys zs s s' → InStep (Waiting k f xs ys zs) S ws (g s) (g' s')) :
    InStep (Waiting k f xs ys zs) S ws (get >>= g) (get >>= g') := by
  rintro _ s s' ⟨rfl, hs⟩
  exact h s s' hs 0 s s' ⟨rfl, hs⟩

lemma Deferred.waiting_lines {d d' : Deferred} (h : LabelledDeferred k f ws d d') :
    InStep (Waiting k f xs ys zs) (Labelled k f) ws (d.lines k) (d'.lines k) := by
  cases h with
  | line text => exact .pure (.refl _)
  | guard value l handler =>
    exact waiting_withTemporaries (.guard l value (labelsIn_blockLines k f 2 handler))

lemma waiting_bodies {bodies bodies' : List (List Stmt)} (h : Each (LabelledBlock k f) ws bodies bodies') :
    InStep (Waiting k f xs ys zs) (Each (Labelled k f)) ws
      (bodies.mapM fun body => withTemporaries (blockLines k 1 body))
      (bodies'.mapM fun body => withTemporaries (blockLines k 1 body)) := by
  refine h.mapM ?_
  rintro _ body _ ⟨rfl, rfl⟩
  exact waiting_withTemporaries (labelsIn_blockLines k f 1 body)

lemma waiting_setupLines : InStep (Waiting k f xs ys zs) (Labelled k f) (xs + ys) (setupLines k) (setupLines k) :=
  waiting_get fun _ _ hs => (hs.setup.mapM fun _ _ _ => Deferred.waiting_lines).bind fun _ _ _ hdeferred =>
    waiting_get fun _ _ hs => (waiting_bodies hs.starts).map_add fun _ _ _ hstarts =>
      (hdeferred.flatten.append hstarts.flatten).between [_] [_, _]

lemma waiting_loopLines : InStep (Waiting k f xs ys zs) (Labelled k f) zs (loopLines k) (loopLines k) := by
  refine waiting_get fun s s' hs => waiting_get fun t t' ht => waiting_get fun u u' hu => ?_
  rw [hs.schedule, ht.dispatch]
  exact (waiting_bodies hu.loops).map fun _ _ _ h => h.flatten.between _ [_]

mutual

lemma Item.includes_label (f : Location → String) : ∀ i : Item, (i.label f).includes = i.includes
  | .module l aliasName path symbol program => by
    rw [Item.label, Item.includes, Item.includes, program.includes_label f]
  | .config .. | .load .. | .nativeInclude .. | .var .. | .aliasDecl .. | .function .. | .classDecl .. | .enumDecl ..
  | .structDecl .. | .signal .. | .event .. | .interrupt .. | .task .. | .native .. => rfl

lemma itemsIncludes_label (f : Location → String) :
    ∀ is : List Item, itemsIncludes (labelItems f is) = itemsIncludes is
  | [] => rfl
  | i :: is => by rw [labelItems, itemsIncludes, itemsIncludes, i.includes_label f, itemsIncludes_label f is]

lemma Program.includes_label (f : Location → String) : ∀ p : Program, (p.label f).includes = p.includes
  | ⟨_, _, items⟩ => itemsIncludes_label f items

end

lemma Program.headLines_label (p : Program) : (p.label f).headLines k = p.headLines k := by
  rw [headLines, headLines, p.includes_label f]
  cases p
  rfl

/-- The sketch of the program with labels is that of the program, with one label at the head of the block of each
handler that has a way that is written, and no others. -/
lemma Program.labelled_sketchLines (k : Scene) (f : Location → String) (p : Program) :
    Labelled k f ((unit p).writtenHandlers k) ((p.sketchLines k).run {}).1 (((p.label f).sketchLines k).run {}).1 := by
  let code (q : Program) : Emit (List Line) := do
    let lines ← q.lines k [] true
    return q.headLines k ++ lines ++ (← setupLines k) ++ (← loopLines k)
  have rest (s : Emission) (hs : LabelledState k f 0 0 0 s s) :
      Labelled k f ((unit p).writtenHandlers k) ((code p).run s).1 ((code (p.label f)).run s).1 := by
    obtain ⟨us, _, hlines, ⟨xs, ys, zs, hs, rfl⟩, hsum⟩ := p.pending_lines k f [] true 0 s s ⟨0, 0, 0, hs, rfl⟩
    obtain ⟨hsetup, hs⟩ := waiting_setupLines.run hs
    obtain ⟨hloop, -⟩ := waiting_loopLines.run hs
    have h := ((hlines.prepend (p.headLines k)).append hsetup).append hloop
    rw [zero_add, ← add_assoc] at hsum
    rw [hsum] at h
    dsimp only [code]
    rw [p.headLines_label]
    exact h
  have hstart : LabelledState k f 0 0 0 {} {} := ⟨rfl, rfl, rfl, .nil, .nil, rfl, rfl, .nil⟩
  unfold Program.sketchLines
  cases k.config.uart with
  | none => exact rest {} hstart
  | some baud =>
    have hs := ((waiting_defer s!"Serial.begin({baud});").run hstart).2
    exact rest _ hs

end Sketch

namespace Program

variable {k : Scene} {p q q' : Program} {t : SymbolTable} {ranges : RangeTable}

/-- A handler of the program, as it is when units are converted and ranges are clamped. -/
def clampedHandler (ranges : RangeTable) (x : Location × List Stmt) : Location × List Stmt :=
  transformHandler (clamps ranges) (transformHandler commonUnits x)

lemma writtenHandlers_clampRanges (hp : p.Read) (h : p.resolveNames = (q, .ok t))
    (hr : q.clampRanges = (q', .ok ranges)) (k : Scene) :
    (unit q').writtenHandlers k = ((unit q).writtenHandlers k).map (clampedHandler ranges) := by
  have hclamp : ∀ m ∈ (unit q).nodes, m.isClamp = false := fun m hm => hp.not_isClamp h hm
  have hunits : (unit q.convertUnits).writtenHandlers k =
      ((unit q).writtenHandlers k).map (transformHandler commonUnits) :=
    writtenHandlers_transform (fun _ _ _ => rfl) hclamp
  have hclamp' : ∀ m ∈ (unit q.convertUnits).nodes, m.isClamp = false := by
    intro m hm
    obtain ⟨a, ha⟩ := mem_nodes.mp hm
    rw [at?_convertUnits] at ha
    obtain ⟨n, hn, rfl⟩ := Option.map_eq_some_iff.mp ha
    rw [isClamp_transform]
    exact hclamp n (mem_nodes.mpr ⟨a, hn⟩)
  have hclamps : (unit q').writtenHandlers k =
      ((unit q.convertUnits).writtenHandlers k).map (transformHandler (clamps ranges)) := by
    rw [eq_insertClamps hr]
    exact writtenHandlers_transform (fun symbol e he => writtenHandlers_clampTo ranges symbol he) hclamp'
  rw [hclamps, hunits, map_map]
  rfl

lemma guarded_at?_resolveNames (h : p.resolveNames = (q, .ok t)) (a : List Nat) :
    (∃ n, (unit q).at? a = some n ∧ n.isGuarded) ↔ ∃ n, (unit p).at? a = some n ∧ n.isGuarded := by
  have hform (n : Node) : n.form.isGuarded = n.isGuarded := by
    cases n with
    | expr e => cases e <;> rfl
    | stmt s => cases s <;> rfl
    | _ => rfl
  have hp := p.alike_resolveNames a
  rw [h] at hp
  have hany : (((unit q).at? a).map form).any isGuarded = (((unit p).at? a).map form).any isGuarded := by rw [hp]
  simp only [Option.any_map, hform] at hany
  rw [← Option.any_eq_true, ← Option.any_eq_true, hany]

/-- Labels tell which handlers are in the sketch: each handler that has a way that is written is there once, in a block
that its value guards, and no other handler is there at all. All handlers of the program are in the sketch just if they
all have such a way. -/
theorem handlers_written_once (hp : p.Read) (h : p.resolveNames = (q, .ok t)) (hr : q.clampRanges = (q', .ok ranges))
    (k : Scene) (f : Location → String) :
    let lines := ((q'.sketchLines k).run {}).1
    let labelled := (((q'.label f).sketchLines k).run {}).1
    let written := (unit q).writtenHandlers k
    Labelled k f (written.map (clampedHandler ranges)) lines labelled ∧
      (∀ text, (labelled.filterMap Line.text?).count text =
        (lines.filterMap Line.text?).count text + (written.map fun x => f x.1).count text) ∧
      (written = (unit q).handlers ↔ ∀ a n, (unit p).at? a = some n → n.isGuarded → (unit q).Written k a) := by
  have hl := q'.labelled_sketchLines k f
  rw [writtenHandlers_clampRanges hp h hr] at hl
  refine ⟨hl, fun text => ?_, ?_⟩
  · have hcount := hl.count_texts text
    rw [Multiset.map_coe, Multiset.coe_count, map_map] at hcount
    exact hcount
  · rw [writtenHandlers_eq_iff]
    refine forall_congr' fun a => ?_
    have hg := guarded_at?_resolveNames h a
    constructor
    · intro hw n hn hguarded
      obtain ⟨m, hm, hguarded⟩ := hg.mpr ⟨n, hn, hguarded⟩
      exact hw m hm hguarded
    · intro hw n hn hguarded
      obtain ⟨m, hm, hguarded⟩ := hg.mp ⟨n, hn, hguarded⟩
      exact hw m hm hguarded

end Program

namespace Sample

def handlerText : String := "class C { mut int x = 1 catch { return } }
mut Led led = 13 catch { return }
mut int y in 0 ... 9 = 1 catch { return }
on start {
    for (mut int i = 1 catch { return }; i < 3; i = 3) {
        y = 2 catch { return }
    }
}"

def plannedScene (p : Program) : Scene where
  table := tableOf p
  volatile := {}
  plan := match p.resolveNames.1.clampRanges.1.planHardware (tableOf p) {} with
    | .ok plan => plan
    | .error _ => { family := .avr }
  config := {}

/-- Two of the five handlers are in the sketch. -/
theorem handlers_left_out : ∃ q q' ranges, (ofText handlerText).resolveNames =
      (q, .ok (tableOf (ofText handlerText))) ∧ q.clampRanges = (q', .ok ranges) ∧ (Node.unit q).handlers.length = 5 ∧
    (∃ a n, (Node.unit (ofText handlerText)).at? a = some n ∧ n.isGuarded ∧
      ¬ (Node.unit q).Written (plannedScene (ofText handlerText)) a) ∧
    ((((q'.label fun _ => "label();").sketchLines (plannedScene (ofText handlerText))).run {}).1.filterMap
        Line.text?).count "label();" =
      (((q'.sketchLines (plannedScene (ofText handlerText))).run {}).1.filterMap Line.text?).count "label();" + 2 := by
  have hall : passes handlerText = true ∧
      let q := (ofText handlerText).resolveNames.1
      (Node.unit q).handlers.length = 5 ∧
        ((Node.unit q).writtenHandlers (plannedScene (ofText handlerText))).length = 2 := by decide +kernel
  obtain ⟨hpasses, hfive, htwo⟩ := hall
  obtain ⟨hp, h, hr⟩ := of_passes handlerText hpasses
  obtain ⟨-, hcount, hiff⟩ :=
    Program.handlers_written_once hp h hr (plannedScene (ofText handlerText)) fun _ => "label();"
  refine ⟨_, _, _, h, hr, hfive, ?_, ?_⟩
  · have hlost := hiff.not.mp fun he => by simp [he, hfive] at htwo
    push Not at hlost
    exact hlost
  · rw [hcount, map_const', count_replicate_self, htwo]

end Sample

end SketchCompiler
