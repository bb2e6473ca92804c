import SketchCompiler.Proofs.BareNodes
import SketchCompiler.Proofs.ReadTrees
import SketchCompiler.Proofs.Resolution

namespace SketchCompiler

open Node Resolve List

variable {α β : Type} (c : Site)

mutual

/-- The tree without the numbers of its names. -/
def Expr.erase : Expr → Expr
  | .name l x => .name l { x with symbol := none }
  | .binary l a op b => .binary l a.erase op b.erase
  | .unary l op e => .unary l op e.erase
  | .call l callee args => .call l callee.erase (eraseExprs args)
  | .member l e name _ => .member l e.erase name none
  | .new l type args => .new l type (eraseExprs args)
  | .array l es => .array l (eraseExprs es)
  | .subscript l a i => .subscript l a.erase i.erase
  | .convert l e type => .convert l e.erase type
  | .guarded l e handler => .guarded l e.erase (eraseBlock handler)
  | .struct l type fields => .struct l type (eraseFields fields)
  | .clamp l e min max => .clamp l e.erase min.erase max.erase
  | .literal l v => .literal l v
  | .self l => .self l

def eraseExprs : List Expr → List Expr
  | [] => []
  | e :: es => e.erase :: eraseExprs es

def eraseExpr? : Option Expr → Option Expr
  | none => none
  | some e => some e.erase

def eraseFields : List FieldValue → List FieldValue
  | [] => []
  | ⟨name, e⟩ :: fs => ⟨name, e.erase⟩ :: eraseFields fs

def eraseRange? : Option Range → Option Range
  | none => none
  | some ⟨min, max⟩ => some ⟨min.erase, max.erase⟩

def VarDecl.erase : VarDecl → VarDecl
  | ⟨qualifier, type, name, initializer, range, _⟩ =>
    ⟨qualifier, type, name, eraseExpr? initializer, eraseRange? range, none⟩

def Stmt.erase : Stmt → Stmt
  | .var l d => .var l d.erase
  | .assign l target e => .assign l target.erase e.erase
  | .expr l e => .expr l e.erase
  | .cond l branches otherwise => .cond l (eraseBranches branches) (eraseBlock? otherwise)
  | .whileLoop l e body => .whileLoop l e.erase (eraseBlock body)
  | .forLoop l init e update body => .forLoop l (eraseStmt? init) (eraseExpr? e) (eraseStmt? update) (eraseBlock body)
  | .repeatLoop l e body => .repeatLoop l e.erase (eraseBlock body)
  | .choose l e arms => .choose l e.erase (eraseArms arms)
  | .switch l e cases otherwise => .switch l e.erase (eraseBranches cases) (eraseBlock? otherwise)
  | .atomic l body => .atomic l (eraseBlock body)
  | .emit l x => .emit l { x with symbol := none }
  | .ret l e => .ret l (eraseExpr? e)
  | .breakLoop l => .breakLoop l
  | .continueLoop l => .continueLoop l
  | .native l text => .native l text

def eraseStmt? : Option Stmt → Option Stmt
  | none => none
  | some s => some s.erase

def eraseBlock : List Stmt → List Stmt
  | [] => []
  | s :: ss => s.erase :: eraseBlock ss

def eraseBlock? : Option (List Stmt) → Option (List Stmt)
  | none => none
  | some body => some (eraseBlock body)

def eraseBranches : List Branch → List Branch
  | [] => []
  | ⟨e, body⟩ :: bs => ⟨e.erase, eraseBlock body⟩ :: eraseBranches bs

def eraseArms : List Arm → List Arm
  | [] => []
  | ⟨patterns, body⟩ :: as => ⟨erasePatterns patterns, eraseBlock body⟩ :: eraseArms as

def erasePatterns : List Pattern → List Pattern
  | [] => []
  | .wildcard l :: ps => .wildcard l :: erasePatterns ps
  | .value l e :: ps => .value l e.erase :: erasePatterns ps

end

namespace Resolve

lemma run_bind (m : Resolve α) (k : α → Resolve β) (r : Resolution) : (m >>= k) r = k (m r).1 (m r).2 := rfl

lemma run_map (f : α → β) (m : Resolve α) (r : Resolution) : (f <$> m) r = (f (m r).1, (m r).2) := rfl

lemma run_pure (a : α) (r : Resolution) : (pure a : Resolve α) r = (a, r) := rfl

lemma name_reference (x : Reference) (r : Resolution) : (reference c x r).1.name = x.name := by
  unfold reference
  split
  · rfl
  · simp only [run_bind]
    cases (table r).1.lookup? c.scope x.name.text <;> rfl

lemma name_signal (x : Reference) (r : Resolution) : (signal c x r).1.name = x.name := by
  rw [← name_reference c x r, signal, run_bind]
  cases hs : (reference c x r).1.symbol with
  | none => simp [run_pure]
  | some id =>
    simp only [run_bind]
    split <;> rfl

end Resolve

section

attribute [local simp] Expr.resolve resolveExprs resolveExpr? resolveFields resolveRange? Stmt.resolve resolveStmt?
  resolveBlock resolveBlock? resolveBranches resolveArms resolvePatterns Expr.erase eraseExprs eraseExpr? eraseFields
  eraseRange? VarDecl.erase Stmt.erase eraseStmt? eraseBlock eraseBlock? eraseBranches eraseArms erasePatterns run_bind
  run_map run_pure name_reference name_signal

mutual

lemma Expr.erase_resolve (c : Site) (e : Expr) (r : Resolution) : (e.resolve c r).1.erase = e.erase := by
  cases e with
  | literal | name => simp
  | self l =>
    rw [Expr.resolve]
    split <;> rfl
  | binary l a op b => simp [a.erase_resolve, b.erase_resolve]
  | unary l op e => simp [e.erase_resolve]
  | call l callee args => simp [callee.erase_resolve, erase_resolveExprs _ args]
  | member l e => simp [e.erase_resolve]
  | new l type args => simp [erase_resolveExprs _ args]
  | array l es => simp [erase_resolveExprs _ es]
  | subscript l a i => simp [a.erase_resolve, i.erase_resolve]
  | convert l e => simp [e.erase_resolve]
  | guarded l e handler => simp [e.erase_resolve, erase_resolveBlock _ handler]
  | struct l type fields => simp [erase_resolveFields _ fields]
  | clamp l e min max => simp [e.erase_resolve, min.erase_resolve, max.erase_resolve]

lemma erase_resolveExprs (c : Site) (es : List Expr) (r : Resolution) :
    eraseExprs (resolveExprs c es r).1 = eraseExprs es := by
  cases es with
  | nil => rfl
  | cons e es => simp [e.erase_resolve, erase_resolveExprs _ es]

lemma erase_resolveExpr? (c : Site) (e : Option Expr) (r : Resolution) :
    eraseExpr? (resolveExpr? c e r).1 = eraseExpr? e := by
  cases e with
  | none => rfl
  | some e => simp [e.erase_resolve]

lemma erase_resolveFields (c : Site) (fs : List FieldValue) (r : Resolution) :
    eraseFields (resolveFields c fs r).1 = eraseFields fs := by
  rcases fs with _ | ⟨⟨name, e⟩, fs⟩
  · rfl
  · simp [e.erase_resolve, erase_resolveFields _ fs]

lemma erase_resolveRange? (c : Site) (x : Option Range) (r : Resolution) :
    eraseRange? (resolveRange? c x r).1 = eraseRange? x := by
  rcases x with _ | ⟨min, max⟩
  · rfl
  · simp [min.erase_resolve, max.erase_resolve]

lemma VarDecl.erase_resolve (c : Site) (d : VarDecl) (r : Resolution) : (d.resolve c r).1.erase = d.erase := by
  obtain ⟨_, _, name, initializer, range, _⟩ := d
  rcases initializer with _ | e
  · simp [VarDecl.resolve, erase_resolveRange? _ range]
  · have plain := erase_resolveExpr? { c with declaring := some name.text } (some e)
    cases e with
    | guarded l e handler =>
      simp [VarDecl.resolve, erase_resolveRange? _ range, e.erase_resolve, erase_resolveBlock _ handler]
    | _ => simp only [VarDecl.resolve, VarDecl.erase, run_bind, run_pure, plain, erase_resolveRange? _ range]

lemma Stmt.erase_resolve (c : Site) (s : Stmt) (r : Resolution) : (s.resolve c r).1.erase = s.erase := by
  cases s with
  | var l d => simp [d.erase_resolve]
  | assign l target e => simp [target.erase_resolve, e.erase_resolve]
  | expr l e => simp [e.erase_resolve]
  | cond l bs otherwise => simp [erase_resolveBranches _ bs, erase_resolveBlock? _ otherwise]
  | whileLoop l e body => simp [e.erase_resolve, erase_resolveBlock _ body]
  | forLoop l init e update body =>
    simp [erase_resolveStmt? _ init, erase_resolveExpr? _ e, erase_resolveStmt? _ update, erase_resolveBlock _ body]
  | repeatLoop l e body => simp [e.erase_resolve, erase_resolveBlock _ body]
  | choose l e arms => simp [e.erase_resolve, erase_resolveArms _ arms]
  | switch l e bs otherwise => simp [e.erase_resolve, erase_resolveBranches _ bs, erase_resolveBlock? _ otherwise]
  | atomic l body => simp [erase_resolveBlock _ body]
  | ret l e => simp [erase_resolveExpr? _ e]
  | emit | breakLoop | continueLoop | native => simp

lemma erase_resolveStmt? (c : Site) (s : Option Stmt) (r : Resolution) :
    eraseStmt? (resolveStmt? c s r).1 = eraseStmt? s := by
  cases s with
  | none => rfl
  | some s => simp [s.erase_resolve]

lemma erase_resolveBlock (c : Site) (body : List Stmt) (r : Resolution) :
    eraseBlock (resolveBlock c body r).1 = eraseBlock body := by
  cases body with
  | nil => rfl
  | cons s ss => simp [s.erase_resolve, erase_resolveBlock _ ss]

lemma erase_resolveBlock? (c : Site) (body : Option (List Stmt)) (r : Resolution) :
    eraseBlock? (resolveBlock? c body r).1 = eraseBlock? body := by
  cases body with
  | none => rfl
  | some body => simp [erase_resolveBlock _ body]

lemma erase_resolveBranches (c : Site) (bs : List Branch) (r : Resolution) :
    eraseBranches (resolveBranches c bs r).1 = eraseBranches bs := by
  rcases bs with _ | ⟨⟨e, body⟩, bs⟩
  · rfl
  · simp [e.erase_resolve, erase_resolveBlock _ body, erase_resolveBranches _ bs]

lemma erase_resolveArms (c : Site) (as : List Arm) (r : Resolution) :
    eraseArms (resolveArms c as r).1 = eraseArms as := by
  rcases as with _ | ⟨⟨patterns, body⟩, as⟩
  · rfl
  · simp [erase_resolvePatterns _ patterns, erase_resolveBlock _ body, erase_resolveArms _ as]

lemma erase_resolvePatterns (c : Site) (ps : List Pattern) (r : Resolution) :
    erasePatterns (resolvePatterns c ps r).1 = erasePatterns ps := by
  rcases ps with _ | ⟨p, ps⟩
  · rfl
  · cases p with
    | wildcard l => simp [erase_resolvePatterns _ ps]
    | value l e => simp [e.erase_resolve, erase_resolvePatterns _ ps]

end

lemma erase_resolveCallable (kind : ScopeKind) (type : Option (Located TypeName)) (params : List Param)
    (body : List Stmt) (r : Resolution) : (resolveCallable c kind type params body r).1.1.map unnumberedParam =
      params.map unnumberedParam ∧ eraseBlock (resolveCallable c kind type params body r).1.2 = eraseBlock body := by
  have hp (c : Site) := map_mapM (f := (·.resolve c)) (g := unnumberedParam) (h := unnumberedParam) fun _ _ => rfl
  cases type <;> simp [resolveCallable, hp, erase_resolveBlock]

def FunctionDecl.erase (d : FunctionDecl) : FunctionDecl := { unnumberedFunction d with body := eraseBlock d.body }

def ClassDecl.erase (d : ClassDecl) : ClassDecl :=
  { d with
    fields := d.fields.map fun f => { f with value := f.value.erase }
    constructor := d.constructor.map fun k => ⟨k.loc, k.params.map unnumberedParam, eraseBlock k.body⟩
    methods := d.methods.map fun m => { m with value := m.value.erase }
    symbol := none }

mutual

def Item.erase : Item → Item
  | .config l entries => .config l (eraseFields entries)
  | .module l aliasName path _ program => .module l aliasName path none program.erase
  | .var l d => .var l d.erase
  | .aliasDecl l name e _ => .aliasDecl l name e.erase none
  | .function l d => .function l d.erase
  | .classDecl l d => .classDecl l d.erase
  | .event l kind body => .event l (unnumberedEvent kind) (eraseBlock body)
  | .interrupt l d => .interrupt l { d with pin := d.pin.erase, body := eraseBlock d.body }
  | .task l d => .task l { d with period := eraseExpr? d.period, body := eraseBlock d.body, symbol := none }
  | i => unnumberedItem i

def eraseItems : List Item → List Item
  | [] => []
  | i :: is => i.erase :: eraseItems is

def Program.erase : Program → Program
  | ⟨name, mainMark, items⟩ => ⟨name, mainMark, eraseItems items⟩

end

lemma eraseItems_eq (is : List Item) : eraseItems is = is.map Item.erase := eq_map rfl (fun _ _ => rfl) is

lemma FunctionDecl.erase_resolve (kind : ScopeKind) (d : FunctionDecl) (r : Resolution) :
    (d.resolve c kind r).1.erase = d.erase := by
  simp [FunctionDecl.resolve, FunctionDecl.erase, unnumberedFunction, erase_resolveCallable]

lemma ClassDecl.erase_declare (d : ClassDecl) (r : Resolution) : (d.declare c r).1.erase = d.erase := by
  simp only [ClassDecl.declare, ClassDecl.erase, run_bind, run_pure, ClassDecl.mk.injEq, true_and, and_true]
  refine ⟨map_mapM (fun f r => ?_) _ _, map_mapM (fun m r => ?_) _ _⟩
  · obtain ⟨⟨⟩, l⟩ := f
    rfl
  · rfl

lemma ClassDecl.erase_resolve (d : ClassDecl) (r : Resolution) : (d.resolve c r).1.erase = d.erase := by
  simp only [ClassDecl.resolve, ClassDecl.erase, run_bind, run_pure, ClassDecl.mk.injEq, true_and, and_true]
  refine ⟨map_mapM (fun f r => ?_) _ _, ?_, map_mapM (fun m r => ?_) _ _⟩
  · obtain ⟨⟨⟩, l⟩ := f
    simp [resolveField, erase_resolveExpr?]
  · cases d.constructor <;> simp [erase_resolveCallable]
  · simp [m.value.erase_resolve]

attribute [local simp] Item.resolve Item.erase

lemma Item.erase_resolve (i : Item) (r : Resolution) : (i.resolve c r).1.erase = i.erase := by
  cases i with
  | var l d => simp [d.erase_resolve]
  | aliasDecl l name e => simp [e.erase_resolve]
  | function l d => simp [d.erase_resolve]
  | classDecl l d => simp [d.erase_resolve]
  | event l kind body => cases kind <;> simp [unnumberedEvent, erase_resolveBlock]
  | interrupt l d => simp [d.pin.erase_resolve, erase_resolveBlock]
  | task l d => simp [erase_resolveExpr?, erase_resolveBlock]
  | _ => rfl

mutual

lemma Item.erase_declare (c : Site) (i : Item) (r : Resolution) : (i.declare c r).1.erase = i.erase := by
  cases i with
  | module l aliasName path symbol program =>
    simp [Item.declare, program.erase_resolveUnit]
  | classDecl l d => simp [Item.declare, d.erase_declare]
  | _ => rfl

lemma erase_declareItems (c : Site) (is : List Item) (r : Resolution) :
    eraseItems (declareItems c is r).1 = eraseItems is := by
  cases is with
  | nil => rfl
  | cons i is => simp [declareItems, eraseItems, i.erase_declare, erase_declareItems _ is]

lemma Program.erase_resolveUnit (c : Site) (p : Program) (r : Resolution) : (p.resolveUnit c r).1.erase = p.erase := by
  obtain ⟨_, _, items⟩ := p
  rw [Program.erase, ← erase_declareItems c items r, eraseItems_eq]
  simp only [Program.resolveUnit, Program.erase, run_bind, run_pure, eraseItems_eq]
  rw [map_mapM (Item.erase_resolve c)]

end

end

namespace Node

def erase : Node → Node
  | unit p => unit p.erase
  | item i => item i.erase
  | var d => var d.erase
  | stmt s => stmt s.erase
  | expr e => expr e.erase

lemma eraseExprs_eq (es : List Expr) : eraseExprs es = es.map Expr.erase := eq_map rfl (fun _ _ => rfl) es

lemma eraseBlock_eq (body : List Stmt) : eraseBlock body = body.map Stmt.erase := eq_map rfl (fun _ _ => rfl) body

lemma eraseFields_eq (fs : List FieldValue) : eraseFields fs = fs.map fun f => ⟨f.name, f.value.erase⟩ :=
  eq_map rfl (fun ⟨_, _⟩ _ => rfl) fs

lemma eraseBranches_eq (bs : List Branch) : eraseBranches bs = bs.map fun b => ⟨b.test.erase, eraseBlock b.body⟩ :=
  eq_map rfl (fun ⟨_, _⟩ _ => rfl) bs

lemma eraseArms_eq (as : List Arm) : eraseArms as = as.map fun a => ⟨erasePatterns a.patterns, eraseBlock a.body⟩ :=
  eq_map rfl (fun ⟨_, _⟩ _ => rfl) as

def erasePattern : Pattern → Pattern
  | .wildcard l => .wildcard l
  | .value l e => .value l e.erase

lemma erasePatterns_eq (ps : List Pattern) : erasePatterns ps = ps.map erasePattern :=
  eq_map rfl (fun p _ => by cases p <;> rfl) ps

lemma eraseExpr?_eq (e : Option Expr) : eraseExpr? e = e.map Expr.erase := by cases e <;> rfl

lemma eraseStmt?_eq (s : Option Stmt) : eraseStmt? s = s.map Stmt.erase := by cases s <;> rfl

lemma eraseBlock?_eq (body : Option (List Stmt)) : eraseBlock? body = body.map eraseBlock := by cases body <;> rfl

lemma eraseRange?_eq (x : Option Range) : eraseRange? x = x.map fun r => ⟨r.min.erase, r.max.erase⟩ := by
  rcases x with _ | ⟨⟨⟩⟩ <;> rfl

attribute [local simp] Expr.erase VarDecl.erase Stmt.erase Item.erase Program.erase FunctionDecl.erase ClassDecl.erase
  eraseExprs_eq eraseBlock_eq eraseFields_eq eraseBranches_eq eraseItems_eq erasePatterns_eq eraseArms_eq eraseExpr?_eq
  eraseStmt?_eq eraseBlock?_eq eraseRange?_eq erase unnumberedItem unnumberedFunction Function.comp_def
  children ofBlock form bare unnumbered

lemma children_erase (n : Node) : n.erase.children = n.children.map erase := by
  have hblock? (b : Option (List Stmt)) : ofBlock? (b.map eraseBlock) = (ofBlock? b).map erase := by
    cases b <;> simp [ofBlock?]
  have hexpr? (e : Option Expr) : ofExpr? (e.map Expr.erase) = (ofExpr? e).map erase := by cases e <;> rfl
  have hstmt? (s : Option Stmt) : ofStmt? (s.map Stmt.erase) = (ofStmt? s).map erase := by cases s <;> rfl
  have hpattern (p : Pattern) : ofPattern (erasePattern p) = (ofPattern p).map erase := by cases p <;> rfl
  cases n with
  | unit p =>
    obtain ⟨name, _, _⟩ := p
    simp
  | item i =>
    cases i with
    | classDecl l d =>
      obtain ⟨_, _, constructor, _, _⟩ := d
      cases constructor <;> simp [ofConstructor?, flatMap_map, map_flatMap]
    | _ => simp [hexpr?]
  | var d =>
    obtain ⟨_, _, _, _, range, _⟩ := d
    cases range <;> simp [hexpr?, ofRange?]
  | stmt s =>
    cases s <;> simp [hblock?, hexpr?, hstmt?, hpattern, map_flatMap, flatMap_map, ofBranch, ofArm]
  | expr e => cases e <;> simp

lemma form_erase (n : Node) : n.erase.form = n.form := by
  have hblock (body : List Stmt) : bareBlock (body.map Stmt.erase) = bareBlock body := by simp [bareBlock]
  have hpattern (p : Pattern) : barePattern (erasePattern p) = barePattern p := by cases p <;> rfl
  have hparam (p : Param) : unnumberedParam (unnumberedParam p) = unnumberedParam p := rfl
  have hevent (x : Event) : unnumberedEvent (unnumberedEvent x) = unnumberedEvent x := by cases x <;> rfl
  cases n with
  | unit p =>
    cases p
    simp
  | item i => cases i <;> simp [bareItem, bareField, bareFunction, bareClass, unnumberedClass, hparam, hblock, hevent]
  | var d =>
    cases d
    simp
  | stmt s => cases s <;> simp [bareStmt, bareBranch, bareArm, hblock, hpattern]
  | expr e => cases e <;> simp [bareExpr, bareField, hblock]

lemma at?_erase (n : Node) (a : List Nat) : n.erase.at? a = (n.at? a).map erase := at?_map children_erase n a

lemma Alike.of_erase {n m : Node} (h : n.erase = m.erase) : n.Alike m := by
  have hform (n : Node) (a : List Nat) : (n.at? a).map form = (n.erase.at? a).map form := by
    simp only [at?_erase, Option.map_map, Function.comp_def, form_erase]
  intro a
  rw [hform n, h, ← hform m]

end Node

lemma length_declareItems (is : List Item) (r : Resolution) : (declareItems c is r).1.length = is.length := by
  simpa only [eraseItems_eq, length_map] using congrArg length (erase_declareItems c is r)

lemma Program.alike_resolveUnit (p : Program) (r : Resolution) : (unit (p.resolveUnit c r).1).Alike (unit p) :=
  .of_erase (congrArg unit (p.erase_resolveUnit c r))

lemma Program.alike_resolveNames (p : Program) : (unit p.resolveNames.1).Alike (unit p) := by
  unfold resolveNames
  generalize SymbolTable.ofBuiltins = builtins
  exact p.alike_resolveUnit _ _

namespace Node

variable {n m k : Node} {a : List Nat}

lemma Alike.at? (h : n.Alike m) (ha : n.at? a = some k) : ∃ k', m.at? a = some k' ∧ k.Alike k' := by
  have hf := h a
  rw [ha] at hf
  obtain ⟨k', hk', -⟩ := Option.map_eq_some_iff.mp hf.symm
  refine ⟨k', hk', fun b => ?_⟩
  have hb := h (a ++ b)
  rwa [at?_append, at?_append, ha, hk'] at hb

lemma Alike.form_eq (h : n.Alike m) : n.form = m.form := Option.some.inj (h [])

lemma isClamp_form (n : Node) : n.form.isClamp = n.isClamp := by
  cases n with
  | expr e => cases e <;> rfl
  | stmt s => cases s <;> rfl
  | _ => rfl

lemma Alike.isClamp_eq (h : n.Alike m) : n.isClamp = m.isClamp := by
  rw [← isClamp_form, h.form_eq, isClamp_form]

lemma words_form (n : Node) : n.form.words = n.words := by
  cases n with
  | item i => cases i <;> rfl
  | stmt s => cases s <;> rfl
  | expr e => cases e <;> rfl
  | _ => rfl

lemma Alike.words_eq (h : n.Alike m) : n.words = m.words := by
  rw [← words_form, h.form_eq, words_form]

lemma number?_form (n : Node) : n.form.number? = n.number? := by
  cases n with
  | stmt s => cases s <;> rfl
  | expr e => cases e <;> rfl
  | _ => rfl

lemma Alike.number?_eq (h : n.Alike m) : n.number? = m.number? := by
  rw [← number?_form, h.form_eq, number?_form]

lemma Alike.plain (h : n.Alike m) (hm : m.Plain) : n.Plain := by
  intro k hk
  obtain ⟨a, ha⟩ := mem_nodes.mp hk
  obtain ⟨k', hk', hkk⟩ := h.at? ha
  obtain ⟨e, rfl⟩ := hm k' (mem_nodes.mpr ⟨a, hk'⟩)
  have hf := hkk.form_eq
  cases k with
  | expr e' => exact ⟨e', rfl⟩
  | stmt s => cases s <;> cases e <;> cases hf
  | _ => cases e <;> cases hf

lemma children_eq_settings (n : Node) : ∃ ns, n.children = n.settings ++ ns := by
  cases n with
  | item i =>
    cases i with
    | config l entries => exact ⟨[], (append_nil _).symm⟩
    | _ => exact ⟨_, rfl⟩
  | var d => exact ⟨_, rfl⟩
  | _ => exact ⟨_, rfl⟩

lemma length_settings_form (n : Node) : n.form.settings.length = n.settings.length := by
  cases n with
  | item i => cases i <;> simp [form, bare, bareItem, unnumbered, unnumberedItem, settings]
  | var d =>
    obtain ⟨_, _, _, _, range, _⟩ := d
    cases range <;> rfl
  | stmt s => cases s <;> rfl
  | expr e => cases e <;> rfl
  | unit p => rfl

lemma Alike.plain_settings (h : n.Alike m) (hm : ∀ c ∈ m.settings, c.Plain) {c : Node} (hc : c ∈ n.settings) :
    c.Plain := by
  obtain ⟨i, hi⟩ := getElem?_of_mem hc
  have hlt : i < m.settings.length := by
    rw [← m.length_settings_form, ← h.form_eq, n.length_settings_form]
    exact lt_of_getElem? hi
  obtain ⟨ns, hns⟩ := n.children_eq_settings
  obtain ⟨ms, hms⟩ := m.children_eq_settings
  have hci : n.at? [i] = some c := by
    rw [Node.at?, hns, getElem?_append_left (lt_of_getElem? hi), hi]
    rfl
  obtain ⟨c', hc', hcc⟩ := h.at? hci
  rw [Node.at?, hms, getElem?_append_left hlt, getElem?_eq_getElem hlt] at hc'
  cases hc'
  exact hcc.plain (hm _ (getElem_mem hlt))

end Node

namespace Program

variable {p q : Program} {r : Except (List (Located NameError)) SymbolTable} {n : Node}
variable (hp : p.Read) (h : p.resolveNames = (q, r)) (hn : n ∈ (unit q).nodes)

include hp h hn

lemma Read.alike : ∃ m, m.IsFresh ∧ n.Alike m := by
  have hq := p.alike_resolveNames
  rw [h] at hq
  obtain ⟨a, ha⟩ := mem_nodes.mp hn
  obtain ⟨m, hm, hnm⟩ := hq.at? ha
  exact ⟨m, hp.fresh m (mem_nodes.mpr ⟨a, hm⟩), hnm⟩

lemma Read.isWord_of_mem {x : String} (hx : x ∈ n.words) : IsWord x.toList := by
  obtain ⟨m, ⟨-, -, -, hw, -⟩, hnm⟩ := hp.alike h hn
  exact hw x (hnm.words_eq ▸ hx)

lemma Read.isSpelled_of_number {v} (hv : n.number? = some v) : ∃ unit, (Token.number v unit).IsSpelled := by
  obtain ⟨m, ⟨-, -, -, -, hm, -⟩, hnm⟩ := hp.alike h hn
  exact hm v (hnm.number?_eq ▸ hv)

lemma Read.not_isClamp : n.isClamp = false := by
  obtain ⟨m, ⟨-, hm, -⟩, hnm⟩ := hp.alike h hn
  rwa [hnm.isClamp_eq]

lemma Read.plain_settings {c : Node} (hc : c ∈ n.settings) : c.Plain := by
  obtain ⟨m, ⟨-, -, hm, -⟩, hnm⟩ := hp.alike h hn
  exact hnm.plain_settings hm hc

end Program

end SketchCompiler
