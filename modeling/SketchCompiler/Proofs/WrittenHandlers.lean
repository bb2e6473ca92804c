import SketchCompiler.Proofs.JumpTargets

namespace SketchCompiler

open List

variable {written : Nat → Node → Bool} (l : Location) (e : Expr) (body : List Stmt) (d : VarDecl) (found : Bool)

lemma filterMap_filter_eq_iff {α β : Type} {P : α → Bool} {g : α → Option β} {as : List α} :
    (as.filter P).filterMap g = as.filterMap g ↔ ∀ a ∈ as, (g a).isSome → P a := by
  induction as with
  | nil => simp
  | cons a as ih =>
    have hshort : ((as.filter P).filterMap g).length ≤ (as.filterMap g).length := (filter_sublist.filterMap g).length_le
    cases hg : g a with
    | none =>
      rw [filterMap_cons_none hg]
      cases hP : P a <;> simp [hP, hg, ih]
    | some b =>
      rw [filterMap_cons_some hg]
      cases hP : P a with
      | true => simp [hP, hg, ih]
      | false =>
        rw [filter_cons_of_neg (by simp [hP])]
        refine iff_of_false (fun h => ?_) (by simp [hP, hg])
        rw [h, length_cons] at hshort
        omega

namespace Node

/-- The handler of a guarded value, with the place of the value in the text. -/
def handler? : Node → Option (Location × List Stmt)
  | expr (.guarded l _ handler) => some (l, handler)
  | _ => none

def handlers (n : Node) : List (Location × List Stmt) := n.places.filterMap (·.2.handler?)

/-- The handlers at and below the node with a way that is written. -/
def writtenHandlers (k : Scene) (n : Node) : List (Location × List Stmt) :=
  (n.places.filter fun x => n.Written k x.1).filterMap (·.2.handler?)

variable {k : Scene} {n c : Node} {cs : List Node}

lemma isSome_handler? (n : Node) : n.handler?.isSome = n.isGuarded := by
  cases n with
  | expr e => cases e <;> rfl
  | _ => rfl

lemma writtenHandlers_eq_iff : n.writtenHandlers k = n.handlers ↔
    ∀ a m, n.at? a = some m → m.isGuarded → n.Written k a := by
  rw [writtenHandlers, handlers, filterMap_filter_eq_iff]
  simp only [Prod.forall, mem_places, isSome_handler?, decide_eq_true_eq]

/-- The handlers of the children of a node that are written, where `written` tells which these are. -/
def childHandlers (k : Scene) (written : Nat → Node → Bool) (start : Nat) (cs : List Node) :
    List (Location × List Stmt) :=
  (cs.zipIdx start).flatMap fun x => if written x.2 x.1 then x.1.writtenHandlers k else []

lemma zipIdx_eq_map {α : Type} (as : List α) :
    as.zipIdx = (List.finRange as.length).map fun i => (as.get i, i.val) := by
  refine ext_getElem (by simp) fun i hi hi' => ?_
  simp

lemma writtenHandlers_eq (n : Node) :
    n.writtenHandlers k = n.handler?.toList ++ childHandlers k (n.writes k) 0 n.children := by
  have hchild {i : Nat} {c : Node} (hc : n.children[i]? = some c) :
      ((c.places.map fun x => (i :: x.1, x.2)).filter fun x => n.Written k x.1).filterMap (·.2.handler?) =
        if n.writes k i c then c.writtenHandlers k else [] := by
    have hw (a : List Nat) : n.Written k (i :: a) ↔ n.writes k i c ∧ c.Written k a := by simp [Written, hc]
    rw [filter_map, filterMap_map]
    cases hi : n.writes k i c <;> simp [Function.comp_def, hw, hi, writtenHandlers]
  have htop : decide (n.Written k ([], n).1) = true := decide_eq_true trivial
  rw [writtenHandlers, places, childHandlers, zipIdx_eq_map, flatMap_map,
    filter_cons_of_pos (p := fun x : List Nat × Node => decide (n.Written k x.1)) htop, filter_flatMap]
  have hflat : ((List.finRange n.children.length).flatMap fun i =>
      ((n.children.get i).places.map fun x => (i.val :: x.1, x.2)).filter fun x => n.Written k x.1).filterMap
        (·.2.handler?) = (List.finRange n.children.length).flatMap fun i =>
          if n.writes k i.val (n.children.get i) then (n.children.get i).writtenHandlers k else [] := by
    rw [filterMap_flatMap]
    exact flatMap_congr fun i _ => hchild (by simp)
  rw [filterMap_cons, hflat]
  dsimp only
  cases n.handler? <;> rfl

lemma childHandlers_cons (written : Nat → Node → Bool) (start : Nat) (c : Node) (cs : List Node) :
    childHandlers k written start (c :: cs) =
      (if written start c then c.writtenHandlers k else []) ++ childHandlers k written (start + 1) cs := rfl

lemma childHandlers_append (written : Nat → Node → Bool) (start : Nat) (cs ds : List Node) :
    childHandlers k written start (cs ++ ds) =
      childHandlers k written start cs ++ childHandlers k written (start + cs.length) ds := by
  simp [childHandlers, zipIdx_append]

lemma childHandlers_of_const {start : Nat} (mark : Node → Bool)
    (h : ∀ i c, cs[i]? = some c → written (start + i) c = mark c) :
    childHandlers k written start cs = cs.flatMap fun c => if mark c then c.writtenHandlers k else [] := by
  induction cs generalizing start with
  | nil => rfl
  | cons c cs ih =>
    have hrest : childHandlers k written (start + 1) cs = _ := ih fun i c hc => by
      rw [Nat.add_assoc, Nat.add_comm 1]
      exact h (i + 1) c hc
    have hhead : written start c = mark c := h 0 c rfl
    rw [childHandlers_cons, flatMap_cons, hrest, hhead]

lemma writtenHandlers_of_const (mark : Node → Bool) (hn : n.handler? = none)
    (hw : ∀ i c, n.children[i]? = some c → n.writes k i c = mark c) :
    n.writtenHandlers k = n.children.flatMap fun c => if mark c then c.writtenHandlers k else [] := by
  rw [writtenHandlers_eq, hn, childHandlers_of_const mark fun i c hc => by simpa using hw i c hc]
  rfl

def stmtHandlers (k : Scene) (cs : List Node) : List (Location × List Stmt) :=
  cs.flatMap fun c => if c.isStmt then c.writtenHandlers k else []

end Node

def blockHandlers (k : Scene) (body : List Stmt) : List (Location × List Stmt) :=
  body.flatMap fun s => (Node.stmt s).writtenHandlers k

namespace Node

section Statements

variable {k : Scene} {n c : Node} {cs : List Node} {start : Nat}

@[simp]
lemma stmtHandlers_nil : stmtHandlers k [] = [] := rfl

@[simp]
lemma stmtHandlers_expr (cs : List Node) : stmtHandlers k (expr e :: cs) = stmtHandlers k cs := rfl

@[simp]
lemma stmtHandlers_append (cs ds : List Node) : stmtHandlers k (cs ++ ds) = stmtHandlers k cs ++ stmtHandlers k ds :=
  flatMap_append

@[simp]
lemma stmtHandlers_ofBlock : stmtHandlers k (ofBlock body) = blockHandlers k body := by
  simp [stmtHandlers, ofBlock, blockHandlers, flatMap_map, isStmt]

@[simp]
lemma stmtHandlers_ofBlock? (body : Option (List Stmt)) :
    stmtHandlers k (ofBlock? body) = body.toList.flatMap (blockHandlers k) := by
  cases body <;> simp [ofBlock?]

@[simp]
lemma stmtHandlers_ofBranches (bs : List Branch) :
    stmtHandlers k (bs.flatMap ofBranch) = bs.flatMap fun b => blockHandlers k b.body := by
  induction bs with
  | nil => rfl
  | cons b bs ih => simp [ofBranch, ih]

lemma writtenHandlers_of_isStmt (hn : n.handler? = none)
    (hw : ∀ i c, n.children[i]? = some c → n.writes k i c = c.isStmt) :
    n.writtenHandlers k = stmtHandlers k n.children :=
  writtenHandlers_of_const isStmt hn hw

lemma writtenHandlers_of_false (hn : n.handler? = none)
    (hw : ∀ i c, n.children[i]? = some c → n.writes k i c = false) : n.writtenHandlers k = [] := by
  rw [writtenHandlers_of_const (fun _ => false) hn hw]
  simp

lemma writtenHandlers_guarded (handler : List Stmt) :
    (expr (.guarded l e handler)).writtenHandlers k = (l, handler) :: blockHandlers k handler := by
  rw [writtenHandlers_eq, childHandlers_of_const isStmt fun _ _ _ => rfl]
  exact congrArg _ (stmtHandlers_ofBlock handler)

attribute [local simp] childHandlers writes

lemma writtenHandlers_clamp (l l' : Location) (e min max : Expr) (handler : List Stmt) :
    (expr (.clamp l (.guarded l' e handler) min max)).writtenHandlers k = (l', handler) :: blockHandlers k handler := by
  rw [writtenHandlers_eq, ← writtenHandlers_guarded l' e handler]
  simp [children, isGuarded, handler?]

lemma writtenHandlers_of_handler? {e : Expr} (h : e.handler? = none) : (expr e).writtenHandlers k = [] := by
  cases e with
  | guarded l v handler => cases h
  | clamp l v min max =>
    refine writtenHandlers_of_false rfl fun i c hc => ?_
    rcases i with _ | i
    · obtain rfl := Option.some.inj hc
      cases v with
      | guarded l v handler => cases h
      | _ => rfl
    · simp
  | _ => exact writtenHandlers_of_false rfl fun _ _ _ => rfl

lemma childHandlers_eq_nil (h : ∀ i c, cs[i]? = some c → written (start + i) c = false) :
    childHandlers k written start cs = [] := by
  rw [childHandlers_of_const (fun _ => false) h]
  simp

lemma childHandlers_ofBlock {body} (h : ∀ i s, body[i]? = some s → written (start + i) (stmt s) = true) :
    childHandlers k written start (ofBlock body) = blockHandlers k body := by
  have hstmt : ∀ i c, (ofBlock body)[i]? = some c → written (start + i) c = c.isStmt := by
    intro i c hc
    rw [ofBlock, getElem?_map] at hc
    obtain ⟨s, hs, rfl⟩ := Option.map_eq_some_iff.mp hc
    exact h i s hs
  rw [childHandlers_of_const isStmt hstmt]
  exact stmtHandlers_ofBlock body

lemma writtenHandlers_var : (var d).writtenHandlers k =
    if (d.symbol.bind k.plan.instance?).isNone then d.initializer.toList.flatMap fun e => (expr e).writtenHandlers k
    else [] := by
  rw [writtenHandlers_eq, children, childHandlers_append, childHandlers_eq_nil]
  · cases d.initializer <;> simp [ofExpr?, handler?]
  · intro i c hc
    have hi := lt_of_getElem? hc
    simp [hi.ne]

lemma writtenHandlers_forLoop (init : Option Stmt) (e : Option Expr) (update : Option Stmt)
    (body : List Stmt) : (stmt (.forLoop l init e update body)).writtenHandlers k = blockHandlers k body := by
  rw [writtenHandlers_eq, children, childHandlers_append, childHandlers_eq_nil, childHandlers_ofBlock]
  · rfl
  · intro i s hs
    simp
  · intro i c hc
    have hi := lt_of_getElem? hc
    simpa using hi

def markedHandlers (k : Scene) (marks : List Bool) (cs : List Node) : List (Location × List Stmt) :=
  (marks.zip cs).flatMap fun x => if x.1 then x.2.writtenHandlers k else []

lemma markedHandlers_append {marks marks' : List Bool} (hl : marks.length = cs.length) :
    markedHandlers k (marks ++ marks') (cs ++ ds) = markedHandlers k marks cs ++ markedHandlers k marks' ds := by
  rw [markedHandlers, zip_append hl, flatMap_append]
  rfl

lemma childHandlers_marks (before marks : List Bool) (hl : marks.length = cs.length) :
    childHandlers k (fun i _ => (before ++ marks)[i]?.getD false) before.length cs = markedHandlers k marks cs := by
  induction cs generalizing before marks with
  | nil => simp [markedHandlers]
  | cons c cs ih =>
    rcases marks with _ | ⟨mark, marks⟩
    · cases hl
    · have hrest := ih (before ++ [mark]) marks (by simpa using hl)
      rw [append_assoc, length_append] at hrest
      have hhead : (before ++ mark :: marks)[before.length]?.getD false = mark := by simp
      rw [childHandlers_cons, hhead]
      exact congrArg _ hrest

/-- The handlers of the arms that are written. Of the arms with a wildcard it is only the first, if none was found. -/
def armHandlers (k : Scene) (found : Bool) : List Arm → List (Location × List Stmt)
  | [] => []
  | ⟨patterns, body⟩ :: as =>
    let wild := patterns.any (·.isWildcard)
    (if wild && found then [] else blockHandlers k body) ++ armHandlers k (found || wild) as

def wildcardHandlers (k : Scene) : List Arm → List (Location × List Stmt)
  | [] => []
  | ⟨patterns, body⟩ :: as =>
    if patterns.any (·.isWildcard) then blockHandlers k body else wildcardHandlers k as

lemma armHandlers_perm (arms : List Arm) :
    (armHandlers k true arms ++ wildcardHandlers k arms).Perm (armHandlers k false arms) := by
  induction arms with
  | nil => exact .refl _
  | cons arm as ih =>
    obtain ⟨patterns, body⟩ := arm
    cases h : patterns.any (·.isWildcard) with
    | true => simpa [armHandlers, wildcardHandlers, h] using perm_append_comm
    | false => simpa [armHandlers, wildcardHandlers, h] using ih.append_left (blockHandlers k body)

lemma length_armsWritten (arms : List Arm) :
    (armsWritten found arms).length = (arms.flatMap ofArm).length := by
  induction arms generalizing found with
  | nil => rfl
  | cons arm as ih =>
    cases arm
    simp [armsWritten, ofArm, length_ofBlock, ih]

lemma markedHandlers_arms (arms : List Arm) :
    markedHandlers k (armsWritten found arms) (arms.flatMap ofArm) = armHandlers k found arms := by
  have skipped (as cs : List Node) : markedHandlers k (as.map fun _ => false) cs = [] := by
    refine flatMap_eq_nil_iff.mpr fun x hx => ?_
    obtain ⟨n, -, hn⟩ := mem_map.mp (of_mem_zip hx).1
    rw [← hn]
    rfl
  have block (mark : Bool) (body : List Stmt) : markedHandlers k (body.map fun _ => mark) (ofBlock body) =
      if mark then blockHandlers k body else [] := by
    cases mark with
    | false => simpa [ofBlock] using skipped (ofBlock body) (ofBlock body)
    | true =>
      rw [markedHandlers, ofBlock, zip_map', flatMap_map]
      rfl
  induction arms generalizing found with
  | nil => rfl
  | cons arm as ih =>
    obtain ⟨patterns, _⟩ := arm
    rw [armsWritten, flatMap_cons, markedHandlers_append (by simp [ofArm, length_ofBlock]), ofArm,
      markedHandlers_append (by simp), ih, skipped, block, armHandlers]
    cases patterns.any (·.isWildcard) && found <;> rfl

lemma writtenHandlers_choose (arms : List Arm) :
    (stmt (.choose l e arms)).writtenHandlers k = armHandlers k false arms := by
  rw [writtenHandlers_eq, ← markedHandlers_arms]
  have hl : (false :: armsWritten false arms).length = (expr e :: arms.flatMap ofArm).length := by
    simp [length_armsWritten]
  exact childHandlers_marks [] _ hl

section Cases

attribute [local simp] children

lemma writtenHandlers_varStmt : (stmt (.var l d)).writtenHandlers k = (var d).writtenHandlers k := by
  rw [writtenHandlers_of_const (fun _ => true) rfl (by simp)]
  simp

lemma writtenHandlers_assign (target e : Expr) :
    (stmt (.assign l target e)).writtenHandlers k = (expr e).writtenHandlers k := by
  rw [writtenHandlers_eq]
  simp [handler?]

lemma writtenHandlers_exprStmt : (stmt (.expr l e)).writtenHandlers k = (expr e).writtenHandlers k := by
  rw [writtenHandlers_of_const (fun _ => true) rfl (by simp)]
  simp

lemma writtenHandlers_cond (branches : List Branch) (otherwise : Option (List Stmt)) :
    (stmt (.cond l branches otherwise)).writtenHandlers k =
      (branches.flatMap fun b => blockHandlers k b.body) ++ otherwise.toList.flatMap (blockHandlers k) := by
  rw [writtenHandlers_of_isStmt rfl (by simp)]
  simp

lemma writtenHandlers_whileLoop :
    (stmt (.whileLoop l e body)).writtenHandlers k = blockHandlers k body := by
  rw [writtenHandlers_of_isStmt rfl (by simp)]
  simp

lemma writtenHandlers_repeatLoop :
    (stmt (.repeatLoop l e body)).writtenHandlers k = blockHandlers k body := by
  rw [writtenHandlers_of_isStmt rfl (by simp)]
  simp

lemma writtenHandlers_switch (cases : List Branch) (otherwise : Option (List Stmt)) :
    (stmt (.switch l e cases otherwise)).writtenHandlers k =
      (cases.flatMap fun b => blockHandlers k b.body) ++ otherwise.toList.flatMap (blockHandlers k) := by
  rw [writtenHandlers_of_isStmt rfl (by simp)]
  simp

lemma writtenHandlers_atomic : (stmt (.atomic l body)).writtenHandlers k = blockHandlers k body := by
  rw [writtenHandlers_of_isStmt rfl (by simp)]
  simp

lemma writtenHandlers_unit (p : Program) :
    (unit p).writtenHandlers k = p.items.flatMap fun i => (item i).writtenHandlers k := by
  rw [writtenHandlers_of_const (fun _ => true) rfl (by simp)]
  simp [flatMap_map]

lemma writtenHandlers_module (aliasName : Name) (path : String) (symbol : Option SymbolId)
    (p : Program) : (item (.module l aliasName path symbol p)).writtenHandlers k = (unit p).writtenHandlers k := by
  rw [writtenHandlers_of_const (fun _ => true) rfl (by simp)]
  simp

lemma writtenHandlers_varItem :
    (item (.var l d)).writtenHandlers k = if d.symbol.isSome then (var d).writtenHandlers k else [] := by
  rw [writtenHandlers_of_const (fun _ => d.symbol.isSome) rfl (by simp)]
  simp

lemma writtenHandlers_function (d : FunctionDecl) :
    (item (.function l d)).writtenHandlers k = blockHandlers k d.body := by
  rw [writtenHandlers_of_isStmt rfl (by simp)]
  simp

lemma writtenHandlers_classDecl (d : ClassDecl) : (item (.classDecl l d)).writtenHandlers k =
    (d.constructor.toList.flatMap fun c => blockHandlers k c.body) ++
      d.methods.flatMap fun m => blockHandlers k m.value.body := by
  have hfields : stmtHandlers k (d.fields.map fun f => var f.value) = [] := by simp [stmtHandlers, isStmt]
  have hmethods : stmtHandlers k (d.methods.flatMap fun m => ofBlock m.value.body) =
      d.methods.flatMap fun m => blockHandlers k m.value.body := by
    rw [stmtHandlers, flatMap_assoc]
    exact flatMap_congr fun m _ => stmtHandlers_ofBlock m.value.body
  rw [writtenHandlers_of_isStmt rfl (by simp)]
  cases hc : d.constructor <;> simp [hfields, hmethods, hc, ofConstructor?]

lemma writtenHandlers_event (kind : Event) (body : List Stmt) :
    (item (.event l kind body)).writtenHandlers k = blockHandlers k body := by
  rw [writtenHandlers_of_isStmt rfl (by simp)]
  simp

lemma writtenHandlers_interrupt (d : InterruptDecl) :
    (item (.interrupt l d)).writtenHandlers k = blockHandlers k d.body := by
  rw [writtenHandlers_of_isStmt rfl (by simp)]
  simp

lemma writtenHandlers_task (d : TaskDecl) : (item (.task l d)).writtenHandlers k = blockHandlers k d.body := by
  rw [writtenHandlers_of_isStmt rfl (by simp)]
  cases hd : d.period <;> simp [ofExpr?, hd]

end Cases

end Statements

section Transformed

variable {k : Scene} {f : Transform} {n c : Node} {cs : List Node}

lemma handler?_transform (n : Node) :
    (n.transform f).handler? = n.handler?.map fun x => (x.1, transformBlock f x.2) := by
  cases n with
  | expr e => cases e <;> rfl
  | _ => rfl

lemma isGuarded_transform (c : Node) : (c.transform f).isGuarded = c.isGuarded := by
  cases c with
  | expr e => cases e <;> rfl
  | _ => rfl

lemma any_isWildcard_transform (ps : List Pattern) :
    (transformPatterns f ps).any (·.isWildcard) = ps.any (·.isWildcard) := by
  induction ps with
  | nil => rfl
  | cons p ps ih =>
    cases p with
    | wildcard l => rfl
    | value l e => exact ih

lemma armsWritten_transform (arms : List Arm) :
    armsWritten found (transformArms f arms) = armsWritten found arms := by
  induction arms generalizing found with
  | nil => rfl
  | cons arm as ih =>
    cases arm
    rw [transformArms, armsWritten, armsWritten, any_isWildcard_transform, ih, ofPatterns_transform, transformBlock_eq,
      map_map, map_map]
    rfl

lemma writes_transform (n c : Node) (i : Nat) : (n.transform f).writes k i (c.transform f) = n.writes k i c := by
  cases n with
  | unit p => rfl
  | item x =>
    cases x with
    | var l d => rw [transform, Item.transform, writes, writes, d.symbol_transform f]
    | function | classDecl | event | interrupt | task => exact c.isStmt_transform
    | _ => rfl
  | var d =>
    obtain ⟨_, _, _, _, range, _⟩ := d
    rcases range with _ | ⟨min, max⟩ <;> rfl
  | stmt s =>
    cases s with
    | forLoop l init e update body => cases init <;> cases e <;> cases update <;> rfl
    | choose l e arms => rw [transform, Stmt.transform, writes, writes, armsWritten_transform]
    | cond | whileLoop | repeatLoop | switch | atomic => exact c.isStmt_transform
    | _ => rfl
  | expr e =>
    cases e with
    | guarded l v handler => exact c.isStmt_transform
    | clamp l v min max => exact congrArg (· && i == 0) c.isGuarded_transform
    | _ => rfl

lemma writes_store {x} (hs : n.store? = some x) (i : Nat) (c c' : Node) :
    (n.transform f).writes k i c = (n.transform f).writes k i c' := by
  cases n with
  | var d => rfl
  | stmt s =>
    cases s with
    | assign l target e => rfl
    | _ => cases hs
  | _ => cases hs

def transformHandler (f : Transform) (x : Location × List Stmt) : Location × List Stmt := (x.1, transformBlock f x.2)

lemma childHandlers_transform {written' : Nat → Node → Bool} {start}
    (hw : ∀ i c, written' i (c.transform f) = written i c)
    (hc : ∀ c ∈ cs, (c.transform f).writtenHandlers k = (c.writtenHandlers k).map (transformHandler f)) :
    childHandlers k written' start (cs.map (transform f)) =
      (childHandlers k written start cs).map (transformHandler f) := by
  induction cs generalizing start with
  | nil => rfl
  | cons c cs ih =>
    rw [map_cons, childHandlers_cons, childHandlers_cons, map_append, hw,
      ih fun c h => hc c (mem_cons_of_mem _ h), hc c mem_cons_self]
    cases written start c <;> rfl

lemma writtenHandlers_transform (hf : ∀ symbol e, (expr e).isClamp = false →
      (expr (f.stored symbol e)).writtenHandlers k = (expr e).writtenHandlers k)
    (hn : ∀ m ∈ n.nodes, m.isClamp = false) :
    (n.transform f).writtenHandlers k = (n.writtenHandlers k).map (transformHandler f) := by
  induction n using induct with
  | h n ih =>
    have hbelow {c : Node} (hc : c ∈ n.children) : ∀ m ∈ c.nodes, m.isClamp = false :=
      fun m hm => hn m (mem_nodes_iff.mpr (.inr ⟨c, hc, hm⟩))
    have ih' : ∀ c ∈ n.children, (c.transform f).writtenHandlers k = (c.writtenHandlers k).map (transformHandler f) :=
      fun c hc => ih c hc (hbelow hc)
    have hown : (n.transform f).handler?.toList = n.handler?.toList.map (transformHandler f) := by
      rw [handler?_transform]
      cases n.handler? <;> rfl
    rw [writtenHandlers_eq, writtenHandlers_eq, hown, map_append]
    congr 1
    cases hs : n.store? with
    | none =>
      rw [children_transform f hs]
      exact childHandlers_transform (fun i c => n.writes_transform c i) ih'
    | some x =>
      obtain ⟨symbol, e⟩ := x
      obtain ⟨cs, hcs, ht⟩ := children_store f hs
      have hmem : expr e ∈ n.children := hcs ▸ mem_append_right _ (mem_singleton_self _)
      have he : ((expr e).transform f).isClamp = false := (isClamp_transform f _).trans (hbelow hmem _ mem_nodes_self)
      have hwrites (i : Nat) : (n.transform f).writes k i (expr (f.stored symbol (e.transform f))) =
          n.writes k i (expr e) := (writes_store hs i _ _).trans (n.writes_transform (expr e) i)
      have hvalue : (expr (f.stored symbol (e.transform f))).writtenHandlers k =
          ((expr e).writtenHandlers k).map (transformHandler f) := (hf symbol _ he).trans (ih' _ hmem)
      rw [hcs, ht, childHandlers_append, childHandlers_append, map_append,
        childHandlers_transform (fun i c => n.writes_transform c i) fun c hc => ih' c (hcs ▸ mem_append_left _ hc),
        childHandlers_cons, childHandlers_cons, length_map, hwrites, hvalue]
      cases n.writes k (0 + cs.length) (expr e) <;> simp [childHandlers]

lemma writtenHandlers_clampTo (ranges : RangeTable) (symbol : Option SymbolId) {e : Expr}
    (he : (expr e).isClamp = false) :
    (expr (e.clampTo ranges symbol)).writtenHandlers k = (expr e).writtenHandlers k := by
  unfold Expr.clampTo
  split
  · cases e with
    | guarded l v handler => rw [writtenHandlers_clamp, writtenHandlers_guarded]
    | clamp l v min max => cases he
    | _ => rw [writtenHandlers_of_handler? rfl, writtenHandlers_of_handler? rfl]
  · rfl

end Transformed

end Node

end SketchCompiler
