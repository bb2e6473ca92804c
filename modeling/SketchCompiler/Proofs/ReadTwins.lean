import SketchCompiler.Proofs.ParserRules

namespace SketchCompiler

open List

variable (restricted : Bool)

namespace Expr

variable {c : Correspondence} {e e' : Expr} {l l' : Location}

lemma Twin.loc (h : e.Twin c e') : c.place e.loc e'.loc := by
  cases h <;> assumption

lemma Twin.relocate (h : e.Twin c e') (hl : c.place l l') : (e.relocate l).Twin c (e'.relocate l') := by
  cases h <;> constructor <;> assumption

lemma Twin.isPlace_eq (h : e.Twin c e') : e'.isPlace = e.isPlace := by
  cases h <;> rfl

lemma Twin.typeName?_eq (h : e.Twin c e') :
    e'.typeName? = e.typeName? ∧ ∀ t, e.typeName? = some t → ∀ w ∈ t.path, c.token (.id w) := by
  fun_induction typeName? e generalizing e' with
  | case1 l r =>
    cases h with
    | name _ hx =>
      refine ⟨by simp [typeName?, hx.text], ?_⟩
      rintro _ ⟨⟩ w hw
      rw [mem_singleton.mp hw]
      exact hx.word
  | case2 l o n s ih =>
    cases h with
    | member _ ho hx =>
      obtain ⟨heq, hwords⟩ := ih ho
      refine ⟨by simp [typeName?, heq, hx.text], fun t ht w hw => ?_⟩
      obtain ⟨u, hu, rfl⟩ := Option.map_eq_some_iff.mp ht
      rcases mem_append.mp hw with hw | hw
      · exact hwords u hu w hw
      · rw [mem_singleton.mp hw]
        exact hx.word
  | case3 e hname hmember =>
    refine ⟨?_, nofun⟩
    cases h with
    | name => exact absurd rfl (hname _ _)
    | member => exact absurd rfl (hmember _ _ _ _)
    | _ => rfl

lemma StoredTwin.loc (h : e.StoredTwin c e') : c.place e.loc e'.loc := by
  cases h with
  | plain he => exact he.loc
  | guarded hl _ _ => exact hl
  | device hl _ _ => exact hl

lemma StoredTwin.asDevice {t t'} (h : e.StoredTwin c e') (ht : TypeName.Twin c t t') :
    (e.asDevice t).StoredTwin c (e'.asDevice t') := by
  unfold Expr.asDevice
  rw [ht.value]
  cases t.value.device? with
  | none => exact h
  | some d =>
    have hdevice := StoredTwin.device h.loc ht h
    cases h with
    | plain he =>
      cases he with
      | new hl ht hargs => exact .plain (.new hl ht hargs)
      | _ => exact hdevice
    | guarded => exact hdevice
    | device hl ht he => exact .device hl ht he

end Expr

namespace Grammar

open SketchCompiler.Parser

variable {c : Correspondence} {g : Grammar}

/-- The rules of a level read twins. -/
structure ReadsTwins (c : Correspondence) (g : Grammar) : Prop where
  binary (restricted : Bool) (level : Nat) :
    Twinned c (Expr.Twin c) (g.binary restricted level)
  unary (restricted : Bool) : Twinned c (Expr.Twin c) (g.unary restricted)
  block : Twinned c (Stmt.Twins c) g.block

instance : Steady qualifier := inferInstanceAs (Steady (acceptWord .reactKw >>= fun _ => ite ..))

instance : Steady native := by
  refine ⟨fun c => .next fun v l l' _ hl => ?_⟩
  extract_lets rest
  dsimp only
  have hrest : Twinned c Eq (rest ()) := by
    refine .next fun v _ _ _ _ => ?_
    dsimp only
    split
    · exact .pure rfl
    · exact .fail
  split
  · split
    · exact .bind (A := Eq) (.failAt hl) fun _ _ _ => hrest
    · exact hrest
  · exact .bind (A := Eq) .fail fun _ _ _ => hrest

instance : Steady trigger := by
  refine ⟨fun c => .next fun v _ _ _ _ => ?_⟩
  dsimp only
  split
  · exact .pure rfl
  · exact .pure rfl
  · exact .pure rfl
  · exact .pure rfl
  · exact .pure rfl
  · exact .fail

lemma parallel_typeName : Twinned c (TypeName.Twin c) typeName := by
  refine .bind .id fun first first' hfirst => ?_
  refine .bind (.iterate (B := fun t t' : TypeName => t' = t ∧ ∀ w ∈ t.path, c.token (.id w)) ?_ ?_) ?_
  · rw [hfirst.text]
    refine ⟨rfl, fun w hw => ?_⟩
    rw [mem_singleton.mp hw]
    exact hfirst.word
  · rintro t _ ⟨rfl, ht⟩
    refine .after fun found => ?_
    split
    · refine .bind .id fun x x' hx => ?_
      rw [hx.text]
      refine .pure (.again ⟨rfl, fun w hw => ?_⟩)
      rcases mem_append.mp hw with hw | hw
      · exact ht w hw
      · rw [mem_singleton.mp hw]
        exact hx.word
    · exact .pure (.done ⟨rfl, ht⟩)
  · rintro t _ ⟨rfl, ht⟩
    refine .get fun s s' hs => ?_
    extract_lets rest rest'
    have hrest (array : Bool) : Parallel c (TypeName.Twin c) (rest array) (rest' array) :=
      .bind .last fun l l' hl => .pure ⟨rfl, c.through hfirst.loc hl, ht⟩
    obtain ⟨ts, m⟩ := s
    obtain ⟨ts', m'⟩ := s'
    split
    case h_1 hts =>
      cases hts
      cases hs with
      | cons _ _ _ hs =>
        cases hs with
        | cons => exact .after fun _ => .after fun _ => .after hrest
    case h_2 hne =>
      split
      case h_1 hts =>
        cases hts
        cases hs with
        | cons _ _ _ hs =>
          cases hs with
          | cons => exact absurd rfl (hne _ _ _)
      case h_2 => exact .after hrest

lemma parallel_fieldValue {value} (h : Twinned c (Expr.Twin c) value) :
    Twinned c (FieldValue.Twin c) (fieldValue value) :=
  .bind .id fun _ _ hx => .after fun _ => .bind (.strict h) fun _ _ he => .pure (.mk hx he)

namespace ReadsTwins

variable (h : ReadsTwins c g)

include h

lemma arguments (close : Punct) : Twinned c (Forall₂ (Expr.Twin c)) (arguments g close) :=
  .bind (.commaSeparated (h.binary _ _)) fun _ _ hargs => .after fun _ => .pure hargs

lemma primary : Twinned c (Expr.Twin c) (primary g) := by
  refine .next fun v l l' hv hl => ?_
  extract_lets rest rest'
  have hrest (e e' : Expr) (he : e.Twin c e') : Parallel c (Expr.Twin c) (rest e) (rest' e') :=
    .bind .last fun m m' hm => .pure (he.relocate (c.through hl hm))
  dsimp only
  split
  · exact .bind (.pure (.number hl hv)) hrest
  · exact .bind (.pure (.str hl)) hrest
  · exact .bind (.pure (.bool hl)) hrest
  · exact .bind (.pure (.bool hl)) hrest
  · exact .bind (.pure (.self hl)) hrest
  · exact .bind (.pure (.name hl ⟨rfl, hl, hv⟩)) hrest
  · exact .bind (.strict (h.binary _ _)) fun e e' he => .after fun _ => .bind (.pure he) hrest
  · exact .bind (h.arguments _) fun args args' hargs => .bind (.pure (.array hl hargs)) hrest
  · refine .bind parallel_typeName fun type type' ht => .after fun _ => .bind (h.arguments _) fun args args' hargs => ?_
    exact .bind (.pure (.new hl ht hargs)) hrest
  · exact .bind (.weaken .fail) hrest

lemma suffix {e e' : Expr} (he : e.Twin c e') :
    Parallel c (Step.Twin (Expr.Twin c)) (suffix g restricted e) (suffix g restricted e') := by
  have hend (x x' : Expr) (hx : x.Twin c x') : Parallel c (Step.Twin (Expr.Twin c))
      (do return .again (x.relocate (e.loc.through (← last))))
      (do return .again (x'.relocate (e'.loc.through (← last)))) :=
    .bind .last fun l l' hl => .pure (.again (hx.relocate (c.through he.loc hl)))
  refine .after fun t => .after fun here => ?_
  split
  · exact .after fun _ => .bind (h.arguments _) fun args args' hargs => hend _ _ (.call he.loc he hargs)
  · exact .after fun _ => .bind (.strict (h.binary _ _)) fun i i' hi => .after fun _ =>
      hend _ _ (.subscript he.loc he hi)
  · exact .after fun _ => .bind .id fun x x' hx => hend _ _ (.member he.loc he hx)
  · exact .after fun _ => .bind parallel_typeName fun type type' ht => hend _ _ (.convert he.loc he ht)
  · obtain ⟨heq, hwords⟩ := he.typeName?_eq
    rw [heq]
    split
    · rename_i type ht
      refine .bind (.braced (parallel_fieldValue (h.binary _ _))) fun fields fields' hfields => hend _ _ ?_
      exact .struct he.loc ⟨rfl, he.loc, hwords type ht⟩ hfields
    · exact .pure (.done he)
  · exact .pure (.done he)

lemma unaryRule : Twinned c (Expr.Twin c) (unaryRule g restricted) := by
  refine .after fun t => ?_
  split
  · exact .next fun _ l l' _ hl => .bind (.strict (h.unary _)) fun e e' he => .pure (.unary (c.through hl he.loc) he)
  · exact .bind h.primary fun e e' he => .iterate he fun e e' he => h.suffix restricted he

lemma binaryRule (level : Nat) :
    Twinned c (Expr.Twin c) (binaryRule g restricted level) := by
  refine .bind (h.unaryRule _) fun e e' he => .iterate he fun a a' ha => .after fun t => ?_
  split
  · split
    · exact .after fun _ => .bind (.strict (h.binary _ _)) fun b b' hb =>
        .pure (.again (.binary (c.through ha.loc hb.loc) ha hb))
    · exact .pure (.done ha)
  · exact .pure (.done ha)

lemma expr : Twinned c (Expr.Twin c) (expr g) := .strict (h.binaryRule _ _)

lemma condition : Twinned c (Expr.Twin c) (condition g) := .strict (h.binaryRule _ _)

lemma guard {e e' : Expr} (he : e.Twin c e') : Parallel c (Expr.StoredTwin c) (guard g e) (guard g e') := by
  refine .after fun t => ?_
  split
  · exact .after fun _ => .bind h.block fun body body' hb => .bind .last fun l l' hl =>
      .pure (.guarded (c.through he.loc hl) he hb)
  · exact .pure (.plain he)

lemma guardable : Twinned c (Expr.StoredTwin c) (guardable g) := .bind h.expr fun _ _ he => h.guard he

lemma range : Twinned c (Range.Twin c) (range g) :=
  .bind h.expr fun _ _ hmin => .after fun _ => .bind h.expr fun _ _ hmax => .pure ⟨hmin, hmax⟩

lemma varDecl : Twinned c (VarDecl.Twin c) (varDecl g) := by
  refine .after fun qualifier => .bind parallel_typeName fun type type' ht => .bind .id fun x x' hx => ?_
  refine .after fun found => ?_
  extract_lets rest rest'
  have hrest (r r' : Option Range) (hr : Option.Rel (Range.Twin c) r r') :
      Parallel c (VarDecl.Twin c) (rest r) (rest' r') := by
    refine .after fun found => ?_
    extract_lets rest rest'
    have hrest (e e' : Option Expr) (he : Option.Rel (Expr.StoredTwin c) e e') :
        Parallel c (VarDecl.Twin c) (rest e) (rest' e') := .pure (.mk ht hx he hr)
    split
    · exact .bind h.guardable fun e e' he => .bind (.pure (.some (he.asDevice ht))) hrest
    · split
      · exact .bind (.pure .none) hrest
      · rw [hx.text]
        exact .bind .fail hrest
  split
  · split
    · exact .bind h.range.some hrest
    · rw [hx.text]
      exact .bind .fail hrest
  · exact .bind (.pure .none) hrest

/-- A statement that waits for its place. -/
abbrev Builds (c : Correspondence) {α : Type} (A : α → α → Prop) : (build build' : Location → α) → Prop :=
  fun build build' => ∀ l l', c.place l l' → A (build l) (build' l')

lemma simpleStmt : Twinned c (Builds c (Stmt.Twin c)) (simpleStmt g) := by
  refine .bind h.expr fun e e' he => .after fun found => ?_
  split
  · rw [he.isPlace_eq]
    split
    · exact .bind h.guardable fun x x' hx => .pure fun l l' hl => .assign hl he hx
    · exact .failAt he.loc
  · exact .bind (h.guard he) fun x x' hx => .pure fun l l' hl => .expr hl hx

lemma branch : Twinned c (Branch.Twin c) (branch g) :=
  .bind h.condition fun _ _ he => .bind h.block fun _ _ hb => .pure (.mk he hb)

/-- Branches, or cases, that are read together. -/
structure BranchTwins (c : Correspondence) (bs bs' : List Branch × Option (List Stmt)) : Prop where
  branches : List.Forall₂ (Branch.Twin c) bs.1 bs'.1
  otherwise : Option.Rel (Stmt.Twins c) bs.2 bs'.2

lemma elseBranch {bs bs'} (hbs : BranchTwins c bs bs') :
    Parallel c (Step.Twin (BranchTwins c)) (elseBranch g bs) (elseBranch g bs') := by
  refine .after fun found => ?_
  split
  · refine .after fun found => ?_
    split
    · exact .bind h.branch fun b b' hb => .pure (.again ⟨rel_append hbs.branches (.cons hb .nil), .none⟩)
    · exact .bind h.block fun body body' hb => .pure (.done ⟨hbs.branches, .some hb⟩)
  · exact .pure (.done hbs)

lemma condStmt : Twinned c (Builds c (Stmt.Twin c)) (condStmt g) := by
  refine .after fun _ => .bind h.branch fun first first' hfirst => ?_
  refine .bind (.iterate (B := BranchTwins c) ⟨.cons hfirst .nil, .none⟩ fun _ _ => h.elseBranch) fun bs bs' hbs => ?_
  exact .pure fun l l' hl => .cond hl hbs.branches hbs.otherwise

lemma varStmt : Twinned c (Builds c (Stmt.Twin c)) (do let decl ← Grammar.varDecl g; return (.var · decl)) :=
  .bind h.varDecl fun _ _ hd => .pure fun _ _ hl => .var hl hd

lemma forStmt : Twinned c (Builds c (Stmt.Twin c)) (forStmt g) := by
  refine .after fun _ => .after fun _ => .after fun found => ?_
  refine .optional (A := Stmt.Twin c) (.located (.after fun t => ?_)) fun init init' hi => .after fun _ => ?_
  · split
    · exact h.varStmt
    · exact h.varStmt
    · exact h.simpleStmt
  · refine .after fun found => .optional h.expr fun e e' he => .after fun _ => .after fun found => ?_
    refine .optional (.located h.simpleStmt) fun update update' hu => .after fun _ => ?_
    exact .bind h.block fun body body' hb => .pure fun l l' hl => .forLoop hl hi he hu hb

lemma pattern : Twinned c (Builds c (Pattern.Twin c)) (pattern g) := by
  refine .after fun t => ?_
  split
  · exact .after fun _ => .pure fun l l' hl => .wildcard hl
  · exact .bind (h.binaryRule _ _) fun e e' he => .pure fun l l' hl => .value hl he

lemma arm : Twinned c (Arm.Twin c) (arm g) := by
  refine .bind (.located h.pattern) fun first first' hfirst => ?_
  refine .bind (.iterate (B := Forall₂ (Pattern.Twin c)) (.cons hfirst .nil) ?_) fun ps ps' hps => ?_
  · refine fun ps ps' hps => .after fun found => ?_
    split
    · exact .collect hps (.located h.pattern)
    · exact .pure (.done hps)
  · refine .after fun _ => .after fun found => ?_
    extract_lets rest rest'
    have hrest (body body' : List Stmt) (hb : Stmt.Twins c body body') :
        Parallel c (Arm.Twin c) (rest body) (rest' body') := .pure (.mk hps hb)
    split
    · exact .bind h.block hrest
    · exact .bind (.singleton (.located h.simpleStmt)) hrest

lemma chooseStmt : Twinned c (Builds c (Stmt.Twin c)) (chooseStmt g) :=
  .after fun _ => .bind h.condition fun _ _ he => .bind (.braced h.arm) fun _ _ ha => .pure fun _ _ hl =>
    .choose hl he ha

lemma switchCase {cs cs'} (hcs : BranchTwins c cs cs') :
    Parallel c (Step.Twin (BranchTwins c)) (switchCase g cs) (switchCase g cs') := by
  refine .next fun v _ _ _ _ => ?_
  dsimp only
  split
  · exact .pure (.done hcs)
  · exact .pure (.again hcs)
  · exact .bind h.branch fun b b' hb => .pure (.again ⟨rel_append hcs.branches (.cons hb .nil), hcs.otherwise⟩)
  · obtain ⟨bs, otherwise⟩ := cs
    obtain ⟨bs', otherwise'⟩ := cs'
    cases hcs.otherwise with
    | some _ => exact .fail
    | none => exact .bind h.block fun body body' hb => .pure (.again ⟨hcs.branches, .some hb⟩)
  · exact .fail

lemma switchStmt : Twinned c (Builds c (Stmt.Twin c)) (switchStmt g) := by
  refine .after fun _ => .bind h.condition fun e e' he => .after fun _ => ?_
  refine .bind (.iterate (B := BranchTwins c) ⟨.nil, .none⟩ fun _ _ => h.switchCase) fun cs cs' hcs => ?_
  exact .pure fun l l' hl => .switch hl he hcs.branches hcs.otherwise

lemma returnStmt : Twinned c (Builds c (Stmt.Twin c)) (returnStmt g) := by
  refine .after fun _ => .after fun t => ?_
  split
  · exact .pure fun l l' hl => .ret hl .none
  · exact .pure fun l l' hl => .ret hl .none
  · exact .pure fun l l' hl => .ret hl .none
  · exact .bind h.expr fun e e' he => .pure fun l l' hl => .ret hl (.some he)

lemma plainStmt : Twinned c (Builds c (Stmt.Twin c)) (plainStmt g) := by
  refine .after fun t => ?_
  split
  · exact h.varStmt
  · exact h.varStmt
  · exact h.varStmt
  · exact .after fun _ => .bind .id fun x x' hx => .pure fun l l' hl => .emit hl hx
  · exact h.returnStmt
  · exact .after fun _ => .pure fun l l' hl => .breakLoop hl
  · exact .after fun _ => .pure fun l l' hl => .continueLoop hl
  · exact .after fun _ => .pure fun l l' hl => .native hl
  · exact h.simpleStmt

lemma stmtRule : Twinned c (Builds c (Stmt.Twin c)) (stmtRule g) := by
  refine .after fun t => ?_
  split
  · exact h.condStmt
  · refine .after fun _ => .bind h.branch fun b b' hb => .pure fun l l' hl => ?_
    cases hb with
    | mk he hb => exact .whileLoop hl he hb
  · exact h.forStmt
  · refine .after fun _ => .bind h.branch fun b b' hb => .pure fun l l' hl => ?_
    cases hb with
    | mk he hb => exact .repeatLoop hl he hb
  · exact h.chooseStmt
  · exact h.switchStmt
  · exact .after fun _ => .bind h.block fun body body' hb => .pure fun l l' hl => .atomic hl hb
  · exact .bind h.plainStmt fun _ _ hs => .after fun _ => .pure hs

lemma blockRule : Twinned c (Stmt.Twins c) (blockRule g) := by
  refine .after fun _ => .iterate .nil fun ss ss' hss => .after fun t => ?_
  split
  · exact .fail
  · exact .after fun _ => .pure (.done hss)
  · exact .after fun _ => .pure (.again hss)
  · exact .collect hss (.located h.stmtRule)

end ReadsTwins

lemma readsTwins_ofDepth (c : Correspondence) (n : Nat) : ReadsTwins c (ofDepth n) := by
  induction n with
  | zero => exact ⟨fun _ _ => .fail, fun _ => .fail, .fail⟩
  | succ n ih => exact ⟨ih.binaryRule, ih.unaryRule, ih.blockRule⟩

lemma parallel_params : Twinned c (Forall₂ (Param.Twin c)) params := by
  refine .after fun _ => .bind (.commaSeparated ?_) fun _ _ hps => .after fun _ => .pure hps
  exact .bind (.weaken parallel_typeName) fun _ _ ht => .bind .id fun _ _ hx => .pure ⟨ht, hx, rfl, rfl⟩

namespace ReadsTwins

variable (h : ReadsTwins c g)

include h

lemma function : Twinned c (FunctionDecl.Twin c) (function g) := by
  refine .after fun _ => .bind .id fun x x' hx => .bind parallel_params fun ps ps' hps => .after fun found => ?_
  extract_lets rest rest'
  have hrest (type type' : Option (Located TypeName)) (ht : Option.Rel (TypeName.Twin c) type type') :
      Parallel c (FunctionDecl.Twin c) (rest type) (rest' type') :=
    .bind h.block fun body body' hb => .pure ⟨hx, hps, ht, hb, rfl, rfl⟩
  split
  · exact .bind parallel_typeName.some hrest
  · exact .bind (.pure .none) hrest

lemma classMember {d d' : ClassDecl} (hd : d.Twin c d') :
    Parallel c (Step.Twin (ClassDecl.Twin c)) (classMember g d) (classMember g d') := by
  have hfield : Parallel c (Step.Twin (ClassDecl.Twin c)) (do
      let field ← located (do
        let decl ← Grammar.varDecl g
        return (⟨decl, ·⟩))
      endOfStatement
      return .again { d with fields := d.fields ++ [field] }) (do
      let field ← located (do
        let decl ← Grammar.varDecl g
        return (⟨decl, ·⟩))
      endOfStatement
      return .again { d' with fields := d'.fields ++ [field] }) := by
    refine .bind (.located (A := Located.Twin c (VarDecl.Twin c)) ?_) fun f f' hf => .after fun _ => .pure (.again ?_)
    · exact .bind h.varDecl fun x x' hx => .pure fun l l' hl => ⟨hx, hl⟩
    · exact { hd with fields := rel_append hd.fields (.cons hf .nil) }
  refine .after fun t => ?_
  split
  · exact .fail
  · exact .after fun _ => .pure (.done hd)
  · exact .after fun _ => .pure (.again hd)
  · exact hfield
  · exact hfield
  · exact hfield
  · refine .next fun v l l' _ hl => ?_
    obtain ⟨x, fields, constructor, methods, symbol⟩ := d
    obtain ⟨x', fields', constructor', methods', symbol'⟩ := d'
    cases hd.constructor with
    | some _ =>
      rw [show x'.text = x.text from hd.name.text]
      exact .fail
    | none =>
      refine .bind parallel_params fun ps ps' hps => .bind h.block fun body body' hb => .bind .last fun m m' hm => ?_
      exact .pure (.again { hd with constructor := .some ⟨c.through hl hm, hps, hb⟩ })
  · refine .bind (.located (A := Located.Twin c (FunctionDecl.Twin c)) ?_) fun f f' hf => .pure (.again ?_)
    · exact .bind h.function fun x x' hx => .pure fun l l' hl => ⟨hx, hl⟩
    · exact { hd with methods := rel_append hd.methods (.cons hf .nil) }
  · exact .refuse

lemma classDecl : Twinned c (Builds c (Item.Twin c)) (classDecl g) := by
  refine .after fun _ => .bind .id fun x x' hx => .after fun _ => ?_
  refine .bind (.iterate (B := ClassDecl.Twin c) ?_ fun _ _ => h.classMember) fun d d' hd => .pure fun l l' hl => ?_
  · exact ⟨hx, .nil, .none, .nil, rfl, rfl⟩
  · exact .classDecl hl hd

lemma event : Twinned c (Builds c (Item.Twin c)) (event g) := by
  refine .after fun _ => .bind .id fun x x' hx => ?_
  refine .bind h.block fun body body' hb => .pure fun l l' hl => .event hl ?_ hb
  rw [hx.text]
  split
  · exact .start
  · split
    · exact .loop
    · exact .signal hx

lemma interrupt : Twinned c (Builds c (Item.Twin c)) (interrupt g) := by
  refine .after fun _ => .after fun t => ?_
  extract_lets rest
  have hrest (x x' : Option Name) (hx : Option.Rel (Name.Twin c) x x') :
      Parallel c (Builds c (Item.Twin c)) (rest x) (rest x') :=
    .after fun _ => .bind h.condition fun pin pin' hp => .after fun trigger => .bind h.block fun body body' hb =>
      .pure fun l l' hl => .interrupt hl hx hp hb
  split
  · exact .bind (Parallel.some .id) hrest
  · exact .bind (.pure .none) hrest

lemma task : Twinned c (Builds c (Item.Twin c)) (task g) := by
  refine .after fun _ => .bind .id fun x x' hx => .next fun v _ _ _ _ => ?_
  extract_lets rest rest'
  have hrest (e e' : Option Expr) (he : Option.Rel (Expr.Twin c) e e') :
      Parallel c (Builds c (Item.Twin c)) (rest e) (rest' e') :=
    .bind h.block fun body body' hb => .pure fun l l' hl => .task hl hx he hb
  dsimp only
  split
  · exact .bind h.condition.some hrest
  · exact .bind (.pure .none) hrest
  · exact .bind .fail hrest

omit h in
lemma load : Twinned c (Builds c (Item.Twin c)) load := by
  refine .after fun _ => .next fun v m m' _ hm => ?_
  cases v with
  | path path =>
    refine .after fun found => ?_
    extract_lets rest rest'
    have hrest (x x' : Option Name) (hx : Option.Rel (Name.Twin c) x x') :
        Parallel c (Builds c (Item.Twin c)) (rest x) (rest' x') := .pure fun l l' hl => .load hl hm hx
    split
    · exact .bind (Parallel.some .id) hrest
    · exact .bind (.pure .none) hrest
  | _ => exact .fail

lemma plainItem : Twinned c (Builds c (Item.Twin c)) (plainItem g) := by
  have hvar : Twinned c (Builds c (Item.Twin c)) (do let decl ← Grammar.varDecl g; return (.var · decl)) :=
    .bind h.varDecl fun _ _ hd => .pure fun _ _ hl => .var hl hd
  refine .after fun t => ?_
  split
  · exact load
  · exact hvar
  · exact hvar
  · exact hvar
  · exact .after fun _ => .bind .id fun x x' hx => .after fun _ => .bind h.expr fun e e' he => .pure fun l l' hl =>
      .aliasDecl hl hx he
  · exact .after fun _ => .bind .id fun x x' hx => .pure fun l l' hl => .signal hl hx
  · exact .after fun text => .pure fun l l' hl => .native hl
  · exact .refuse

lemma itemRule : Twinned c (Builds c (Item.Twin c)) (itemRule g) := by
  refine .after fun t => ?_
  split
  · exact .after fun _ => .bind (.braced (parallel_fieldValue h.expr)) fun fs fs' hfs => .pure fun l l' hl =>
      .config hl hfs
  · exact .bind h.function fun d d' hd => .pure fun l l' hl => .function hl hd
  · exact h.classDecl
  · exact .after fun _ => .bind .id fun x x' hx => .bind (.braced .id) fun xs xs' hxs => .pure fun l l' hl =>
      .enumDecl hl hx hxs
  · refine .after fun _ => .bind .id fun x x' hx => .bind (.braced ?_) fun fs fs' hfs => .pure fun l l' hl =>
      .structDecl hl hx hfs
    exact .bind parallel_typeName fun type type' ht => .bind .id fun x x' hx => .pure ⟨ht, hx⟩
  · exact h.event
  · exact h.interrupt
  · exact h.task
  · exact .bind h.plainItem fun _ _ hi => .after fun _ => .pure hi

lemma programStep {p p' : Program} {name} (hp : p.Twin c p' ∧ p.name = name) :
    Parallel c (Step.Twin fun q q' => q.Twin c q' ∧ q.name = name) (programStep g p) (programStep g p') := by
  obtain ⟨hp, hname⟩ := hp
  refine .after fun t => ?_
  split
  · exact .pure (.done ⟨hp, hname⟩)
  · refine .next fun v l l' _ hl => ?_
    obtain ⟨_, mark, items⟩ := p
    obtain ⟨_, mark', items'⟩ := p'
    cases hp.mark with
    | some _ => exact .fail
    | none => exact .pure (.again ⟨{ hp with mark := .some hl }, hname⟩)
  · exact .after fun _ => .pure (.again ⟨hp, hname⟩)
  · exact .bind (.located h.itemRule) fun i i' hi => .pure
      (.again ⟨{ hp with items := rel_append hp.items (.cons hi .nil) }, hname⟩)

lemma program (name : String) :
    Twinned c (fun p p' => p.Twin c p' ∧ p.name = name) (program g name) :=
  .iterate ⟨⟨rfl, .none, .nil⟩, rfl⟩ fun _ _ => h.programStep

end ReadsTwins

end Grammar

namespace Program

variable {c : Correspondence} {tokens tokens' : List (Located Token)} {name : String} {start start' : Location}

lemma ofTokens_twins (h : Cursor.Twin c ⟨tokens, start⟩ ⟨tokens', start'⟩) :
    (∃ p p', ofTokens tokens name start = .ok p ∧ ofTokens tokens' name start' = .ok p' ∧ p.Twin c p' ∧ p.name = name) ∨
      ∃ e l l', ofTokens tokens name start = .error ⟨e, l⟩ ∧ ofTokens tokens' name start' = .error ⟨e, l'⟩ ∧
        c.place l l' := by
  have hrun := (Grammar.readsTwins_ofDepth c (tokens.length + 1)).program name _ _ h
  have hlength : tokens'.length = tokens.length := h.length
  unfold ofTokens
  rw [hlength]
  generalize Grammar.program (.ofDepth (tokens.length + 1)) name ⟨tokens, start⟩ = r,
    Grammar.program (.ofDepth (tokens.length + 1)) name ⟨tokens', start'⟩ = r' at hrun
  cases hrun with
  | ok hp _ => exact .inl ⟨_, _, rfl, rfl, hp⟩
  | error hl => exact .inr ⟨_, _, _, rfl, rfl, hl⟩

/-- What is read is a twin of itself, so its places and tokens are those of the text. -/
lemma twin_of_ofTokens {p : Program} (ht : ∀ t ∈ tokens, c.token t.value ∧ c.place t.loc t.loc)
    (hs : c.place start start) (h : ofTokens tokens name start = .ok p) : p.Twin c p ∧ p.name = name := by
  rcases ofTokens_twins (.refl hs ht) with ⟨q, q', hq, hq', htwin⟩ | ⟨e, l, l', he, -⟩
  · cases hq.symm.trans h
    cases hq'.symm.trans h
    exact htwin
  · cases he.symm.trans h

end Program

end SketchCompiler
