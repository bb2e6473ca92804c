import SketchCompiler.Proofs.Scoping
import SketchCompiler.Proofs.TargetStatements

namespace SketchCompiler

open List

variable (l : Location)

/-- A statement that a jump can leave: a loop, or else a switch. -/
structure Frame where
  place : List Nat
  isLoop : Bool
deriving DecidableEq, Repr

/-- What a jump leaves, or goes on with, by the rules of the target. The innermost frame comes first. -/
def Jump.target? (fs : List Frame) : Jump → Option Frame
  | breaks => fs.head?
  | continues => fs.find? (·.isLoop)
  | returns _ => none

structure JumpSite where
  place : List Nat
  kind : Jump
  frames : List Frame
deriving DecidableEq, Repr

namespace TargetStmt

mutual

def jumps (fs : List Frame) : TargetStmt → List JumpSite
  | line _ => []
  | jump place kind => [⟨place, kind, fs⟩]
  | block body => blockJumps fs body
  | cond branches => branchJumps fs branches
  | loop place _ body => blockJumps (⟨place, true⟩ :: fs) body
  | switch place _ cases => branchJumps (⟨place, false⟩ :: fs) cases
  | atomic body => blockJumps fs body

def blockJumps (fs : List Frame) : List TargetStmt → List JumpSite
  | [] => []
  | s :: ss => s.jumps fs ++ blockJumps fs ss

def branchJumps (fs : List Frame) : List TargetBranch → List JumpSite
  | [] => []
  | ⟨_, body⟩ :: bs => blockJumps fs body ++ branchJumps fs bs

end

variable (fs : List Frame)

@[simp]
lemma blockJumps_append (ss ts : List TargetStmt) :
    blockJumps fs (ss ++ ts) = blockJumps fs ss ++ blockJumps fs ts := by
  induction ss with
  | nil => rfl
  | cons s ss ih => simp [blockJumps, ih]

@[simp]
lemma branchJumps_append (bs cs : List TargetBranch) :
    branchJumps fs (bs ++ cs) = branchJumps fs bs ++ branchJumps fs cs := by
  induction bs with
  | nil => rfl
  | cons b bs ih =>
    obtain ⟨test, body⟩ := b
    simp [branchJumps, ih]

@[simp]
lemma blockJumps_map_line (texts : List String) : blockJumps fs (texts.map line) = [] := by
  induction texts with
  | nil => rfl
  | cons t ts ih => simp [blockJumps, jumps, ih]

def optionJumps : Option (List TargetStmt) → List JumpSite
  | none => []
  | some body => blockJumps fs body

@[simp]
lemma blockJumps_chain (tests : List TargetBranch) (otherwise : Option (List TargetStmt)) :
    blockJumps fs (chain tests otherwise) = branchJumps fs tests ++ optionJumps fs otherwise := by
  cases tests with
  | nil => cases otherwise <;> simp [chain, blockJumps, jumps, branchJumps, optionJumps]
  | cons b bs =>
    have happend := branchJumps_append fs (b :: bs) (otherwise.toList.map (⟨none, ·⟩))
    cases otherwise <;> simp_all [chain, blockJumps, jumps, branchJumps, optionJumps]

end TargetStmt

namespace Node

def isStmt : Node → Bool
  | stmt _ => true
  | _ => false

def isGuarded : Node → Bool
  | expr (.guarded ..) => true
  | _ => false

/-- Which children of the arms are written. Of the arms with a wildcard it is only the first, if none was found. -/
def armsWritten (found : Bool) : List Arm → List Bool
  | [] => []
  | ⟨patterns, body⟩ :: as =>
    let wild := patterns.any (·.isWildcard)
    (patterns.flatMap ofPattern).map (fun _ => false) ++ body.map (fun _ => !(wild && found)) ++
      armsWritten (found || wild) as

/-- Whether the statements at and below child `i`, which is `c`, are written as statements. Left out are the handlers of
class fields and devices, those in the head of a loop, and all wildcards but the first. -/
def writes (k : Scene) (n : Node) (i : Nat) (c : Node) : Bool :=
  match n with
  | unit _ | item (.module ..) | stmt (.var ..) | stmt (.expr ..) => true
  | item (.var _ d) => d.symbol.isSome
  | item (.function ..) | item (.classDecl ..) | item (.event ..) | item (.interrupt ..) | item (.task ..) => c.isStmt
  | var d => i == (ofRange? d.range).length && (d.symbol.bind k.plan.instance?).isNone
  | stmt (.assign ..) => i == 1
  | stmt (.forLoop _ init e update _) => (ofStmt? init ++ ofExpr? e ++ ofStmt? update).length ≤ i
  | stmt (.choose _ _ arms) => (false :: armsWritten false arms)[i]?.getD false
  | stmt (.cond ..) | stmt (.whileLoop ..) | stmt (.repeatLoop ..) | stmt (.switch ..) | stmt (.atomic ..)
  | expr (.guarded ..) => c.isStmt
  | expr (.clamp ..) => c.isGuarded && i == 0
  | _ => false

/-- The frame that a node at the place `o` is for its child `c`. The head of a `for` belongs to the loop. -/
def frame (o : List Nat) : Node → Node → List Frame
  | stmt (.whileLoop ..), stmt _ | stmt (.repeatLoop ..), stmt _ | stmt (.forLoop ..), _ => [⟨o, true⟩]
  | stmt (.switch ..), _ => [⟨o, false⟩]
  | _, _ => []

/-- The frames around the place `a` below a node at the place `o`, innermost first. -/
def framesFrom (o : List Nat) (fs : List Frame) : Node → List Nat → List Frame
  | _, [] => fs
  | n, i :: a =>
    match n.children[i]? with
    | some c => framesFrom (o ++ [i]) (n.frame o c ++ fs) c a
    | none => fs

/-- All nodes on the way to the place `a` are written. -/
def Written (k : Scene) : Node → List Nat → Prop
  | _, [] => True
  | n, i :: a => ∃ c, n.children[i]? = some c ∧ n.writes k i c ∧ c.Written k a

instance decidableWritten (k : Scene) : (n : Node) → (a : List Nat) → Decidable (n.Written k a)
  | _, [] => isTrue trivial
  | n, i :: a =>
    match h : n.children[i]? with
    | none => isFalse (by simp [Written, h])
    | some c =>
      have := decidableWritten k c a
      decidable_of_iff (n.writes k i c ∧ c.Written k a) (by simp [Written, h])

def jump? (k : Scene) : Node → Option Jump
  | stmt (.breakLoop _) => some .breaks
  | stmt (.continueLoop _) => some .continues
  | stmt (.ret _ e) => some (.returns (e.map (Expr.code k)))
  | _ => none

/-- The jump is at or below the node, which stands at the place `o`, and it is written. -/
def Site (k : Scene) (o : List Nat) (fs : List Frame) (n : Node) (x : JumpSite) : Prop :=
  ∃ a m, n.at? a = some m ∧ m.jump? k = some x.kind ∧ n.Written k a ∧ x.place = o ++ a ∧ x.frames = n.framesFrom o fs a

/-- As `Site`, for statements among some children of one node, of which the first is child `start`. -/
def Sites (k : Scene) (o : List Nat) (start : Nat) (fs : List Frame) (cs : List Node) (x : JumpSite) : Prop :=
  ∃ (i : Nat) (c : Node), cs[i]? = some c ∧ c.isStmt ∧ c.Site k (o ++ [start + i]) fs x

variable {k : Scene} {o : List Nat} {start : Nat} {fs : List Frame} {n c : Node} {cs ds : List Node} {x : JumpSite}

lemma site_iff : n.Site k o fs x ↔ (n.jump? k = some x.kind ∧ x.place = o ∧ x.frames = fs) ∨
    ∃ i c, n.children[i]? = some c ∧ n.writes k i c ∧ c.Site k (o ++ [i]) (n.frame o c ++ fs) x := by
  constructor
  · rintro ⟨_ | ⟨i, a⟩, m, hm, hj, hw, hp, hf⟩
    · obtain rfl := Option.some.inj hm
      exact .inl ⟨hj, by simpa using hp, hf⟩
    · obtain ⟨c, hc, hwrites, hw⟩ := hw
      rw [framesFrom, hc] at hf
      rw [at?, hc] at hm
      exact .inr ⟨i, c, hc, hwrites, a, m, hm, hj, hw, by simpa using hp, hf⟩
  · rintro (⟨hj, hp, hf⟩ | ⟨i, c, hc, hwrites, a, m, hm, hj, hw, hp, hf⟩)
    · exact ⟨[], n, rfl, hj, trivial, by simpa using hp, hf⟩
    · refine ⟨i :: a, m, ?_, hj, ⟨c, hc, hwrites, hw⟩, by simpa using hp, ?_⟩
      · rw [at?, hc]
        exact hm
      · rw [framesFrom, hc]
        exact hf

@[simp]
lemma not_sites_nil : ¬ Sites k o start fs [] x := by
  simp [Sites]

lemma sites_append : Sites k o start fs (cs ++ ds) x ↔
    Sites k o start fs cs x ∨ Sites k o (start + cs.length) fs ds x := by
  constructor
  · rintro ⟨i, c, hc, h⟩
    rcases Nat.lt_or_ge i cs.length with hi | hi
    · exact .inl ⟨i, c, by rwa [getElem?_append_left hi] at hc, h⟩
    · refine .inr ⟨i - cs.length, c, by rwa [getElem?_append_right hi] at hc, ?_⟩
      rwa [Nat.add_assoc, Nat.add_sub_cancel' hi]
  · rintro (⟨i, c, hc, h⟩ | ⟨i, c, hc, h⟩)
    · exact ⟨i, c, by rw [getElem?_append_left (lt_of_getElem? hc), hc], h⟩
    · refine ⟨cs.length + i, c, ?_, by rwa [← Nat.add_assoc]⟩
      rwa [getElem?_append_right (Nat.le_add_right _ _), Nat.add_sub_cancel_left]

lemma sites_cons : Sites k o start fs (c :: cs) x ↔
    (c.isStmt ∧ c.Site k (o ++ [start]) fs x) ∨ Sites k o (start + 1) fs cs x := by
  rw [← singleton_append, sites_append]
  simp [Sites, getElem?_singleton]

lemma not_sites_of_not_stmt (h : ∀ c ∈ cs, c.isStmt = false) : ¬ Sites k o start fs cs x := by
  rintro ⟨i, c, hc, hs, -⟩
  simp [h c (mem_of_getElem? hc)] at hs

lemma site_of_isStmt (F : List Frame) (hj : n.jump? k = none)
    (hw : ∀ i c, n.children[i]? = some c → (n.writes k i c ↔ c.isStmt)) (hf : ∀ s, n.frame o (stmt s) = F) :
    n.Site k o fs x ↔ Sites k o 0 (F ++ fs) n.children x := by
  have hframe (c : Node) (hc : c.isStmt) : n.frame o c = F := by
    cases c with
    | stmt s => exact hf s
    | _ => cases hc
  rw [site_iff, Sites]
  simp only [hj, reduceCtorEq, false_and, false_or, Nat.zero_add]
  constructor
  · rintro ⟨i, c, hc, hwrites, h⟩
    have hs := (hw i c hc).mp hwrites
    exact ⟨i, c, hc, hs, hframe c hs ▸ h⟩
  · rintro ⟨i, c, hc, hs, h⟩
    exact ⟨i, c, hc, (hw i c hc).mpr hs, (hframe c hs).symm ▸ h⟩

lemma site_of_child {i : Nat} (hj : n.jump? k = none) (hc : n.children[i]? = some c)
    (hw : ∀ j d, n.children[j]? = some d → (n.writes k j d ↔ j = i)) (hf : n.frame o c = []) :
    n.Site k o fs x ↔ c.Site k (o ++ [i]) fs x := by
  rw [site_iff]
  simp only [hj, reduceCtorEq, false_and, false_or]
  constructor
  · rintro ⟨j, d, hd, hwrites, h⟩
    obtain rfl := (hw j d hd).mp hwrites
    obtain rfl := Option.some.inj (hc.symm.trans hd)
    rwa [hf] at h
  · intro h
    exact ⟨i, c, hc, (hw i c hc).mpr rfl, by rwa [hf]⟩

lemma not_site (hj : n.jump? k = none) (hw : ∀ i c, n.children[i]? = some c → n.writes k i c = false) :
    ¬ n.Site k o fs x := by
  rw [site_iff]
  rintro (⟨h, -⟩ | ⟨i, c, hc, hwrites, -⟩)
  · simp [hj] at h
  · simp [hw i c hc] at hwrites

lemma sites_ofBranch (b : Branch) (start : Nat) :
    Sites k o start fs (ofBranch b) x ↔ Sites k o (start + 1) fs (ofBlock b.body) x := by
  simp [ofBranch, sites_cons, isStmt]

lemma length_ofBlock (body : List Stmt) : (ofBlock body).length = body.length := length_map _

/-- As `Sites`, for the children that are marked. -/
def MarkedSites (k : Scene) (o : List Nat) (fs : List Frame) (x : JumpSite) (start : Nat) (marks : List Bool)
    (cs : List Node) : Prop :=
  ∃ (i : Nat) (c : Node), cs[i]? = some c ∧ marks[i]?.getD false ∧ c.Site k (o ++ [start + i]) fs x

lemma markedSites_append {marks marks' : List Bool} (hl : marks.length = cs.length) :
    MarkedSites k o fs x start (marks ++ marks') (cs ++ ds) ↔
      MarkedSites k o fs x start marks cs ∨ MarkedSites k o fs x (start + cs.length) marks' ds := by
  constructor
  · rintro ⟨i, c, hc, hm, h⟩
    rcases Nat.lt_or_ge i cs.length with hi | hi
    · rw [getElem?_append_left hi] at hc
      rw [getElem?_append_left (hl ▸ hi)] at hm
      exact .inl ⟨i, c, hc, hm, h⟩
    · rw [getElem?_append_right hi] at hc
      rw [getElem?_append_right (hl ▸ hi), hl] at hm
      exact .inr ⟨i - cs.length, c, hc, hm, by rwa [Nat.add_assoc, Nat.add_sub_cancel' hi]⟩
  · rintro (⟨i, c, hc, hm, h⟩ | ⟨i, c, hc, hm, h⟩)
    · have hi := lt_of_getElem? hc
      refine ⟨i, c, ?_, ?_, h⟩
      · rwa [getElem?_append_left hi]
      · rwa [getElem?_append_left (hl ▸ hi)]
    · refine ⟨cs.length + i, c, ?_, ?_, by rwa [← Nat.add_assoc]⟩
      · rwa [getElem?_append_right (Nat.le_add_right _ _), Nat.add_sub_cancel_left]
      · rwa [getElem?_append_right (hl ▸ Nat.le_add_right _ _), hl, Nat.add_sub_cancel_left]

lemma not_markedSites {α : Type} (as : List α) : ¬ MarkedSites k o fs x start (as.map fun _ => false) cs := by
  rintro ⟨i, c, -, hm, -⟩
  rw [getElem?_map] at hm
  cases h : as[i]? <;> simp [h] at hm

lemma markedSites_ofBlock (mark : Bool) (body : List Stmt) :
    MarkedSites k o fs x start (body.map fun _ => mark) (ofBlock body) ↔
      mark ∧ Sites k o start fs (ofBlock body) x := by
  constructor
  · rintro ⟨i, c, hc, hm, h⟩
    rw [getElem?_map] at hm
    obtain ⟨s, hs, rfl⟩ := mem_ofBlock.mp (mem_of_getElem? hc)
    refine ⟨?_, i, _, hc, rfl, h⟩
    cases hi : body[i]? with
    | none => simp [hi] at hm
    | some t => simpa [hi] using hm
  · rintro ⟨rfl, i, c, hc, -, h⟩
    have hi : i < body.length := length_ofBlock body ▸ lt_of_getElem? hc
    exact ⟨i, c, hc, by simp [hi], h⟩

def ArmSites (k : Scene) (o : List Nat) (fs : List Frame) (x : JumpSite) (found : Bool) (start : Nat) : List Arm → Prop
  | [] => False
  | ⟨patterns, body⟩ :: as =>
    let tests := (patterns.flatMap ofPattern).length
    let wild := patterns.any (·.isWildcard)
    ((wild && found) = false ∧ Sites k o (start + tests) fs (ofBlock body) x) ∨
      ArmSites k o fs x (found || wild) (start + tests + body.length) as

def WildcardSites (k : Scene) (o : List Nat) (fs : List Frame) (x : JumpSite) (start : Nat) : List Arm → Prop
  | [] => False
  | ⟨patterns, body⟩ :: as =>
    let tests := (patterns.flatMap ofPattern).length
    if patterns.any (·.isWildcard) then Sites k o (start + tests) fs (ofBlock body) x
    else WildcardSites k o fs x (start + tests + body.length) as

attribute [local simp] ArmSites WildcardSites

lemma armSites_split (arms : List Arm) (start : Nat) : ArmSites k o fs x false start arms ↔
    ArmSites k o fs x true start arms ∨ WildcardSites k o fs x start arms := by
  induction arms generalizing start with
  | nil => simp
  | cons arm as ih =>
    obtain ⟨patterns, _⟩ := arm
    cases h : patterns.any (·.isWildcard) with
    | true => simp [h, or_comm]
    | false => simp [h, ih, or_assoc]

lemma armSites_iff (arms : List Arm) (found : Bool) (start : Nat) : ArmSites k o fs x found start arms ↔
    MarkedSites k o fs x start (armsWritten found arms) (arms.flatMap ofArm) := by
  induction arms generalizing found start with
  | nil => simp [MarkedSites]
  | cons arm as ih =>
    cases arm
    rw [ArmSites, ih, armsWritten, flatMap_cons, markedSites_append (by simp [ofArm, length_ofBlock]), ofArm,
      markedSites_append (by simp)]
    simp only [not_markedSites, false_or, markedSites_ofBlock, length_append, length_ofBlock, Nat.add_assoc,
      Bool.not_eq_true']

section Cases

attribute [local simp] writes

lemma site_var (d : VarDecl) : (var d).Site k o fs x ↔ (d.symbol.bind k.plan.instance?).isNone ∧
    ∃ e, d.initializer = some e ∧ (expr e).Site k (o ++ [(ofRange? d.range).length]) fs x := by
  rw [site_iff]
  simp only [jump?, reduceCtorEq, false_and, false_or, writes, Bool.and_eq_true, beq_iff_eq, children, frame,
    nil_append]
  constructor
  · rintro ⟨i, c, hc, ⟨rfl, hnone⟩, h⟩
    cases hi : d.initializer with
    | none => simp [hi, ofExpr?] at hc
    | some e =>
      rw [hi, getElem?_append_right le_rfl, Nat.sub_self] at hc
      obtain rfl := Option.some.inj hc
      exact ⟨hnone, e, rfl, h⟩
  · rintro ⟨hnone, e, he, h⟩
    exact ⟨_, expr e, by simp [he, ofExpr?], ⟨rfl, hnone⟩, h⟩

lemma site_varStmt (d : VarDecl) : (stmt (.var l d)).Site k o fs x ↔ (var d).Site k (o ++ [0]) fs x :=
  site_of_child rfl rfl (fun _ _ h => by simpa [children] using lt_of_getElem? h) rfl

lemma site_assign (target e : Expr) : (stmt (.assign l target e)).Site k o fs x ↔ (expr e).Site k (o ++ [1]) fs x :=
  site_of_child rfl rfl (by simp) rfl

lemma site_exprStmt (e : Expr) : (stmt (.expr l e)).Site k o fs x ↔ (expr e).Site k (o ++ [0]) fs x :=
  site_of_child rfl rfl (fun _ _ h => by simpa [children] using lt_of_getElem? h) rfl

lemma site_cond (branches : List Branch) (otherwise : Option (List Stmt)) :
    (stmt (.cond l branches otherwise)).Site k o fs x ↔ Sites k o 0 fs (branches.flatMap ofBranch) x ∨
      Sites k o (branches.flatMap ofBranch).length fs (ofBlock? otherwise) x := by
  rw [site_of_isStmt [] rfl (by simp) (fun _ => rfl), children, sites_append, Nat.zero_add]
  rfl

lemma site_whileLoop (e : Expr) (body : List Stmt) :
    (stmt (.whileLoop l e body)).Site k o fs x ↔ Sites k o 1 (⟨o, true⟩ :: fs) (ofBlock body) x := by
  rw [site_of_isStmt [⟨o, true⟩] rfl (by simp) (fun _ => rfl), children, sites_cons]
  simp [isStmt]

lemma site_repeatLoop (e : Expr) (body : List Stmt) :
    (stmt (.repeatLoop l e body)).Site k o fs x ↔ Sites k o 1 (⟨o, true⟩ :: fs) (ofBlock body) x := by
  rw [site_of_isStmt [⟨o, true⟩] rfl (by simp) (fun _ => rfl), children, sites_cons]
  simp [isStmt]

lemma site_forLoop (init : Option Stmt) (e : Option Expr) (update : Option Stmt) (body : List Stmt) :
    (stmt (.forLoop l init e update body)).Site k o fs x ↔
      Sites k o (ofStmt? init ++ ofExpr? e ++ ofStmt? update).length (⟨o, true⟩ :: fs) (ofBlock body) x := by
  rw [site_iff]
  simp only [jump?, reduceCtorEq, false_and, false_or, writes, decide_eq_true_eq, children, frame]
  generalize ofStmt? init ++ ofExpr? e ++ ofStmt? update = header
  constructor
  · rintro ⟨i, c, hc, hi, h⟩
    rw [getElem?_append_right hi] at hc
    obtain ⟨s, -, rfl⟩ := mem_ofBlock.mp (mem_of_getElem? hc)
    exact ⟨i - header.length, _, hc, rfl, by rwa [Nat.add_sub_cancel' hi]⟩
  · rintro ⟨i, c, hc, -, h⟩
    refine ⟨header.length + i, c, ?_, Nat.le_add_right _ _, h⟩
    rwa [getElem?_append_right (Nat.le_add_right _ _), Nat.add_sub_cancel_left]

lemma site_choose (e : Expr) (arms : List Arm) :
    (stmt (.choose l e arms)).Site k o fs x ↔ ArmSites k o fs x false 1 arms := by
  rw [site_iff, armSites_iff, MarkedSites]
  simp only [jump?, reduceCtorEq, false_and, false_or, writes, children, frame, nil_append]
  constructor
  · rintro ⟨_ | i, c, hc, hi, h⟩
    · simp at hi
    · exact ⟨i, c, hc, hi, by rwa [Nat.add_comm]⟩
  · rintro ⟨i, c, hc, hi, h⟩
    exact ⟨i + 1, c, hc, hi, by rwa [Nat.add_comm]⟩

lemma site_switch (e : Expr) (cases : List Branch) (otherwise : Option (List Stmt)) :
    (stmt (.switch l e cases otherwise)).Site k o fs x ↔ Sites k o 1 (⟨o, false⟩ :: fs) (cases.flatMap ofBranch) x ∨
        Sites k o (1 + (cases.flatMap ofBranch).length) (⟨o, false⟩ :: fs) (ofBlock? otherwise) x := by
  rw [site_of_isStmt [⟨o, false⟩] rfl (by simp) (fun _ => rfl), children, sites_cons, sites_append]
  simp [isStmt]

lemma site_atomic (body : List Stmt) : (stmt (.atomic l body)).Site k o fs x ↔ Sites k o 0 fs (ofBlock body) x :=
  site_of_isStmt [] rfl (by simp) fun _ => rfl

lemma site_guarded (e : Expr) (handler : List Stmt) :
    (expr (.guarded l e handler)).Site k o fs x ↔ Sites k o 1 fs (ofBlock handler) x := by
  rw [site_of_isStmt [] rfl (by simp) (fun _ => rfl), children, sites_cons]
  simp [isStmt]

lemma site_clamp (l l' : Location) (e min max : Expr) (handler : List Stmt) :
    (expr (.clamp l (.guarded l' e handler) min max)).Site k o fs x ↔ Sites k (o ++ [0]) 1 fs (ofBlock handler) x := by
  rw [site_of_child (c := expr (.guarded l' e handler)) (i := 0) rfl rfl ?_ rfl, site_guarded]
  intro j d hd
  simp only [writes, Bool.and_eq_true, beq_iff_eq]
  refine ⟨And.right, fun hj => ⟨?_, hj⟩⟩
  subst hj
  rw [← Option.some.inj hd]
  rfl

lemma not_site_of_handler? {e : Expr} (h : e.handler? = none) : ¬ (expr e).Site k o fs x := by
  cases e with
  | guarded l v handler => cases h
  | clamp l v min max =>
    refine not_site rfl fun i c hc => ?_
    rcases i with _ | i
    · obtain rfl := Option.some.inj hc
      cases v with
      | guarded l v handler => cases h
      | _ => rfl
    · simp
  | _ => exact not_site rfl fun _ _ _ => rfl

end Cases

lemma site_jump (kind : Jump) (hj : n.jump? k = some kind)
    (hw : ∀ i c, n.children[i]? = some c → n.writes k i c = false) : n.Site k o fs x ↔ x = ⟨o, kind, fs⟩ := by
  rw [site_iff, hj]
  constructor
  · rintro (⟨h, rfl, rfl⟩ | ⟨i, c, hc, hwrites, -⟩)
    · rw [Option.some.inj h]
    · simp [hw i c hc] at hwrites
  · rintro rfl
    exact .inl ⟨rfl, rfl, rfl⟩

end Node

/-- The computation gives a result with this property, whatever names are in use. -/
def Always {α : Type} (m : StateM Nat α) (P : α → Prop) : Prop := ∀ n, P (m.run n).1

namespace Always

variable {α β : Type} {m : StateM Nat α} {f : α → StateM Nat β} {P : α → Prop} {Q : β → Prop}

lemma pure {a : α} (h : P a) : Always (Pure.pure a) P := fun _ => h

lemma bind (hm : Always m P) (hf : ∀ a, P a → Always (f a) Q) : Always (m >>= f) Q := fun n => hf _ (hm n) _

lemma any : Always m fun _ => True := fun _ => trivial

lemma mono (hm : Always m P) {Q : α → Prop} (h : ∀ a, P a → Q a) : Always m Q := fun n => h _ (hm n)

end Always

open Node TargetStmt

attribute [local simp] blockJumps jumps branchJumps ArmSites WildcardSites

section

variable (k : Scene)

mutual

lemma Stmt.jumps_target (o : List Nat) :
    ∀ s : Stmt, Always (s.target k o) fun code => ∀ fs x, x ∈ blockJumps fs code ↔ (stmt s).Site k o fs x
  | .var l ⟨qualifier, type, name, initializer, range, symbol⟩ => by
    have ih := jumps_guardTarget? (o ++ [0, (ofRange? range).length]) name.text initializer
    simp only [site_varStmt, site_var]
    rw [Stmt.target]
    cases symbol.bind k.plan.instance? with
    | some i => exact .pure (by simp)
    | none => exact .bind ih fun guard hguard => .pure (by simp [hguard])
  | .assign l target e => by
    simp only [site_assign]
    rw [Stmt.target]
    exact .bind (e.jumps_guardTarget (o ++ [1]) _) fun guard hguard => .pure (by simp [hguard])
  | .expr l e => by
    simp only [site_exprStmt]
    rw [Stmt.target]
    split
    · exact e.jumps_guardTarget (o ++ [0]) _
    · have hnone : e.handler? = none := by simpa using ‹¬ e.handler?.isSome›
      exact .pure (by simp [not_site_of_handler? hnone])
  | .cond l branches otherwise => by
    simp only [site_cond]
    rw [Stmt.target]
    exact .bind (jumps_branchTargets o 0 branches) fun bs hbs => .bind (jumps_otherwiseTargets o _ otherwise)
      fun os hos => .pure (by simp [hbs, hos])
  | .whileLoop l e body => by
    simp only [site_whileLoop]
    rw [Stmt.target]
    exact .bind (jumps_blockTarget o 1 body) fun code hcode => .pure (by simp [hcode])
  | .forLoop l init e update body => by
    simp only [site_forLoop]
    rw [Stmt.target]
    exact .bind (jumps_blockTarget o _ body) fun code hcode => .pure (by simp [hcode])
  | .repeatLoop l e body => by
    simp only [site_repeatLoop]
    rw [Stmt.target]
    exact .bind .any fun _ _ => .bind (jumps_blockTarget o 1 body) fun code hcode =>
      .pure (by simp [hcode])
  | .choose l e arms => by
    simp only [site_choose]
    rw [Stmt.target]
    have ih (subject : String) (store : List TargetStmt) (hstore : ∀ fs, blockJumps fs store = []) :
        Always (do
          let tests ← armTargets k o 1 subject arms
          let otherwise ← wildcardTarget k o 1 arms
          return store ++ chain tests otherwise) fun code =>
            ∀ fs x, x ∈ blockJumps fs code ↔ ArmSites k o fs x false 1 arms :=
      .bind (jumps_armTargets o 1 subject arms) fun tests htests =>
        .bind (jumps_wildcardTarget o 1 arms) fun otherwise hotherwise =>
          .pure (by simp [hstore, htests, hotherwise, armSites_split])
    split
    · exact ih _ _ fun _ => rfl
    · exact .bind .any fun name _ => ih name _ fun _ => rfl
  | .switch l e cases otherwise => by
    simp only [site_switch]
    rw [Stmt.target]
    exact .bind (jumps_branchTargets o 1 cases) fun bs hbs => .bind (jumps_otherwiseTargets o _ otherwise)
      fun os hos => .pure (by simp [hbs, hos])
  | .atomic l body => by
    simp only [site_atomic]
    rw [Stmt.target]
    exact .bind (jumps_blockTarget o 0 body) fun code hcode => .pure (by simp [hcode])
  | .ret l e => .pure fun _ _ => mem_singleton.trans (site_jump _ rfl fun _ _ _ => rfl).symm
  | .breakLoop l => .pure fun _ _ => mem_singleton.trans (site_jump _ rfl fun _ _ _ => rfl).symm
  | .continueLoop l => .pure fun _ _ => mem_singleton.trans (site_jump _ rfl fun _ _ _ => rfl).symm
  | .emit l r => .pure fun _ _ => iff_of_false not_mem_nil (not_site rfl fun _ _ _ => rfl)
  | .native l text => .pure fun _ _ => iff_of_false not_mem_nil (not_site rfl fun _ _ _ => rfl)

lemma jumps_blockTarget (o : List Nat) (i : Nat) :
    ∀ body : List Stmt,
      Always (blockTarget k o i body) fun code => ∀ fs x, x ∈ blockJumps fs code ↔ Sites k o i fs (ofBlock body) x
  | [] => .pure (by simp [ofBlock])
  | s :: ss => by
    rw [blockTarget]
    refine .bind (s.jumps_target (o ++ [i])) fun code hcode => .bind (jumps_blockTarget o (i + 1) ss)
      fun codes hcodes => .pure ?_
    simp [hcode, hcodes, ofBlock, sites_cons, isStmt]

lemma Expr.jumps_guardTarget (o : List Nat) (value : String) (e : Expr) :
    Always (e.guardTarget k o value) fun code => ∀ fs x, x ∈ blockJumps fs code ↔ (expr e).Site k o fs x := by
  match e with
  | .guarded l v handler =>
    simp only [site_guarded]
    rw [Expr.guardTarget]
    exact .bind (jumps_blockTarget o 1 handler) fun code hcode =>
      .pure (by simp [hcode])
  | .clamp _ e _ _ =>
    cases e with
    | guarded _ _ handler =>
      simp only [site_clamp]
      rw [Expr.guardTarget]
      exact .bind (jumps_blockTarget (o ++ [0]) 1 handler) fun code hcode =>
        .pure (by simp [hcode])
    | _ => exact .pure fun _ _ => iff_of_false not_mem_nil (not_site_of_handler? rfl)
  | .literal .. | .name .. | .self _ | .binary .. | .unary .. | .call .. | .member .. | .new .. | .array ..
  | .subscript .. | .convert .. | .struct .. =>
    exact .pure fun _ _ => iff_of_false not_mem_nil (not_site_of_handler? rfl)

lemma jumps_guardTarget? (o : List Nat) (value : String) :
    ∀ e : Option Expr, Always (guardTarget? k o value e) fun code => ∀ fs x, x ∈ blockJumps fs code ↔
      ∃ v, e = some v ∧ (expr v).Site k o fs x
  | none => .pure (by simp)
  | some e => (e.jumps_guardTarget o value).mono (by simp)

lemma jumps_branchTargets (o : List Nat) (i : Nat) :
    ∀ bs : List Branch, Always (branchTargets k o i bs) fun codes => ∀ fs x, x ∈ branchJumps fs codes ↔
      Sites k o i fs (bs.flatMap ofBranch) x
  | [] => .pure (by simp)
  | ⟨e, body⟩ :: bs => by
    rw [branchTargets]
    refine .bind (jumps_blockTarget o (i + 1) body) fun code hcode =>
      .bind (jumps_branchTargets o (i + 1 + body.length) bs) fun codes hcodes => .pure fun fs x => ?_
    have hlength : (ofBranch ⟨e, body⟩).length = 1 + body.length := by
      rw [ofBranch, length_cons, length_ofBlock, Nat.add_comm]
    rw [flatMap_cons, sites_append, sites_ofBranch, hlength, branchJumps, mem_append, hcode, hcodes, Nat.add_assoc]

lemma jumps_otherwiseTargets (o : List Nat) (i : Nat) :
    ∀ body : Option (List Stmt), Always (otherwiseTargets k o i body) fun codes => ∀ fs x, x ∈ branchJumps fs codes ↔
      Sites k o i fs (ofBlock? body) x
  | none => .pure (by simp [ofBlock?])
  | some body => by
    rw [otherwiseTargets]
    refine .bind (jumps_blockTarget o i body) fun code hcode => .pure ?_
    simp [hcode, ofBlock?]

lemma jumps_armTargets (o : List Nat) (i : Nat) (subject : String) :
    ∀ as : List Arm, Always (armTargets k o i subject as) fun codes => ∀ fs x, x ∈ branchJumps fs codes ↔
      ArmSites k o fs x true i as
  | [] => .pure (by simp)
  | ⟨patterns, body⟩ :: as => by
    have ih := jumps_armTargets o (i + (patterns.flatMap ofPattern).length + body.length) subject as
    rw [armTargets]
    split
    · exact ih.mono (by simp_all)
    · refine .bind (jumps_blockTarget o _ body) fun code hcode => .bind ih fun codes hcodes => .pure ?_
      simp_all

lemma jumps_wildcardTarget (o : List Nat) (i : Nat) :
    ∀ as : List Arm, Always (wildcardTarget k o i as) fun code => ∀ fs x, x ∈ optionJumps fs code ↔
      WildcardSites k o fs x i as
  | [] => .pure (by simp [optionJumps])
  | ⟨patterns, body⟩ :: as => by
    rw [wildcardTarget]
    split
    · exact .bind (jumps_blockTarget o _ body) fun code hcode => .pure (by simp_all [optionJumps])
    · exact (jumps_wildcardTarget o _ as).mono (by simp_all)

end

end

end SketchCompiler
