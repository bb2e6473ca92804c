import SketchCompiler.Proofs.Nodes
import SketchCompiler.Sketch.Stmt

namespace SketchCompiler

open Node

variable (depth : Nat)

inductive Jump where
  | breaks
  | continues
  | returns (value : Option String)
deriving DecidableEq, Repr

def Jump.text : Jump → String
  | breaks => "break;"
  | continues => "continue;"
  | returns none => "return;"
  | returns (some value) => s!"return {value};"

inductive LoopHead where
  | whileTest (test : String)
  | forTest (init test update : String)
deriving DecidableEq, Repr

def LoopHead.text : LoopHead → String
  | whileTest test => s!"while ({test}) \x7b"
  | forTest init test update => s!"for ({init}; {test}; {update}) \x7b"

mutual

inductive TargetStmt where
  | line (text : String)
  | jump (place : List Nat) (kind : Jump)
  | block (body : List TargetStmt)
  | cond (branches : List TargetBranch)
  | loop (place : List Nat) (head : LoopHead) (body : List TargetStmt)
  | switch (place : List Nat) (subject : String) (cases : List TargetBranch)
  | atomic (body : List TargetStmt)

/-- What a test, or the value of a case, leads to. Without a test it is the last resort. -/
structure TargetBranch where
  test : Option String
  body : List TargetStmt

end

namespace TargetStmt

def condHead (first : Bool) : Option String → String
  | some test =>
    let word := if first then "if" else "\x7d else if"
    s!"{word} ({test}) \x7b"
  | none => "\x7d else \x7b"

def caseHead : Option String → String
  | some value => s!"case {value}: \x7b"
  | none => "default: \x7b"

mutual

def lines (depth : Nat) : TargetStmt → List Line
  | line text => [.code depth text]
  | jump _ kind => [.code depth kind.text]
  | block body => .code depth "\x7b" :: blockLines (depth + 1) body ++ [.code depth "\x7d"]
  | cond branches => condLines depth true branches ++ [.code depth "\x7d"]
  | loop _ head body => .code depth head.text :: blockLines (depth + 1) body ++ [.code depth "\x7d"]
  | switch _ subject cases => .code depth s!"switch ({subject}) \x7b" :: caseLines depth cases ++ [.code depth "\x7d"]
  | atomic body => .code depth "noInterrupts();" :: .code depth "\x7b" ::
      blockLines (depth + 1) body ++ [.code depth "\x7d", .code depth "interrupts();"]

def blockLines (depth : Nat) : List TargetStmt → List Line
  | [] => []
  | s :: ss => s.lines depth ++ blockLines depth ss

def condLines (depth : Nat) (first : Bool) : List TargetBranch → List Line
  | [] => []
  | ⟨test, body⟩ :: bs =>
    .code depth (condHead first test) :: blockLines (depth + 1) body ++ condLines depth false bs

/-- Every case ends with a jump behind the switch. -/
def caseLines (depth : Nat) : List TargetBranch → List Line
  | [] => []
  | ⟨test, body⟩ :: bs => .code depth (caseHead test) ::
      blockLines (depth + 1) body ++ [.code (depth + 1) Jump.breaks.text, .code depth "\x7d"] ++ caseLines depth bs

end

/-- The tests of a choice, and what comes if all fail. -/
def chain : List TargetBranch → Option (List TargetStmt) → List TargetStmt
  | [], none => []
  | [], some body => [block body]
  | b :: bs, otherwise => [cond (b :: bs ++ otherwise.toList.map (⟨none, ·⟩))]

end TargetStmt

open TargetStmt (chain)

section

variable (k : Scene)

mutual

/-- The statements that a statement at the place `a` is written as. -/
def Stmt.target (a : List Nat) : Stmt → StateM Nat (List TargetStmt)
  | .var _ ⟨qualifier, type, name, initializer, range, symbol⟩ => do
    let d : VarDecl := ⟨qualifier, type, name, initializer, range, symbol⟩
    let line := TargetStmt.line (d.code k ++ ";")
    match symbol.bind k.plan.instance? with
    | some i => return line :: (k.plan.setup i name.text).map .line
    | none => return line :: (← guardTarget? (a ++ [0, (ofRange? range).length]) name.text initializer)
  | .assign _ target e => do
    let place := target.code k
    let guard ← e.guardTarget (a ++ [1]) place
    return .line s!"{place} = {e.code k};" :: guard
  | .expr _ e =>
    if e.handler?.isSome then e.guardTarget (a ++ [0]) (e.code k) else return [.line (e.code k ++ ";")]
  | .cond _ branches otherwise => do
    let branches' ← branchTargets a 0 branches
    let otherwise ← otherwiseTargets a (branches.flatMap ofBranch).length otherwise
    return [.cond (branches' ++ otherwise)]
  | .whileLoop _ e body => return [.loop a (.whileTest (e.code k)) (← blockTarget a 1 body)]
  | .forLoop _ init e update body => do
    let header := (ofStmt? init ++ ofExpr? e ++ ofStmt? update).length
    let head := LoopHead.forTest (inlineCode? k init) ((e.map (Expr.code k)).getD "") (inlineCode? k update)
    return [.loop a head (← blockTarget a header body)]
  | .repeatLoop _ e body => do
    let counter ← temporary "ys_repeat"
    let body ← blockTarget a 1 body
    return [.loop a (.forTest s!"long {counter} = 0" s!"{counter} < {e.operand k}" s!"{counter}++") body]
  | .choose _ e arms => do
    let (subject, store) ←
      if e.isRepeatable then pure (e.code k, [])
      else
        let name ← temporary "ys_match"
        pure (name, [TargetStmt.line s!"auto {name} = {e.code k};"])
    let tests ← armTargets a 1 subject arms
    let otherwise ← wildcardTarget a 1 arms
    return store ++ chain tests otherwise
  | .switch _ e cases otherwise => do
    let cases' ← branchTargets a 1 cases
    let otherwise ← otherwiseTargets a (1 + (cases.flatMap ofBranch).length) otherwise
    return [.switch a (e.code k) (cases' ++ otherwise)]
  | .atomic _ body => return [.atomic (← blockTarget a 0 body)]
  | .emit _ r => return [.line s!"{k.signalReference r} = true;"]
  | .ret _ e => return [.jump a (.returns (e.map (Expr.code k)))]
  | .breakLoop _ => return [.jump a .breaks]
  | .continueLoop _ => return [.jump a .continues]
  | .native _ text => return [.line text]

/-- The first statement of the block is child `i` of the node at the place `a`. -/
def blockTarget (a : List Nat) (i : Nat) : List Stmt → StateM Nat (List TargetStmt)
  | [] => return []
  | s :: ss => return (← s.target (a ++ [i])) ++ (← blockTarget a (i + 1) ss)

def Expr.guardTarget (a : List Nat) (value : String) : Expr → StateM Nat (List TargetStmt)
  | .guarded _ _ handler => return [.cond [⟨some s!"!({value})", ← blockTarget a 1 handler⟩]]
  | .clamp _ (.guarded _ _ handler) _ _ =>
    return [.cond [⟨some s!"!({value})", ← blockTarget (a ++ [0]) 1 handler⟩]]
  | _ => return []

def guardTarget? (a : List Nat) (value : String) : Option Expr → StateM Nat (List TargetStmt)
  | none => return []
  | some e => e.guardTarget a value

def branchTargets (a : List Nat) (i : Nat) : List Branch → StateM Nat (List TargetBranch)
  | [] => return []
  | ⟨e, body⟩ :: bs => do
    let body' ← blockTarget a (i + 1) body
    return ⟨some (e.code k), body'⟩ :: (← branchTargets a (i + 1 + body.length) bs)

def otherwiseTargets (a : List Nat) (i : Nat) : Option (List Stmt) → StateM Nat (List TargetBranch)
  | none => return []
  | some body => return [⟨none, ← blockTarget a i body⟩]

def armTargets (a : List Nat) (i : Nat) (subject : String) : List Arm → StateM Nat (List TargetBranch)
  | [] => return []
  | ⟨patterns, body⟩ :: as =>
    let tests := (patterns.flatMap ofPattern).length
    if patterns.any (·.isWildcard) then armTargets a (i + tests + body.length) subject as
    else do
      let test := String.intercalate " || " (patterns.filterMap (·.test? k subject))
      let body' ← blockTarget a (i + tests) body
      return ⟨some test, body'⟩ :: (← armTargets a (i + tests + body.length) subject as)

def wildcardTarget (a : List Nat) (i : Nat) : List Arm → StateM Nat (Option (List TargetStmt))
  | [] => return none
  | ⟨patterns, body⟩ :: as =>
    let tests := (patterns.flatMap ofPattern).length
    if patterns.any (·.isWildcard) then return some (← blockTarget a (i + tests) body)
    else wildcardTarget a (i + tests + body.length) as

end

end

namespace TargetStmt

lemma blockLines_append (ss ts : List TargetStmt) :
    blockLines depth (ss ++ ts) = blockLines depth ss ++ blockLines depth ts := by
  induction ss with
  | nil => rfl
  | cons s ss ih => simp [blockLines, ih]

lemma blockLines_map_line (texts : List String) :
    blockLines depth (texts.map line) = texts.map (.code depth) := by
  induction texts with
  | nil => rfl
  | cons t ts ih => simp [blockLines, lines, ih]

lemma condLines_append (first : Bool) (bs cs : List TargetBranch) :
    condLines depth first (bs ++ cs) = condLines depth first bs ++ condLines depth (first && bs.isEmpty) cs := by
  induction bs generalizing first with
  | nil => simp [condLines]
  | cons b bs ih =>
    obtain ⟨test, body⟩ := b
    simp [condLines, ih]

lemma caseLines_append (bs cs : List TargetBranch) :
    caseLines depth (bs ++ cs) = caseLines depth bs ++ caseLines depth cs := by
  induction bs with
  | nil => rfl
  | cons b bs ih =>
    obtain ⟨test, body⟩ := b
    simp [caseLines, ih]

def elseLines (depth : Nat) (opening : String) : Option (List TargetStmt) → List Line
  | none => []
  | some body => .code depth opening :: blockLines (depth + 1) body

lemma blockLines_chain (tests : List TargetBranch) (otherwise : Option (List TargetStmt)) :
    blockLines depth (chain tests otherwise) = condLines depth true tests ++
      elseLines depth (if tests.isEmpty then "\x7b" else "\x7d else \x7b") otherwise ++
      if tests.isEmpty && otherwise.isNone then [] else [Line.code depth "\x7d"] := by
  cases tests with
  | nil => cases otherwise <;> simp [chain, blockLines, lines, condLines, elseLines]
  | cons b bs =>
    have happend := condLines_append depth true (b :: bs) (otherwise.toList.map (⟨none, ·⟩))
    cases otherwise <;> simp_all [chain, blockLines, lines, condLines, elseLines, condHead]

lemma isEmpty_condLines (first : Bool) (bs : List TargetBranch) :
    (condLines depth first bs).isEmpty = bs.isEmpty := by
  rcases bs with _ | ⟨⟨test, body⟩, bs⟩ <;> rfl

end TargetStmt

lemma isSome_wildcardTarget (k : Scene) (a : List Nat) (i n m : Nat) (subject : String) (arm : Arm) (arms : List Arm)
    (h : ((armTargets k a i subject (arm :: arms)).run n).1.isEmpty) :
    ((wildcardTarget k a i (arm :: arms)).run m).1.isSome := by
  cases arm
  rw [armTargets] at h
  rw [wildcardTarget]
  split
  · rfl
  · rw [if_neg ‹_›] at h
    cases h

lemma condHead_guard (value : String) : TargetStmt.condHead true (some s!"!({value})") = s!"if (!({value})) \x7b" := by
  simp [TargetStmt.condHead, toString, ← String.toList_inj]

lemma LoopHead.text_repeat (counter bound : String) :
    (LoopHead.forTest s!"long {counter} = 0" s!"{counter} < {bound}" s!"{counter}++").text =
      s!"for (long {counter} = 0; {counter} < {bound}; {counter}++) \x7b" := by
  simp [LoopHead.text, toString, ← String.toList_inj]

lemma chooseLines_eq_target (k : Scene) (depth : Nat) (a : List Nat) (subject : String) (as : List Arm)
    (harms : armLines k depth subject true as = TargetStmt.condLines depth true <$> armTargets k a 1 subject as)
    (hwild : ∀ opening,
      wildcardLines k depth opening as = TargetStmt.elseLines depth opening <$> wildcardTarget k a 1 as) :
    (do
      let tests ← armLines k depth subject true as
      let otherwise ← wildcardLines k depth (if tests.isEmpty then "\x7b" else "\x7d else \x7b") as
      return tests ++ otherwise ++ if as.isEmpty then [] else [Line.code depth "\x7d"]) =
    TargetStmt.blockLines depth <$> (do
      let tests ← armTargets k a 1 subject as
      let otherwise ← wildcardTarget k a 1 as
      return chain tests otherwise) := by
  simp only [harms, hwild, bind_map_left, map_bind, map_pure, TargetStmt.blockLines_chain,
    TargetStmt.isEmpty_condLines]
  cases as with
  | nil => simp [armTargets, wildcardTarget]
  | cons arm as =>
    refine StateT.ext fun n => ?_
    have hsome := isSome_wildcardTarget k a 1 n ((armTargets k a 1 subject (arm :: as)).run n).2 subject arm as
    simp only [StateT.run_bind, StateT.run_pure]
    generalize (armTargets k a 1 subject (arm :: as)).run n = tests at hsome ⊢
    generalize hwild : (wildcardTarget k a 1 (arm :: as)).run tests.2 = otherwise at hsome
    have hclose : (tests.1.isEmpty && otherwise.1.isNone) = false := by
      cases h : tests.1.isEmpty <;> simp_all
    simp only [bind, hwild, hclose]
    rfl

attribute [local simp] Stmt.lines Stmt.target Expr.guardLines Expr.guardTarget TargetStmt.blockLines TargetStmt.lines
  TargetStmt.condLines TargetStmt.caseLines TargetStmt.elseLines TargetStmt.condHead TargetStmt.caseHead Jump.text
  branchTargets otherwiseTargets

section

variable (k : Scene)

mutual

lemma Stmt.lines_eq_target (depth : Nat) (a : List Nat) :
    ∀ s : Stmt, s.lines k depth = TargetStmt.blockLines depth <$> s.target k a
  | .var _ ⟨qualifier, type, name, initializer, range, symbol⟩ => by
    have ih := guardLines?_eq_target depth (a ++ [0, (ofRange? range).length]) name.text initializer
    cases h : symbol.bind k.plan.instance? <;> simp [h, ih, TargetStmt.blockLines_map_line]
  | .assign _ target e => by simp [e.guardLines_eq_target depth (a ++ [1])]
  | .expr _ e => by
    rw [Stmt.lines, Stmt.target]
    split
    · exact e.guardLines_eq_target depth (a ++ [0]) _
    · simp
  | .cond _ branches otherwise => by
    have ih (first : Bool) :=
      otherwiseLines_eq_target depth a (branches.flatMap ofBranch).length first otherwise
    simp only [Stmt.lines, Stmt.target, branchLines_eq_target depth a 0, bind_map_left, map_bind, map_pure,
      TargetStmt.blockLines, TargetStmt.lines, TargetStmt.condLines_append]
    refine bind_congr fun bs => ?_
    rw [ih (true && bs.isEmpty), bind_map_left]
    simp
  | .whileLoop _ e body => by simp [blockLines_eq_target (depth + 1) a 1, LoopHead.text]
  | .forLoop _ init e update body => by
    simp [blockLines_eq_target (depth + 1) a (ofStmt? init ++ ofExpr? e ++ ofStmt? update).length, LoopHead.text]
  | .repeatLoop _ e body => by simp [blockLines_eq_target (depth + 1) a 1, LoopHead.text_repeat]
  | .choose _ e arms => by
    have ih (subject : String) := chooseLines_eq_target k depth a subject arms
      (armLines_eq_target depth a 1 subject true arms) (wildcardLines_eq_target depth a 1 · arms)
    rw [Stmt.lines, Stmt.target]
    split
    · simpa using ih (e.code k)
    · simp only [pure_bind, map_bind]
      refine bind_congr fun name => ?_
      have hname := congrArg (List.cons (Line.code depth s!"auto {name} = {e.code k};") <$> ·) (ih name)
      simpa using hname
  | .switch _ e cases otherwise => by
    simp [caseLines_eq_target depth a 1, defaultLines_eq_target depth a (1 + (cases.flatMap ofBranch).length),
      TargetStmt.caseLines_append]
  | .atomic _ body => by simp [blockLines_eq_target (depth + 1) a 0]
  | .emit _ r => by simp
  | .ret _ (some e) => by simp
  | .ret _ none => by simp
  | .breakLoop _ => by simp
  | .continueLoop _ => by simp
  | .native _ text => by simp

lemma blockLines_eq_target (depth : Nat) (a : List Nat) (i : Nat) :
    ∀ body : List Stmt, blockLines k depth body = TargetStmt.blockLines depth <$> blockTarget k a i body
  | [] => by simp [blockLines, blockTarget]
  | s :: ss => by
    simp [blockLines, blockTarget, s.lines_eq_target depth (a ++ [i]), blockLines_eq_target depth a (i + 1) ss,
      TargetStmt.blockLines_append]

lemma Expr.guardLines_eq_target (depth : Nat) (a : List Nat) (value : String) (e : Expr) :
    e.guardLines k depth value = TargetStmt.blockLines depth <$> e.guardTarget k a value := by
  match e with
  | .guarded _ _ handler =>
    simp [blockLines_eq_target (depth + 1) a 1, condHead_guard, -TargetStmt.condHead]
  | .clamp _ e _ _ =>
    cases e with
    | guarded _ _ handler =>
      simp [blockLines_eq_target (depth + 1) (a ++ [0]) 1, condHead_guard, -TargetStmt.condHead]
    | _ => simp
  | .literal .. | .name .. | .self _ | .binary .. | .unary .. | .call .. | .member .. | .new .. | .array ..
  | .subscript .. | .convert .. | .struct .. =>
    simp

lemma guardLines?_eq_target (depth : Nat) (a : List Nat) (value : String) :
    ∀ e : Option Expr, guardLines? k depth value e = TargetStmt.blockLines depth <$> guardTarget? k a value e
  | none => by simp [guardLines?, guardTarget?]
  | some e => e.guardLines_eq_target depth a value

lemma branchLines_eq_target (depth : Nat) (a : List Nat) (i : Nat) (first : Bool) :
    ∀ bs : List Branch, branchLines k depth first bs = TargetStmt.condLines depth first <$> branchTargets k a i bs
  | [] => by simp [branchLines]
  | ⟨e, body⟩ :: bs => by
    simp [branchLines, blockLines_eq_target (depth + 1) a (i + 1),
      branchLines_eq_target depth a (i + 1 + body.length)]

lemma otherwiseLines_eq_target (depth : Nat) (a : List Nat) (i : Nat) (first : Bool) :
    ∀ body : Option (List Stmt),
      otherwiseLines k depth body = TargetStmt.condLines depth first <$> otherwiseTargets k a i body
  | none => by simp [otherwiseLines]
  | some body => by
    simp [otherwiseLines, blockLines_eq_target (depth + 1) a i]

lemma armLines_eq_target (depth : Nat) (a : List Nat) (i : Nat) (subject : String) (first : Bool) :
    ∀ as : List Arm,
      armLines k depth subject first as = TargetStmt.condLines depth first <$> armTargets k a i subject as
  | [] => by simp [armLines, armTargets]
  | ⟨patterns, body⟩ :: as => by
    rw [armLines, armTargets]
    split
    · exact armLines_eq_target depth a _ subject first as
    · simp [blockLines_eq_target (depth + 1) a (i + (patterns.flatMap ofPattern).length),
        armLines_eq_target depth a (i + (patterns.flatMap ofPattern).length + body.length) subject false as]

lemma wildcardLines_eq_target (depth : Nat) (a : List Nat) (i : Nat) (opening : String) :
    ∀ as : List Arm,
      wildcardLines k depth opening as = TargetStmt.elseLines depth opening <$> wildcardTarget k a i as
  | [] => by simp [wildcardLines, wildcardTarget]
  | ⟨patterns, body⟩ :: as => by
    rw [wildcardLines, wildcardTarget]
    split
    · simp [blockLines_eq_target (depth + 1) a (i + (patterns.flatMap ofPattern).length)]
    · exact wildcardLines_eq_target depth a _ opening as

lemma caseLines_eq_target (depth : Nat) (a : List Nat) (i : Nat) :
    ∀ bs : List Branch, caseLines k depth bs = TargetStmt.caseLines depth <$> branchTargets k a i bs
  | [] => by simp [caseLines]
  | ⟨e, body⟩ :: bs => by
    simp [caseLines, blockLines_eq_target (depth + 1) a (i + 1), caseLines_eq_target depth a (i + 1 + body.length)]

lemma defaultLines_eq_target (depth : Nat) (a : List Nat) (i : Nat) :
    ∀ body : Option (List Stmt),
      defaultLines k depth body = TargetStmt.caseLines depth <$> otherwiseTargets k a i body
  | none => by simp [defaultLines]
  | some body => by
    simp [defaultLines, blockLines_eq_target (depth + 1) a i]

end

end

end SketchCompiler
