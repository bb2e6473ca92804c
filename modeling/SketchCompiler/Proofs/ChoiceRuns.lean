import SketchCompiler.Proofs.Places
import SketchCompiler.Proofs.TargetStatements

namespace SketchCompiler

open List Node

/-- The left side of the tests: an expression, or a variable that is set to its value before. -/
inductive Subject where
  | repeated (e : Expr)
  | stored (name : String) (e : Expr)

def Subject.code (k : Scene) : Subject → String
  | repeated e => e.code k
  | stored name _ => name

def Subject.store (k : Scene) : Subject → List TargetStmt
  | repeated _ => []
  | stored name e => [.line s!"auto {name} = {e.code k};"]

/-- The code that is run if the subject is equal to one of the values. -/
structure ChoiceBranch where
  values : List Expr
  body : List TargetStmt

structure Choice where
  subject : Subject
  branches : List ChoiceBranch
  otherwise : Option (List TargetStmt)

namespace Choice

def test (k : Scene) (subject : Subject) (values : List Expr) : String :=
  String.intercalate " || " (values.map fun v => s!"{subject.code k} == {v.operand k}")

def ofBranch (k : Scene) (subject : Subject) (b : ChoiceBranch) : TargetBranch :=
  ⟨some (test k subject b.values), b.body⟩

def target (k : Scene) (c : Choice) : List TargetStmt :=
  c.subject.store k ++ TargetStmt.chain (c.branches.map (ofBranch k c.subject)) c.otherwise

/-- The values are tried up to the first that holds: whether one does, and how many are tried. -/
def tried (holds : Expr → Bool) : List Expr → Bool × Nat
  | [] => (false, 0)
  | v :: vs => if holds v then (true, 1) else ((tried holds vs).1, (tried holds vs).2 + 1)

def runFrom (holds : Expr → Bool) (otherwise : Option (List TargetStmt)) :
    List ChoiceBranch → Option (List TargetStmt) × Nat
  | [] => (otherwise, 0)
  | b :: bs =>
    let (found, n) := tried holds b.values
    let rest := runFrom holds otherwise bs
    if found then (some b.body, n) else (rest.1, n + rest.2)

/-- The code that is run, and how many tests are made before it. -/
def run (c : Choice) (holds : Expr → Bool) : Option (List TargetStmt) × Nat := runFrom holds c.otherwise c.branches

def tests (c : Choice) : List Expr := c.branches.flatMap (·.values)

/-- The expression of the subject, once for each time that it is written. -/
def copies (c : Choice) : List Expr :=
  match c.subject with
  | .repeated e => List.replicate c.tests.length e
  | .stored _ e => [e]

/-- The expression of the subject, once for each time that a run evaluates it. -/
def evaluations (c : Choice) (holds : Expr → Bool) : List Expr :=
  match c.subject with
  | .repeated e => List.replicate (c.run holds).2 e
  | .stored _ e => [e]

variable (holds : Expr → Bool)

lemma tried_eq (vs : List Expr) : tried holds vs = (vs.any holds, min vs.length (vs.findIdx holds + 1)) := by
  induction vs with
  | nil => rfl
  | cons v vs ih =>
    rw [tried, ih, findIdx_cons]
    cases hv : holds v <;> simp [hv]

lemma runFrom_eq (otherwise : Option (List TargetStmt)) (bs : List ChoiceBranch) : runFrom holds otherwise bs =
    (((bs.find? (·.values.any holds)).map (·.body)).or otherwise,
      min (bs.flatMap (·.values)).length ((bs.flatMap (·.values)).findIdx holds + 1)) := by
  induction bs with
  | nil => rfl
  | cons b bs ih =>
    rw [runFrom, ih, tried_eq, flatMap_cons, findIdx_append, length_append]
    cases hb : b.values.any holds with
    | true =>
      have hlt : b.values.findIdx holds < b.values.length := findIdx_lt_length.mpr (any_eq_true.mp hb)
      simp [hb, hlt]
      omega
    | false =>
      have hle : b.values.findIdx holds = b.values.length :=
        findIdx_eq_length.mpr fun v hv => Bool.eq_false_iff.mpr fun h => by simp_all
      simp [hb, hle]
      omega

end Choice

def Pattern.value? : Pattern → Option Expr
  | wildcard _ => none
  | value _ e => some e

def Arm.values (a : Arm) : List Expr := a.patterns.filterMap Pattern.value?

/-- The first arm without a wildcard that has a value which holds, or else the first arm with a wildcard. -/
def chosenArm (holds : Expr → Bool) (arms : List Arm) : Option Arm :=
  (arms.find? fun a => !a.isWildcard && a.values.any holds).or (arms.find? (·.isWildcard))

def Arm.Written (k : Scene) (a : Arm) (body : List TargetStmt) : Prop :=
  ∃ n, ∀ depth, TargetStmt.blockLines depth body = ((blockLines k depth a.body).run n).1

section Lowering

variable (k : Scene) (a : List Nat)

lemma Arm.written_blockTarget (i n : Nat) (x : Arm) : x.Written k ((blockTarget k a i x.body).run n).1 := by
  refine ⟨n, fun depth => ?_⟩
  rw [blockLines_eq_target k depth a i]
  rfl

lemma intercalate_tests (subject : Subject) (patterns : List Pattern) :
    String.intercalate " || " (patterns.filterMap (·.test? k (subject.code k))) =
      Choice.test k subject (patterns.filterMap Pattern.value?) := by
  rw [Choice.test, map_filterMap]
  congr 2
  funext p
  cases p <;> rfl

lemma exists_armTargets (subject : Subject) (arms : List Arm) (i n : Nat) : ∃ bs : List ChoiceBranch,
    ((armTargets k a i (subject.code k) arms).run n).1 = bs.map (Choice.ofBranch k subject) ∧
      Forall₂ (fun x b => b.values = x.values ∧ x.Written k b.body) (arms.filter (!·.isWildcard)) bs := by
  induction arms generalizing i n with
  | nil => exact ⟨[], rfl, .nil⟩
  | cons x arms ih =>
    obtain ⟨patterns, body⟩ := x
    rw [armTargets]
    by_cases hw : patterns.any (·.isWildcard)
    · rw [if_pos hw, filter_cons_of_neg (by simpa [Arm.isWildcard] using hw)]
      exact ih _ _
    · rw [if_neg hw, filter_cons_of_pos (by simpa [Arm.isWildcard] using hw)]
      let j := i + (patterns.flatMap ofPattern).length
      obtain ⟨bs, hbs, hwritten⟩ := ih (j + body.length) ((blockTarget k a j body).run n).2
      refine ⟨⟨_, _⟩ :: bs, ?_, .cons ⟨rfl, Arm.written_blockTarget k a j n ⟨patterns, body⟩⟩ hwritten⟩
      rw [map_cons, ← hbs, Choice.ofBranch, ← intercalate_tests]
      rfl

lemma rel_wildcardTarget (arms : List Arm) (i n : Nat) :
    Option.Rel (Arm.Written k) (arms.find? (·.isWildcard)) ((wildcardTarget k a i arms).run n).1 := by
  induction arms generalizing i with
  | nil => exact .none
  | cons x arms ih =>
    obtain ⟨patterns, body⟩ := x
    rw [wildcardTarget]
    by_cases hw : patterns.any (·.isWildcard)
    · rw [if_pos hw, find?_cons_of_pos (by simpa [Arm.isWildcard] using hw)]
      exact .some (Arm.written_blockTarget k a _ n ⟨patterns, body⟩)
    · rw [if_neg hw, find?_cons_of_neg (by simpa [Arm.isWildcard] using hw)]
      exact ih _

lemma Stmt.exists_choice (depth n : Nat) (l : Location) (e : Expr) (arms : List Arm) : ∃ c : Choice,
    (((choose l e arms).lines k depth).run n).1 = TargetStmt.blockLines depth (c.target k) ∧
      c.subject = (if e.isRepeatable then .repeated e else .stored s!"ys_match_{n}" e) ∧
      Forall₂ (fun x b => b.values = x.values ∧ x.Written k b.body) (arms.filter (!·.isWildcard)) c.branches ∧
      Option.Rel (Arm.Written k) (arms.find? (·.isWildcard)) c.otherwise := by
  have hlines : (((choose l e arms).lines k depth).run n).1 =
      TargetStmt.blockLines depth (((choose l e arms).target k []).run n).1 := by
    rw [Stmt.lines_eq_target k depth []]
    rfl
  have hchain (subject : Subject) (m : Nat) : ∃ bs otherwise, ((do
        let tests ← armTargets k [] 1 (subject.code k) arms
        let otherwise ← wildcardTarget k [] 1 arms
        return subject.store k ++ TargetStmt.chain tests otherwise : StateM Nat _).run m).1 =
          Choice.target k ⟨subject, bs, otherwise⟩ ∧
      Forall₂ (fun x b => b.values = x.values ∧ x.Written k b.body) (arms.filter (!·.isWildcard)) bs ∧
      Option.Rel (Arm.Written k) (arms.find? (·.isWildcard)) otherwise := by
    obtain ⟨bs, hbs, hwritten⟩ := exists_armTargets k [] subject arms 1 m
    refine ⟨bs, _, ?_, hwritten, rel_wildcardTarget k [] arms 1
      ((armTargets k [] 1 (subject.code k) arms).run m).2⟩
    rw [Choice.target, ← hbs]
    rfl
  cases he : e.isRepeatable with
  | true =>
    obtain ⟨bs, otherwise, htarget, hbs, hotherwise⟩ := hchain (.repeated e) n
    refine ⟨⟨.repeated e, bs, otherwise⟩, ?_, rfl, hbs, hotherwise⟩
    rw [hlines, ← htarget, Stmt.target, if_pos he]
    rfl
  | false =>
    obtain ⟨bs, otherwise, htarget, hbs, hotherwise⟩ := hchain (.stored s!"ys_match_{n}" e) (n + 1)
    refine ⟨⟨.stored s!"ys_match_{n}" e, bs, otherwise⟩, ?_, rfl, hbs, hotherwise⟩
    rw [hlines, ← htarget, Stmt.target, if_neg (by simp [he])]
    rfl

end Lowering

lemma rel_find? {k} {holds : Expr → Bool} {arms : List Arm} {bs : List ChoiceBranch} {otherwise}
    (h : Forall₂ (fun x b => b.values = x.values ∧ x.Written k b.body) (arms.filter (!·.isWildcard)) bs)
    (ho : Option.Rel (Arm.Written k) (arms.find? (·.isWildcard)) otherwise) :
    Option.Rel (Arm.Written k) (chosenArm holds arms)
      (((bs.find? (·.values.any holds)).map (·.body)).or otherwise) := by
  have hfind : arms.find? (fun x => !x.isWildcard && x.values.any holds) =
      (arms.filter (!·.isWildcard)).find? (·.values.any holds) := by
    rw [find?_filter]
    simp only [Bool.decide_and, Bool.decide_eq_true]
  rw [chosenArm, hfind]
  generalize arms.filter (!·.isWildcard) = xs at h
  induction h with
  | nil => exact ho
  | @cons x b _ _ hxb _ ih =>
    rw [find?_cons, find?_cons, hxb.1]
    cases x.values.any holds with
    | true => exact .some hxb.2
    | false => exact ih

/-- A choice runs the first arm without a wildcard that has a value equal to the subject, or else the first arm with a
wildcard, or else nothing. -/
theorem Stmt.choose_runs_arm {V : Type} [DecidableEq V] (value : String → V) (k : Scene) (depth n : Nat) (l : Location)
    (e : Expr) (arms : List Arm) : ∃ c : Choice,
    (((choose l e arms).lines k depth).run n).1 = TargetStmt.blockLines depth (c.target k) ∧
      c.subject = (if e.isRepeatable then .repeated e else .stored s!"ys_match_{n}" e) ∧
      let holds := fun v => decide (value (c.subject.code k) = value (v.operand k))
      Option.Rel (Arm.Written k) (chosenArm holds arms) (c.run holds).1 := by
  obtain ⟨c, hlines, hsubject, hbs, hotherwise⟩ := exists_choice k depth n l e arms
  refine ⟨c, hlines, hsubject, ?_⟩
  dsimp only
  rw [Choice.run, Choice.runFrom_eq]
  exact rel_find? hbs hotherwise

def Node.isCall : Node → Bool
  | expr (.call ..) => true
  | _ => false

def Expr.calls (e : Expr) : List Node := (expr e).nodes.filter isCall

lemma Expr.member_of_calls {e : Expr} (he : e.isRepeatable) (hc : e.calls ≠ []) :
    ∃ l o name symbol, e = .member l o name symbol ∧ o.calls ≠ [] := by
  cases e with
  | member l o name symbol =>
    refine ⟨l, o, name, symbol, rfl, ?_⟩
    simpa [calls, nodes_eq (.expr (.member ..)), children, isCall] using hc
  | name l r => simp [calls, nodes_eq, children, isCall] at hc
  | literal l v => simp [calls, nodes_eq, children, isCall] at hc
  | _ => cases he

/-- A subject other than a name, a literal or a member is written and evaluated once. These are written once for each
value that they are compared with, and evaluated up to the first value that is equal. So the calls in a subject are
written once just if there are none, the subject is stored, or there is one value. -/
theorem Stmt.subject_copies (k : Scene) (depth n : Nat) (l : Location) (e : Expr) (arms : List Arm) : ∃ c : Choice,
    (((choose l e arms).lines k depth).run n).1 = TargetStmt.blockLines depth (c.target k) ∧
      c.tests = (arms.filter (!·.isWildcard)).flatMap Arm.values ∧
      c.copies = (if e.isRepeatable then List.replicate c.tests.length e else [e]) ∧
      (∀ holds, c.evaluations holds = if e.isRepeatable then
        List.replicate (min c.tests.length (c.tests.findIdx holds + 1)) e else [e]) ∧
      (c.copies.flatMap Expr.calls = e.calls ↔ e.calls = [] ∨ e.isRepeatable = false ∨ c.tests.length = 1) ∧
      (e.isRepeatable → e.calls ≠ [] → ∃ l o name symbol, e = .member l o name symbol ∧ o.calls ≠ []) := by
  obtain ⟨c, hlines, hsubject, hbs, -⟩ := exists_choice k depth n l e arms
  have hcopies : c.copies = if e.isRepeatable then List.replicate c.tests.length e else [e] := by
    rw [Choice.copies, hsubject]
    cases e.isRepeatable <;> rfl
  refine ⟨c, hlines, ?_, hcopies, fun holds => ?_, ?_, Expr.member_of_calls⟩
  · rw [Choice.tests]
    generalize arms.filter (!·.isWildcard) = xs, c.branches = bs at hbs
    induction hbs with
    | nil => rfl
    | cons hxb _ ih => rw [flatMap_cons, flatMap_cons, hxb.1, ih]
  · rw [Choice.evaluations, hsubject, Choice.run, Choice.runFrom_eq]
    cases e.isRepeatable <;> rfl
  · rw [hcopies]
    cases e.isRepeatable with
    | false => simp
    | true =>
      have hlength : ((List.replicate c.tests.length e).flatMap Expr.calls).length =
          c.tests.length * e.calls.length := by simp
      constructor
      · intro h
        have h' := hlength.symm.trans (congrArg List.length h)
        rcases Nat.eq_zero_or_pos e.calls.length with hz | hpos
        · exact .inl (length_eq_zero_iff.mp hz)
        · exact .inr (.inr (Nat.eq_of_mul_eq_mul_right hpos (h'.trans (Nat.one_mul _).symm)))
      · rintro (h | h | h)
        · simp [h]
        · cases h
        · simp [h]

end SketchCompiler
