import Mathlib.Order.Nat
import SketchCompiler.Grammar.Program

namespace SketchCompiler

open List

variable {s t : Cursor} {n : Nat}

namespace Parser

variable {α β : Type} {late fresh : Bool} {p p' q q' : Parser α} {f f' : α → Parser β}

/-- The first rule leaves an end of the tokens ahead, and a fresh one takes a token. The second rule does the same as
long as there are at most `n` tokens ahead, or, if it is late, fewer than `n`. -/
class Reads (n : Nat) (late fresh : Bool) (p p' : Parser α) : Prop where
  agree {s : Cursor} : s.rest.length + late.toNat ≤ n → p s = p' s
  takes {s t : Cursor} {a} : p s = .ok (a, t) → t.rest <:+ s.rest ∧ t.rest.length + fresh.toNat ≤ s.rest.length

/-- The rule leaves an end of the tokens ahead, whatever there may be. -/
abbrev Takes (n : Nat) (late fresh : Bool) (p : Parser α) : Prop := Reads n late fresh p p

lemma run_bind {a : α} (h : p s = .ok (a, t)) : (p >>= f) s = f a t := by
  simp only [Bind.bind, StateT.bind, h]
  rfl

lemma run_bind_error {e : Failure} (h : p s = .error e) : (p >>= f) s = .error e := by
  simp only [Bind.bind, StateT.bind, h]
  rfl

lemma exists_of_bind {b : β} (h : (p >>= f) s = .ok (b, t)) : ∃ a u, p s = .ok (a, u) ∧ f a u = .ok (b, t) := by
  rcases hs : p s with e | ⟨a, u⟩
  · cases (run_bind_error hs).symm.trans h
  · exact ⟨a, u, rfl, (run_bind hs).symm.trans h⟩

/-- A rule that takes a token, and is not late. -/
abbrev Fresh (n : Nat) (p p' : Parser α) : Prop := Reads n false true p p'

namespace Reads

lemma old (h : Reads n late true p p') : Reads n late false p p' :=
  ⟨h.agree, fun hs => ⟨(h.takes hs).1, (h.takes hs).1.length_le⟩⟩

lemma later (h : Reads n false fresh p p') : Reads n true fresh p p' :=
  ⟨fun hs => h.agree (Nat.le_of_succ_le hs), h.takes⟩

lemma bind {b c late' : Bool} (hp : Reads n late b p p') (hf : ∀ a, Reads n late' c (f a) (f' a))
    (hlate : late'.toNat ≤ late.toNat + b.toNat) (hfresh : fresh.toNat ≤ b.toNat + c.toNat) :
    Reads n late fresh (p >>= f) (p' >>= f') where
  agree {s} hs := by
    have heq := hp.agree hs
    rcases hps : p s with e | ⟨a, t⟩
    · rw [run_bind_error hps, run_bind_error (heq.symm.trans hps)]
    · rw [run_bind hps, run_bind (heq.symm.trans hps)]
      have hlen := (hp.takes hps).2
      exact (hf a).agree (by omega)
  takes ht := by
    obtain ⟨a, u, hs, ht⟩ := exists_of_bind ht
    obtain ⟨hu, hlen⟩ := hp.takes hs
    obtain ⟨ht, hlen'⟩ := (hf a).takes ht
    exact ⟨ht.trans hu, by omega⟩

/-- What comes behind a token is late. -/
lemma behind [hp : Reads n late true p p'] (hf : ∀ a, Reads n true false (f a) (f' a)) :
    Reads n late fresh (p >>= f) (p' >>= f') :=
  hp.bind hf (Nat.le_add_left _ _) (Bool.toNat_le fresh)

lemma after [hp : Reads n late false p p'] (hf : ∀ a, Reads n late fresh (f a) (f' a)) :
    Reads n late fresh (p >>= f) (p' >>= f') := hp.bind hf (by simp) (by simp)

end Reads

instance (priority := low) [h : Reads n late true p p'] : Reads n late false p p' := h.old

instance (priority := low) [h : Reads n false fresh p p'] : Reads n true fresh p p' := h.later

instance [Reads n late false p p'] [hf : ∀ a, Reads n late fresh (f a) (f' a)] :
    Reads n late fresh (p >>= f) (p' >>= f') := .after hf

instance [Reads n late true p p'] [hf : ∀ a, Reads n true false (f a) (f' a)] :
    Reads n late fresh (p >>= f) (p' >>= f') := .behind hf

instance (a : α) : Takes n late false (pure a) := ⟨fun _ => rfl, fun h => by cases h; exact ⟨suffix_rfl, le_rfl⟩⟩

instance : Takes n late false (get : Parser Cursor) :=
  ⟨fun _ => rfl, fun h => by cases h; exact ⟨suffix_rfl, le_rfl⟩⟩

lemma Reads.map (hp : Reads n late fresh p p') (h : α → β) : Reads n late fresh (h <$> p) (h <$> p') := by
  rw [map_eq_pure_bind, map_eq_pure_bind]
  exact hp.bind (c := false) (fun _ => inferInstance) (Nat.le_add_right _ _) le_rfl

instance [hp : Reads n late fresh p p'] (h : α → β) : Reads n late fresh (h <$> p) (h <$> p') := hp.map h

instance {c : Prop} [Decidable c] [hp : Reads n late fresh p p'] [hq : Reads n late fresh q q'] :
    Reads n late fresh (if c then p else q) (if c then p' else q') := by
  split
  · exact hp
  · exact hq

instance {e : ParseError} : Takes n late fresh (fail e : Parser α) := ⟨fun _ => rfl, fun h => by cases h⟩

instance {l : Location} {e : ParseError} : Takes n late fresh (failAt l e : Parser α) :=
  ⟨fun _ => rfl, fun h => by cases h⟩

instance [h : Reads n late fresh p p'] : Reads n late fresh (strict p) (strict p') where
  agree hs := by rw [strict, strict, h.agree hs]
  takes ht := by
    unfold strict at ht
    split at ht
    · cases ht
    · exact h.takes ht

instance [h : Reads n late fresh p p'] : Reads n late fresh (weaken p) (weaken p') where
  agree hs := by rw [weaken, weaken, h.agree hs]
  takes ht := by
    unfold weaken at ht
    split at ht
    · cases ht
    · exact h.takes ht

instance {x : Token} {isIt : Token → Bool} : Takes n late true (expectToken x isIt) where
  agree _ := rfl
  takes {s _ _} h := by
    obtain ⟨_ | ⟨t, us⟩, last⟩ := s
    · cases h
    · simp only [expectToken] at h
      split at h
      · cases h
        exact ⟨suffix_cons _ _, le_rfl⟩
      · cases h

instance : Takes n late true next where
  agree _ := rfl
  takes {s _ _} h := by
    obtain ⟨_ | ⟨t, us⟩, last⟩ := s
    · cases h
    · cases h
      exact ⟨suffix_cons _ _, le_rfl⟩

instance {e : Token → ParseError} : Takes n late true (refuse e : Parser α) := .behind inferInstance

instance : Takes n late false last := .after inferInstance

instance : Takes n late false peek := .after inferInstance

instance : Takes n late false onSameLine := .after inferInstance

instance : Takes n late false peekOnLine := .after inferInstance

instance {mark : Punct} : Takes n late false (peekIs mark) := .after inferInstance

instance : Takes n late true skip := .behind inferInstance

instance {mark : Punct} : Takes n late true (expect mark) := by unfold expect; infer_instance

instance {word : Keyword} : Takes n late true (expectWord word) := by unfold expectWord; infer_instance

instance {mark : Punct} : Takes n late false (accept mark) := .after inferInstance

instance {word : Keyword} : Takes n late false (acceptWord word) := .after inferInstance

instance : Takes n late true id := .behind fun t => by split <;> infer_instance

instance : Takes n late false endOfStatement := .after fun t => by split <;> infer_instance

lemma Reads.located {rule rule' : Parser (Location → α)} (h : Reads n late true rule rule') :
    Reads n late true (located rule) (located rule') := .after fun s => by split <;> infer_instance

instance {rule rule' : Parser (Location → α)} [h : Reads n late true rule rule'] :
    Reads n late true (located rule) (located rule') := h.located

/-- A round of a loop, which takes a token if the loop goes on. -/
class Rounds (n : Nat) (late : Bool) (p p' : Parser (Step β)) : Prop where
  reads : Reads n late false p p'
  shrinks {s t b} : p s = .ok (.again b, t) → t.rest.length < s.rest.length

section Rounds

variable {p p' : Parser (Step β)} {step step' : β → Parser (Step β)}

lemma Rounds.of_fresh (h : Reads n late true p p') : Rounds n late p p' := ⟨h.old, fun hs => (h.takes hs).2⟩

instance (priority := low) [h : Reads n late true p p'] : Rounds n late p p' := .of_fresh h

instance (priority := low) [h : Rounds n false p p'] : Rounds n true p p' := ⟨h.reads.later, h.shrinks⟩

instance {b : β} : Rounds n late (pure (.done b)) (pure (.done b)) := ⟨inferInstance, fun h => by cases h⟩

lemma Rounds.ahead {q q' : Parser α} {f f' : α → Parser (Step β)} [hq : Reads n late false q q']
    (hf : ∀ a, Rounds n late (f a) (f' a)) : Rounds n late (q >>= f) (q' >>= f') where
  reads := .after fun a => (hf a).reads
  shrinks h := by
    obtain ⟨a, u, hs, h⟩ := exists_of_bind h
    exact ((hf a).shrinks h).trans_le (hq.takes hs).2

lemma Rounds.branch {q : Parser α} [Takes n late false q] {c : α → Bool} {yes yes' no no' : Parser (Step β)}
    [Reads n true false yes yes'] [hno : Rounds n late no no'] :
    Rounds n late ((do if c (← q) then skip; return true else return false) >>= fun b => if b then yes else no)
      ((do if c (← q) then skip; return true else return false) >>= fun b => if b then yes' else no') := by
  simp only [bind_assoc]
  refine .ahead fun a => ?_
  cases c a with
  | true =>
    have h : Rounds n late (skip >>= fun _ => yes) (skip >>= fun _ => yes') := .of_fresh (.behind inferInstance)
    simpa using h
  | false => simpa using hno

instance {mark : Punct} {yes yes' no no' : Parser (Step β)} [Reads n true false yes yes'] [Rounds n late no no'] :
    Rounds n late (accept mark >>= fun b => if b then yes else no) (accept mark >>= fun b => if b then yes' else no') :=
  .branch

instance {word : Keyword} {yes yes' no no' : Parser (Step β)} [Reads n true false yes yes'] [Rounds n late no no'] :
    Rounds n late (acceptWord word >>= fun b => if b then yes else no)
      (acceptWord word >>= fun b => if b then yes' else no') :=
  .branch

instance [h : ∀ b, Rounds n late (step b) (step' b)] (b : β) :
    Reads n late false (iterate step b) (iterate step' b) := by
  have hrounds (j : Nat) (b : β) : Reads n late false (rounds step j b) (rounds step' j b) := by
    induction j generalizing b with
    | zero => exact inferInstanceAs (Takes n late false (pure b))
    | succ j ih =>
      have := (h b).reads
      refine .after fun x => ?_
      cases x with
      | again b => exact ih b
      | done b => exact inferInstanceAs (Takes n late false (pure b))
  exact ⟨fun hs => (hrounds _ b).agree hs, fun ht => (hrounds _ b).takes ht⟩

/-- A loop that goes on only if it took a token, so that it never ends for the bound on its rounds. -/
structure Proceeds (step : β → Parser (Step β)) : Prop where
  shrinks {b b' s t} : step b s = .ok (.again b', t) → t.rest.length < s.rest.length
  ends {b b' s t} : iterate step b s = .ok (b', t) → ∃ c u, step c u = .ok (.done b', t)

lemma rounds_ends [h : ∀ b, Rounds 0 true (step b) (step b)] {j : Nat} {b b' : β} (hj : s.rest.length < j)
    (hs : rounds step j b s = .ok (b', t)) : ∃ c u, step c u = .ok (.done b', t) := by
  induction j generalizing b s with
  | zero => cases hj
  | succ j ih =>
    obtain ⟨x, u, hstep, hs⟩ := exists_of_bind hs
    cases x with
    | again b'' => exact ih (((h b).shrinks hstep).trans_le (Nat.le_of_lt_succ hj)) hs
    | done b'' =>
      cases hs
      exact ⟨b, s, hstep⟩

lemma proceeds [h : ∀ b, Rounds 0 true (step b) (step b)] : Proceeds step :=
  ⟨fun {b _ _ _} hs => (h b).shrinks hs, fun hs => rounds_ends (Nat.lt_succ_self _) hs⟩

end Rounds

def commaStep (rule : Parser α) (as : List α) : Parser (Step (List α)) := do
  if ← accept .comma then return .again (as ++ [← strict rule]) else return .done as

lemma commaSeparated_eq {a : α} (h : p s = .ok (a, t)) : commaSeparated p s = iterate (commaStep p) [a] t := by
  rw [commaSeparated, h]
  rfl

instance [Reads n late false p p'] (as : List α) : Rounds n late (commaStep p as) (commaStep p' as) := by
  unfold commaStep
  cases late <;> infer_instance

instance [h : Reads n late false p p'] : Reads n late false (commaSeparated p) (commaSeparated p') := by
  have hall : Reads n late false (p >>= fun a => iterate (commaStep p) [a])
      (p' >>= fun a => iterate (commaStep p') [a]) := inferInstance
  constructor
  · intro s hs
    have heq := h.agree hs
    rcases hps : p s with f | ⟨a, t⟩
    · rw [commaSeparated, commaSeparated, hps, ← heq, hps]
    · have heq' := heq.symm.trans hps
      rw [commaSeparated_eq hps, commaSeparated_eq heq']
      exact (run_bind hps).symm.trans ((hall.agree hs).trans (run_bind heq'))
  · intro s t as ht
    rcases hps : p s with f | ⟨a, u⟩
    · simp only [commaSeparated, hps] at ht
      split at ht <;> cases ht
      exact ⟨suffix_rfl, le_rfl⟩
    · exact hall.takes ((run_bind hps).trans ((commaSeparated_eq hps).symm.trans ht))

def bracedStep (rule : Parser α) (as : List α) : Parser (Step (List α)) := do
  match ← peek with
  | none => fail (.missingToken (.punct .closeCurly))
  | some (.punct .closeCurly) =>
    skip
    return .done as
  | some _ =>
    let a ← strict rule
    unless ← accept .comma do
      match ← peekOnLine with
      | none | some (.punct .closeCurly) => pure ()
      | some _ => refuse .expectedSeparator
    return .again (as ++ [a])

lemma braced_eq (rule : Parser α) : braced rule = (do expect .openCurly; iterate (bracedStep rule) []) := rfl

instance [Reads n late true p p'] (as : List α) : Rounds n late (bracedStep p as) (bracedStep p' as) := by
  refine .ahead fun t => ?_
  split
  · infer_instance
  · infer_instance
  · refine .of_fresh (.behind fun a => .after fun found => ?_)
    split
    · infer_instance
    · exact .after fun t => by split <;> infer_instance

instance [Reads n late true p p'] : Reads n late true (braced p) (braced p') := by
  rw [braced_eq, braced_eq]
  cases late <;> infer_instance

/-- The rule takes a token whenever it succeeds. -/
def Consumes (p : Parser α) : Prop := ∀ s a t, p s = .ok (a, t) → ∃ u us, s.rest = u :: us ∧ t.rest <:+ us

lemma consumes [h : Takes 0 false true p] : Consumes p := by
  intro s a t hs
  obtain ⟨⟨us, hus⟩, hlen⟩ := h.takes hs
  cases us with
  | nil =>
    rw [← hus] at hlen
    exact absurd hlen (Nat.not_succ_le_self _)
  | cons u us => exact ⟨u, us ++ t.rest, hus.symm, suffix_append _ _⟩

lemma Consumes.takes (h : Consumes p) : Takes n late true p := by
  refine ⟨fun _ => rfl, fun hs => ?_⟩
  obtain ⟨u, us, hu, ht⟩ := h _ _ _ hs
  rw [hu]
  exact ⟨ht.trans (suffix_cons _ _), Nat.succ_le_succ ht.length_le⟩

end Parser

namespace Grammar

open SketchCompiler.Parser

variable {late : Bool} {g g' : Grammar}

instance : Takes n late true typeName := by
  unfold typeName
  refine .behind fun first => .after fun type => .after fun s => ?_
  split <;> infer_instance

instance : Takes n late false qualifier := .after inferInstance

instance : Takes n late true native := by
  refine .behind fun t => ?_
  extract_lets rest
  have : Takes n true false (rest ()) := .after fun t => by split <;> infer_instance
  split <;> infer_instance

instance : Takes n late true trigger := .behind fun t => by split <;> infer_instance

instance : Takes n late true param := .behind inferInstance

instance : Takes n late true params := .behind inferInstance

instance : Takes n late true structField := .behind inferInstance

instance : Takes n late true load := .behind fun _ => .after fun t => by split <;> infer_instance

instance : Takes n late true enumDecl := .behind inferInstance

instance : Takes n late true structDecl := .behind inferInstance

instance {p p' : Parser Expr} [Reads n true false p p'] : Reads n late true (fieldValue p) (fieldValue p') :=
  .behind inferInstance

/-- The rules of `g` leave an end of the tokens, and those of `g'` do the same with fewer than `n` tokens ahead. -/
class Level (n : Nat) (g g' : Grammar) : Prop where
  binary (restricted : Bool) (level : Nat) : Reads n true false (g.binary restricted level) (g'.binary restricted level)
  unary (restricted : Bool) : Reads n true false (g.unary restricted) (g'.unary restricted)
  block : Reads n true false g.block g'.block

attribute [instance] Level.binary Level.unary Level.block

section Rules

variable [Level n g g']

instance (close : Punct) : Reads n true false (arguments g close) (arguments g' close) := .after inferInstance

instance : Fresh n (primary g) (primary g') := .behind fun t => by split <;> infer_instance

instance (restricted : Bool) (e : Expr) : Rounds n false (suffix g restricted e) (suffix g' restricted e) := by
  refine .ahead fun t => .ahead fun here => ?_
  split
  · infer_instance
  · infer_instance
  · infer_instance
  · infer_instance
  · split <;> infer_instance
  · infer_instance

instance (restricted : Bool) : Fresh n (suffixed g restricted) (suffixed g' restricted) :=
  .behind inferInstance

instance (restricted : Bool) : Fresh n (unaryRule g restricted) (unaryRule g' restricted) :=
  .after fun t => by split <;> infer_instance

instance (restricted : Bool) (level : Nat) (e : Expr) :
    Rounds n false (operation g restricted level e) (operation g' restricted level e) := by
  refine .ahead fun t => ?_
  split
  · split <;> infer_instance
  · infer_instance

instance (restricted : Bool) (level : Nat) :
    Fresh n (binaryRule g restricted level) (binaryRule g' restricted level) := .behind inferInstance

instance : Fresh n (expr g) (expr g') := by unfold expr; infer_instance

instance : Fresh n (condition g) (condition g') := by unfold condition; infer_instance

instance (e : Expr) : Reads n false false (guard g e) (guard g' e) := .after fun t => by split <;> infer_instance

instance : Fresh n (guardable g) (guardable g') := .behind inferInstance

instance : Fresh n (range g) (range g') := .behind inferInstance

instance : Fresh n (varDecl g) (varDecl g') := by
  refine .after fun qualifier => .behind fun type => .after fun name => .after fun found => ?_
  extract_lets rest rest'
  have (r : Option Range) : Reads n true false (rest r) (rest' r) := .after fun found => by split <;> infer_instance
  split
  · split <;> infer_instance
  · infer_instance

instance : Fresh n (simpleStmt g) (simpleStmt g') := .behind inferInstance

instance : Fresh n (branch g) (branch g') := .behind inferInstance

instance (bs : List Branch × Option (List Stmt)) : Rounds n false (elseBranch g bs) (elseBranch g' bs) := .branch

instance : Fresh n (condStmt g) (condStmt g') := .behind inferInstance

instance : Fresh n (forStmt g) (forStmt g') := by
  refine .behind fun _ => .after fun _ => .after fun absent => ?_
  extract_lets rest rest'
  have hrest (init : Option Stmt) : Reads n true false (rest init) (rest' init) := by
    refine .after fun _ => .after fun absent => ?_
    extract_lets rest rest'
    have (e : Option Expr) : Reads n true false (rest e) (rest' e) :=
      .after fun _ => .after fun absent => by split <;> infer_instance
    split <;> infer_instance
  split
  · infer_instance
  · exact (Reads.map (.located (.after fun t => by split <;> infer_instance)) _).bind hrest (by simp) (by simp)

instance : Fresh n (pattern g) (pattern g') := .after fun t => by split <;> infer_instance

instance : Fresh n (arm g) (arm g') :=
  .behind fun _ => .after fun _ => .after fun _ => .after fun t => by split <;> infer_instance

instance : Fresh n (chooseStmt g) (chooseStmt g') := .behind inferInstance

instance (cs : List Branch × Option (List Stmt)) : Fresh n (switchCase g cs) (switchCase g' cs) :=
  .behind fun t => by split <;> infer_instance

instance : Fresh n (switchStmt g) (switchStmt g') := .behind inferInstance

instance : Fresh n (returnStmt g) (returnStmt g') :=
  .behind fun _ => .after fun t => by split <;> infer_instance

instance : Fresh n (plainStmt g) (plainStmt g') := .after fun t => by split <;> infer_instance

instance : Fresh n (stmtRule g) (stmtRule g') := .after fun t => by split <;> infer_instance

instance : Fresh n (stmt g) (stmt g') := by unfold stmt; infer_instance

def blockStep (g : Grammar) (ss : List Stmt) : Parser (Step (List Stmt)) := do
  match ← peek with
  | none => fail (.missingToken (.punct .closeCurly))
  | some (.punct .closeCurly) =>
    skip
    return .done ss
  | some (.punct .semicolon) =>
    skip
    return .again ss
  | some _ => return .again (ss ++ [← stmt g])

lemma blockRule_eq (g : Grammar) : blockRule g = (do expect .openCurly; iterate (blockStep g) []) := rfl

instance (ss : List Stmt) : Rounds n false (blockStep g ss) (blockStep g' ss) :=
  .ahead fun t => by split <;> infer_instance

instance : Fresh n (blockRule g) (blockRule g') := by
  rw [blockRule_eq, blockRule_eq]
  infer_instance

instance : Fresh n (function g) (function g') :=
  .behind fun _ => .after fun _ => .after fun _ => .after fun found => by split <;> infer_instance

instance (d : ClassDecl) : Rounds n false (classMember g d) (classMember g' d) :=
  .ahead fun t => by split <;> infer_instance

instance : Fresh n (classDecl g) (classDecl g') := .behind inferInstance

instance : Fresh n (event g) (event g') := .behind inferInstance

instance : Fresh n (interrupt g) (interrupt g') :=
  .behind fun _ => .after fun t => by split <;> infer_instance

instance : Fresh n (task g) (task g') :=
  .behind fun _ => .after fun _ => .after fun t => by split <;> infer_instance

instance : Fresh n (aliasDecl g) (aliasDecl g') := .behind inferInstance

instance : Fresh n (plainItem g) (plainItem g') := .after fun t => by split <;> infer_instance

instance : Fresh n (itemRule g) (itemRule g') := .after fun t => by split <;> infer_instance

instance : Fresh n (item g) (item g') := by unfold item; infer_instance

instance (p : Program) : Rounds n false (programStep g p) (programStep g' p) :=
  .ahead fun t => by split <;> infer_instance

lemma reads_program (name : String) : Reads n false false (program g name) (program g' name) := by
  unfold program
  infer_instance

end Rules

/-- The rules that read what is nested in them by the rules of `g`. -/
def next (g : Grammar) : Grammar := ⟨binaryRule g, unaryRule g, blockRule g⟩

instance level_self (n d : Nat) : Level n (ofDepth d) (ofDepth d) := by
  induction d with
  | zero => exact ⟨fun _ _ => inferInstanceAs (Takes _ _ _ (fail _)), fun _ => inferInstanceAs (Takes _ _ _ (fail _)),
      inferInstanceAs (Takes _ _ _ (fail _))⟩
  | succ d _ => exact ⟨fun r l => inferInstanceAs (Takes n true false (binaryRule (ofDepth d) r l)),
      fun r => inferInstanceAs (Takes n true false (unaryRule (ofDepth d) r)),
      inferInstanceAs (Takes n true false (blockRule (ofDepth d)))⟩

lemma Level.zero [h : Level 0 g g] (g' : Grammar) : Level 0 g g' where
  binary r l := ⟨fun hs => absurd hs (Nat.not_succ_le_zero _), (h.binary r l).takes⟩
  unary r := ⟨fun hs => absurd hs (Nat.not_succ_le_zero _), (h.unary r).takes⟩
  block := ⟨fun hs => absurd hs (Nat.not_succ_le_zero _), h.block.takes⟩

lemma Level.next (h : Level n g g') : Level (n + 1) g.next g'.next := by
  have step {α : Type} {p p' : Parser α} (h : Fresh n p p') : Reads (n + 1) true false p p' :=
    ⟨fun hs => h.agree (Nat.le_of_succ_le_succ hs), h.old.takes⟩
  exact ⟨fun r l => step (inferInstanceAs (Fresh n (binaryRule g r l) (binaryRule g' r l))),
    fun r => step (inferInstanceAs (Fresh n (unaryRule g r) (unaryRule g' r))),
    step (inferInstanceAs (Fresh n (blockRule g) (blockRule g')))⟩

/-- More levels than there are tokens ahead make no difference. -/
lemma level_ofDepth {d d' : Nat} (hd : n ≤ d) (hd' : n ≤ d') : Level n (ofDepth d) (ofDepth d') := by
  induction n generalizing d d' with
  | zero => exact .zero _
  | succ n ih =>
    obtain ⟨d, rfl⟩ := Nat.exists_eq_add_of_le' hd
    obtain ⟨d', rfl⟩ := Nat.exists_eq_add_of_le' hd'
    exact (ih (Nat.le_add_left n d) (Nat.le_add_left n d')).next

lemma level_of_next (hg : g.next = g) (n : Nat) : Level n (ofDepth n) g := by
  induction n with
  | zero => exact .zero _
  | succ n ih =>
    rw [← hg]
    exact ih.next

/-- The rules with as many levels as the tokens ahead may need. -/
def whole : Grammar where
  binary r l := fun s => (ofDepth (s.rest.length + 1)).binary r l s
  unary r := fun s => (ofDepth (s.rest.length + 1)).unary r s
  block := fun s => (ofDepth (s.rest.length + 1)).block s

lemma level_whole {d : Nat} (hd : n ≤ d) : Level n (ofDepth d) whole where
  binary r l := ⟨fun hs => ((level_ofDepth (hs.trans hd) le_rfl).binary r l).agree le_rfl,
    ((level_self n d).binary r l).takes⟩
  unary r := ⟨fun hs => ((level_ofDepth (hs.trans hd) le_rfl).unary r).agree le_rfl, ((level_self n d).unary r).takes⟩
  block := ⟨fun hs => (level_ofDepth (hs.trans hd) le_rfl).block.agree le_rfl, (level_self n d).block.takes⟩

lemma ext_of_level {h : Grammar} (hg : ∀ n, Level n (ofDepth n) g) (hh : ∀ n, Level n (ofDepth n) h) : g = h := by
  obtain ⟨binary, unary, block⟩ := g
  obtain ⟨binary', unary', block'⟩ := h
  congr 1
  · funext r l s
    exact (((hg _).binary r l).agree le_rfl).symm.trans (((hh _).binary r l).agree le_rfl)
  · funext r s
    exact (((hg _).unary r).agree le_rfl).symm.trans (((hh _).unary r).agree le_rfl)
  · funext s
    exact ((hg _).block.agree le_rfl).symm.trans ((hh _).block.agree le_rfl)

lemma next_whole : whole.next = whole := by
  refine ext_of_level (fun n => ?_) fun n => level_whole le_rfl
  cases n with
  | zero => exact .zero _
  | succ n => exact (level_whole le_rfl).next

lemma eq_whole (hg : g.next = g) : g = whole := ext_of_level (level_of_next hg) fun _ => level_whole le_rfl

lemma programStep_done {p q} (h : programStep g p s = .ok (.done q, t)) : t.rest = [] := by
  obtain ⟨rest, last⟩ := s
  cases rest with
  | nil =>
    cases h
    rfl
  | cons u us =>
    -- With a token ahead, each way to succeed asks for one more round.
    have hpeek : peek ⟨u :: us, last⟩ = .ok (some u.value, ⟨u :: us, last⟩) := rfl
    rw [programStep, run_bind hpeek] at h
    generalize hv : some u.value = v at h
    split at h
    case h_1 => cases hv
    case h_2 =>
      rw [run_bind (p := Parser.next) rfl] at h
      split at h <;> cases h
    case h_3 => cases h
    case h_4 =>
      simp only [Bind.bind, StateT.bind] at h
      rcases hi : item g ⟨u :: us, last⟩ with e | ⟨i, r⟩ <;> rw [hi] at h <;> cases h

end Grammar

namespace Program

open Grammar SketchCompiler.Parser

end Program

end SketchCompiler
