import SketchCompiler.Proofs.ExprRoundTrip

namespace SketchCompiler

open SketchCompiler.Parser Grammar List

/-- The operand rule reads a run of tokens as `e`, whatever levels it has beyond one for each token ahead. -/
structure ReadsOperand (restricted : Bool) (s : Cursor) (e : Expr) (s' : Cursor) : Prop where
  suffix : s'.rest <:+ s.rest
  unary {n : Nat} : s.rest.length ≤ n → unaryRule (.ofDepth n) restricted s = .ok (e, s')

/-- Operators and their right operands, one after the other. -/
inductive ReadsOperations (restricted : Bool) : Cursor → List (BinOp × Expr) → Cursor → Prop
  | nil {s} : ReadsOperations restricted s [] s
  | cons {s s₁ s₂ s₃ op e ops} (hop : s.operator? = some (op, s₁)) (he : ReadsOperand restricted s₁ e s₂)
      (h : ReadsOperations restricted s₂ ops s₃) : ReadsOperations restricted s ((op, e) :: ops) s₃

/-- Operands with the operators that join them. An operand may be an operation in parentheses. -/
inductive Spine where
  | operand (e : Expr)
  | node (left : Spine) (op : BinOp) (right : Spine)

namespace Spine

def expr : Spine → Expr
  | operand e => e
  | node left op right => .binary (left.expr.loc.through right.expr.loc) left.expr op right.expr

def first : Spine → Expr
  | operand e => e
  | node left _ _ => left.first

def operations : Spine → List (BinOp × Expr)
  | operand _ => []
  | node left op right => left.operations ++ (op, right.first) :: right.operations

/-- The tree is read in order as these operands and operators. -/
def Reads (t : Spine) (e : Expr) (ops : List (BinOp × Expr)) : Prop := t.first = e ∧ t.operations = ops

/-- To the left of an operator no other is looser, and to the right all are tighter. -/
def Nested : Spine → Prop
  | operand _ => True
  | node left op right => left.Nested ∧ right.Nested ∧ (∀ x ∈ left.operations, op.level ≤ x.1.level) ∧
      ∀ x ∈ right.operations, op.level < x.1.level

def push (op : BinOp) (e : Expr) : Spine → Spine
  | operand x => node (operand x) op (operand e)
  | node left o right =>
    if op.level ≤ o.level then node (node left o right) op (operand e) else node left o (right.push op e)

lemma Nested.exists_push {t : Spine} (ht : t.Nested) {ops} {op} {e}
    (h : t.operations = ops ++ [(op, e)]) : ∃ t' : Spine, t'.Nested ∧ t'.first = t.first ∧ t'.operations = ops ∧
      t = t'.push op e := by
  induction t generalizing ops with
  | operand x => simp [operations] at h
  | node left o right ihl ihr =>
    obtain ⟨hl, hr, hleft, hright⟩ := ht
    rcases right.operations.eq_nil_or_concat with hnil | ⟨ops', ⟨op', e'⟩, hops'⟩
    · rw [operations, hnil] at h
      obtain ⟨rfl, hlast⟩ := append_inj' h rfl
      obtain ⟨rfl, rfl⟩ := Prod.mk.inj (singleton_inj.mp hlast)
      refine ⟨left, hl, rfl, rfl, ?_⟩
      cases right with
      | node => simp [operations] at hnil
      | operand x =>
        cases left with
        | operand y => rfl
        | node l' o' r' => rw [push, if_pos (hleft (o', r'.first) (by simp [operations])), first]
    · rw [concat_eq_append] at hops'
      rw [operations, hops', ← cons_append, ← append_assoc] at h
      obtain ⟨rfl, hlast⟩ := append_inj' h rfl
      obtain ⟨rfl, rfl⟩ := Prod.mk.inj (singleton_inj.mp hlast)
      obtain ⟨right', hr', hfirst, rfl, rfl⟩ := ihr hr hops'
      have hop : ¬ op'.level ≤ o.level := not_le.mpr (hright (op', e') (by simp [hops']))
      refine ⟨node left o right', ⟨hl, hr', hleft, fun x hx => hright x (by simp [hops', hx])⟩, rfl, ?_, ?_⟩
      · rw [operations, hfirst]
      · rw [push, if_neg hop]

lemma Nested.unique {t t' : Spine} (ht : t.Nested) (ht' : t'.Nested) {e} {ops}
    (h : t.Reads e ops) (h' : t'.Reads e ops) : t = t' := by
  induction ops using List.reverseRecOn generalizing t t' with
  | nil =>
    obtain ⟨rfl, h⟩ := h
    obtain ⟨hfirst, h'⟩ := h'
    cases t with
    | node => simp [operations] at h
    | operand x =>
      cases t' with
      | node => simp [operations] at h'
      | operand y => exact congrArg operand hfirst.symm
  | append_singleton ops x ih =>
    obtain ⟨u, hu, hfirst, hops, rfl⟩ := ht.exists_push h.2
    obtain ⟨u', hu', hfirst', hops', rfl⟩ := ht'.exists_push h'.2
    rw [ih hu hu' ⟨hfirst.trans h.1, hops⟩ ⟨hfirst'.trans h'.1, hops'⟩]

end Spine

section Rules

variable {restricted : Bool} {level : Nat} {s s₁ s₂ s' : Cursor} {op : BinOp} {e : Expr}
  {ops ops' : List (BinOp × Expr)}

namespace ReadsOperations

lemma length_le (h : ReadsOperations restricted s ops s') : ops.length + s'.rest.length ≤ s.rest.length := by
  induction h with
  | nil => simp
  | cons hop he _ ih =>
    have hlt := (run_skip_operator hop).2
    have hle := he.suffix.length_le
    simp only [length_cons]
    omega

lemma split (h : ReadsOperations restricted s (ops ++ ops') s') :
    ∃ s₁, ReadsOperations restricted s ops s₁ ∧ ReadsOperations restricted s₁ ops' s' := by
  induction ops generalizing s with
  | nil => exact ⟨s, .nil, h⟩
  | cons x ops ih =>
    cases h with
    | cons hop he h =>
      obtain ⟨s₁, h1, h2⟩ := ih h
      exact ⟨s₁, .cons hop he h1, h2⟩

lemma operator?_eq (h : ReadsOperations restricted s ops s') (hend : s'.operator? = none) :
    s.operator?.map (·.1) = ops.head?.map (·.1) := by
  cases h with
  | nil =>
    rw [hend]
    rfl
  | cons hop _ _ =>
    rw [hop]
    rfl

end ReadsOperations

lemma exists_rounds {n j : Nat} {t : Spine} (ht : t.Nested) (h : ReadsOperations restricted s ops s')
    (htight : ∀ x ∈ ops, level ≤ x.1.level) (hend : ∀ x ∈ s'.operator?, x.1.level < level)
    (hnext : ∀ x ∈ ops.head?, ∀ y ∈ t.operations, x.1.level ≤ y.1.level) (hn : s.rest.length ≤ n)
    (hj : ops.length ≤ j) : ∃ u : Spine, u.Nested ∧ u.Reads t.first (t.operations ++ ops) ∧
      rounds (operation (.ofDepth n) restricted level) (j + 1) t.expr s = .ok (u.expr, s') := by
  -- The right operand of the first operator is read by the same loop, for the next level, from a shorter sequence.
  induction hk : ops.length using Nat.strongRecOn generalizing ops s s' level n j t with
  | ind k ih =>
    subst hk
    cases h with
    | nil => exact ⟨t, ht, ⟨rfl, (append_nil _).symm⟩, rounds_done (operation_done hend) j⟩
    | @cons _ s₁ s₂ _ op e ops hop he h =>
      obtain ⟨hlevel, htight⟩ := forall_mem_cons.mp htight
      have hs1 := (run_skip_operator hop).2
      obtain ⟨n, rfl⟩ : ∃ n', n = n' + 1 := ⟨n - 1, by omega⟩
      obtain ⟨j, rfl⟩ : ∃ j', j = j' + 1 := ⟨j - 1, by simp only [length_cons] at hj; omega⟩
      obtain ⟨inner, outer, rfl, hinner, houter⟩ : ∃ inner outer, ops = inner ++ outer ∧
          (∀ x ∈ inner, op.level < x.1.level) ∧ ∀ x ∈ outer.head?, x.1.level ≤ op.level := by
        refine ⟨ops.takeWhile (op.level < ·.1.level), ops.dropWhile (op.level < ·.1.level),
          takeWhile_append_dropWhile.symm, fun x hx => by simpa using mem_takeWhile_imp hx, fun x hx => ?_⟩
        have hloose := head?_dropWhile_not (op.level < ·.1.level) ops
        rw [Option.mem_def.mp hx] at hloose
        simpa using hloose
      obtain ⟨s₃, hin, hout⟩ := h.split
      have hstop : ∀ x ∈ s₃.operator?, x.1.level < op.level + 1 := by
        intro x hx
        cases hout with
        | nil => exact (hend x hx).trans_le (Nat.le_succ_of_le hlevel)
        | cons hop' _ _ =>
          cases hop'.symm.trans hx
          exact Nat.lt_succ_of_le (houter _ rfl)
      have hle := he.suffix.length_le
      have hlen := hin.length_le
      simp only [length_cons, length_append] at hj ih
      obtain ⟨right, hright, ⟨hfirst, hops⟩, hrun⟩ := ih inner.length (by omega) (t := .operand e) (n := n)
        (j := s₂.rest.length) trivial hin hinner hstop (by simp [Spine.operations]) (by omega) (by omega) rfl
      have hbinary : (Grammar.ofDepth (n + 1)).binary restricted (op.level + 1) s₁ = .ok (right.expr, s₃) := by
        show binaryRule (.ofDepth n) restricted (op.level + 1) s₁ = _
        rw [binaryRule, run_bind (he.unary (by omega))]
        exact hrun
      have hnested : (Spine.node t op right).Nested := by
        refine ⟨ht, hright, fun y hy => hnext _ rfl y hy, fun x hx => ?_⟩
        rw [hops] at hx
        exact hinner x hx
      obtain ⟨u, hu, ⟨hufirst, huops⟩, hrun'⟩ := ih outer.length (by omega) (t := .node t op right) (n := n + 1)
        (j := j) hnested hout (fun x hx => htight x (mem_append_right _ hx)) hend (fun x hx y hy => by
          have hxop := houter x hx
          simp only [Spine.operations, hops, mem_append, mem_cons, Spine.operations, nil_append] at hy
          rcases hy with hy | rfl | hy
          · exact hxop.trans (hnext _ rfl y hy)
          · exact hxop
          · exact hxop.trans ((hinner y hy).le)) (by omega) (by omega) rfl
      refine ⟨u, hu, ⟨hufirst, ?_⟩, ?_⟩
      · rw [huops, Spine.operations, hfirst, hops]
        simp [Spine.first, Spine.operations]
      · rw [rounds_again (operation_again hop hlevel hbinary)]
        exact hrun'

lemma exists_binaryRule (h₀ : ReadsOperand restricted s e s₁) (h : ReadsOperations restricted s₁ ops s')
    (htight : ∀ x ∈ ops, level ≤ x.1.level) (hend : ∀ x ∈ s'.operator?, x.1.level < level) :
    ∃ t : Spine, t.Nested ∧ t.Reads e ops ∧
      ∀ n, s.rest.length ≤ n → binaryRule (.ofDepth n) restricted level s = .ok (t.expr, s') := by
  have hread (n : Nat) (hn : s.rest.length ≤ n) : ∃ t : Spine, t.Nested ∧ t.Reads e ops ∧
      binaryRule (.ofDepth n) restricted level s = .ok (t.expr, s') := by
    have hlen := h.length_le
    have hle := h₀.suffix.length_le
    obtain ⟨t, ht, hreads, hrun⟩ := exists_rounds (t := .operand e) (n := n) (j := s₁.rest.length) trivial h htight hend
      (by simp [Spine.operations]) (by omega) (by omega)
    refine ⟨t, ht, hreads, ?_⟩
    rw [binaryRule, run_bind (h₀.unary hn)]
    exact hrun
  obtain ⟨t, ht, hreads, -⟩ := hread _ le_rfl
  refine ⟨t, ht, hreads, fun n hn => ?_⟩
  obtain ⟨t', ht', hreads', hrun⟩ := hread n hn
  rw [ht.unique ht' hreads hreads', hrun]

/-- A sequence of operands and operators is read as its one nested tree, up to its end. As a pattern it is read up to
the first operator that is as loose as `|`, or looser. -/
theorem sequence_read_nested (h₀ : ReadsOperand restricted s e s₁) (h : ReadsOperations restricted s₁ ops s')
    (hend : s'.operator? = none) :
    (∃ t : Spine, t.Nested ∧ t.Reads e ops ∧ (∀ t' : Spine, t'.Nested → t'.Reads e ops → t' = t) ∧
      ∀ n, s.rest.length ≤ n →
        (if restricted then condition (.ofDepth n) else expr (.ofDepth n)) s = .ok (t.expr, s')) ∧
    ∃ (t : Spine) (s₂ : Cursor), t.Nested ∧ t.Reads e (ops.takeWhile (BinOp.bitOr.level < ·.1.level)) ∧
      ReadsOperations restricted s₂ (ops.dropWhile (BinOp.bitOr.level < ·.1.level)) s' ∧
      s₂.operator?.map (·.1) = (ops.dropWhile (BinOp.bitOr.level < ·.1.level)).head?.map (·.1) ∧
      ∀ n, s.rest.length ≤ n → binaryRule (.ofDepth n) restricted patternLevel s = .ok (t.expr, s₂) := by
  constructor
  · have hlowest (x : BinOp × Expr) (_ : x ∈ ops) : lowestLevel ≤ x.1.level := by
      cases x.1 <;> decide
    obtain ⟨t, ht, hreads, hrun⟩ := exists_binaryRule h₀ h hlowest (by simp [hend])
    refine ⟨t, ht, hreads, fun t' ht' hreads' => ht'.unique ht hreads' hreads, fun n hn => ?_⟩
    cases restricted <;> exact run_strict (hrun n hn)
  · rw [← takeWhile_append_dropWhile (p := (BinOp.bitOr.level < ·.1.level)) (l := ops)] at h
    obtain ⟨s₂, hin, hout⟩ := h.split
    have hnext := hout.operator?_eq hend
    have hstop : ∀ x ∈ s₂.operator?, x.1.level < patternLevel := by
      intro x hx
      have hloose := head?_dropWhile_not (BinOp.bitOr.level < ·.1.level) ops
      rw [Option.mem_def.mp hx, Option.map_some] at hnext
      obtain ⟨y, hy, hyx⟩ := Option.map_eq_some_iff.mp hnext.symm
      rw [hy] at hloose
      rw [← hyx]
      exact Nat.lt_succ_of_le (Nat.not_lt.mp (of_decide_eq_false hloose))
    have htight : ∀ x ∈ ops.takeWhile (BinOp.bitOr.level < ·.1.level), BinOp.bitOr.level < x.1.level :=
      fun x hx => by simpa using mem_takeWhile_imp hx
    obtain ⟨t, ht, hreads, hrun⟩ := exists_binaryRule h₀ hin htight hstop
    exact ⟨t, s₂, ht, hreads, hout, hnext, hrun⟩

end Rules

namespace Sample

def operandNamed (x : String) : Expr := .name default { name := ⟨x, default⟩ }

def mixedTokens : List Token := [.id "a", .punct .minus, .id "b", .punct .times, .id "c", .punct .pipe, .id "d"]

theorem mixedTokens_read_nested :
    (∃ t : Spine, t.Nested ∧
      t.Reads (operandNamed "a") [(.sub, operandNamed "b"), (.mul, operandNamed "c"), (.bitOr, operandNamed "d")] ∧
      expr (.ofDepth 7) (.plain mixedTokens) = .ok (t.expr, .plain [])) ∧
    ∃ (t : Spine) (s : Cursor), t.Reads (operandNamed "a") [(.sub, operandNamed "b"), (.mul, operandNamed "c")] ∧
      s.operator?.map (·.1) = some .bitOr ∧
      binaryRule (.ofDepth 7) false patternLevel (.plain mixedTokens) = .ok (t.expr, s) := by
  have hread (x : String) (ts : List Token) (h : ∀ g, unaryRule g false (.plain (.id x :: ts)) =
      .ok (operandNamed x, .plain ts)) : ReadsOperand false (.plain (.id x :: ts)) (operandNamed x) (.plain ts) :=
    ⟨suffix_cons _ _, fun _ => h _⟩
  have hops := ReadsOperations.cons (s := .plain (mixedTokens.drop 1)) rfl (hread "b" _ fun _ => rfl)
    (.cons rfl (hread "c" _ fun _ => rfl) (.cons rfl (hread "d" _ fun _ => rfl) .nil))
  obtain ⟨⟨t, ht, hreads, -, hrun⟩, t', s, -, hreads', -, hs, hrun'⟩ :=
    sequence_read_nested (hread "a" _ fun _ => rfl) hops rfl
  exact ⟨⟨t, ht, hreads, hrun 7 (Nat.le_refl _)⟩, t', s, hreads', hs, hrun' 7 (Nat.le_refl _)⟩

end Sample

end SketchCompiler
