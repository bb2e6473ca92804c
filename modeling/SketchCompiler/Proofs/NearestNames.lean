import Mathlib.Data.List.Sort
import Mathlib.Data.Prod.Lex
import Mathlib.Data.String.Basic
import SketchCompiler.Proofs.TableInvariant

namespace SketchCompiler

open List

variable {α : Type}

lemma eraseReps_sorted [BEq α] [LawfulBEq α] {R : α → α → Prop}
    (hR : ∀ {a b}, R a b → R b a → a = b) {l : List α} (hl : l.Pairwise R) :
    l.eraseReps.Pairwise (fun a b => R a b ∧ a ≠ b) ∧ ∀ x, x ∈ l.eraseReps ↔ x ∈ l := by
  have loop_eq (a : α) (as acc : List α) :
      eraseRepsBy.loop (· == ·) a as acc = acc.reverse ++ (a :: as).eraseReps := by
    induction as generalizing a acc with
    | nil => simp [eraseReps, eraseRepsBy, eraseRepsBy.loop]
    | cons b bs ih =>
      simp only [eraseReps, eraseRepsBy, eraseRepsBy.loop] at ih ⊢
      split
      · rw [ih]
      · rw [ih, ih b [a]]
        simp
  cases l with
  | nil => exact ⟨.nil, fun _ => .rfl⟩
  | cons a as =>
    induction as generalizing a with
    | nil => exact ⟨pairwise_singleton _ _, fun _ => .rfl⟩
    | cons b bs ih =>
      obtain ⟨ha, hb⟩ := pairwise_cons.mp hl
      rw [eraseReps, eraseRepsBy, eraseRepsBy.loop]
      split
      case h_1 he =>
        obtain rfl := eq_of_beq he
        obtain ⟨hp, hm⟩ := ih a hb
        exact ⟨hp, fun x => (hm x).trans (by simp)⟩
      case h_2 he =>
        obtain ⟨hp, hm⟩ := ih b hb
        rw [loop_eq]
        refine ⟨pairwise_cons.mpr ⟨fun x hx => ⟨ha x ((hm x).mp hx), ?_⟩, hp⟩, fun x => by simp [hm]⟩
        -- An equal element behind `b` would have `b` between it and `a`.
        rintro rfl
        rcases mem_cons.mp ((hm a).mp hx) with rfl | hx
        · exact absurd he (by simp)
        · obtain rfl := hR (ha b mem_cons_self) ((pairwise_cons.mp hb).1 a hx)
          exact absurd he (by simp)

lemma takeWhile_eq_filter {p : α → Bool} {l : List α} (h : l.Pairwise fun a b => p b → p a) :
    l.takeWhile p = l.filter p := by
  induction h with
  | nil => rfl
  | @cons a l ha _ ih =>
    rw [takeWhile_cons, filter_cons, ih]
    split
    · rfl
    · rename_i hp
      exact (filter_eq_nil_iff.mpr fun b hb hpb => hp (ha b hb hpb)).symm

namespace Suggestion

/-- What may be suggested: another name, and near enough. -/
def Near (name c : String) : Prop := c ≠ name ∧ editDistance name c ≤ limit name

/-- A distance and a candidate, in the order of the distances, then the lengths in bytes, then the characters. -/
def order (x : Nat × String) : ℕ ×ₗ ℕ ×ₗ String := toLex (x.1, toLex (x.2.utf8ByteSize, x.2))

/-- The rank of a candidate for the name. -/
def key (name c : String) : ℕ ×ₗ ℕ ×ₗ String := order (editDistance name c, c)

def Ranked (name : String) (cs : List String) : Prop := cs.Pairwise (key name · < key name ·)

variable {name : String} {cs cs' xs : List String}

lemma precedes_iff (a b : Nat × String) : precedes a b ↔ order a ≤ order b := by
  simp only [precedes, order, Prod.Lex.toLex_le_toLex]
  split_ifs with hd hl <;> simp_all

lemma order_injective : Function.Injective order := fun a b h => by
  simp only [order, EmbeddingLike.apply_eq_iff_eq, Prod.mk.injEq] at h
  exact Prod.ext h.1 h.2.2

lemma Ranked.eq_of_mem_iff (h : Ranked name cs) (h' : Ranked name cs') (hm : ∀ c, c ∈ cs ↔ c ∈ cs') : cs = cs' := by
  have : Std.Antisymm fun a b => key name a < key name b := ⟨fun _ _ hab hba => absurd hab hba.asymm⟩
  have : Std.Irrefl fun a b => key name a < key name b := ⟨fun _ => lt_irrefl _⟩
  exact Pairwise.eq_of_mem_iff h h' hm

lemma rank_spec (name : String) (cs : List String) : (rank name cs).Pairwise (order · < order ·) ∧
    ∀ d c, (d, c) ∈ rank name cs ↔ d = editDistance name c ∧ c ∈ cs ∧ Near name c := by
  have htrans (a b c : Nat × String) : precedes a b → precedes b c → precedes a c := by
    simpa only [precedes_iff] using le_trans
  have htotal (a b : Nat × String) : precedes a b || precedes b a := by
    simpa only [Bool.or_eq_true, precedes_iff] using le_total _ _
  obtain ⟨hp, hm⟩ := eraseReps_sorted (R := fun a b => precedes a b)
    (fun hab hba => order_injective (le_antisymm ((precedes_iff _ _).mp hab) ((precedes_iff _ _).mp hba)))
    (pairwise_mergeSort htrans htotal (cs.filterMap fun c =>
      if c ≠ name ∧ editDistance name c ≤ limit name then some (editDistance name c, c) else none))
  refine ⟨hp.imp fun {a b} h => lt_of_le_of_ne ((precedes_iff a b).mp h.1) (order_injective.ne h.2), fun d c => ?_⟩
  rw [rank, hm, mem_mergeSort, mem_filterMap]
  constructor
  · rintro ⟨c', hc, h⟩
    split_ifs at h with hn
    cases h
    exact ⟨rfl, hc, hn⟩
  · rintro ⟨rfl, hc, hn⟩
    exact ⟨c, hc, if_pos hn⟩

lemma distance_le_of_key_lt {a c} (h : key name a < key name c) : editDistance name a ≤ editDistance name c := by
  rcases Prod.Lex.toLex_le_toLex.mp h.le with h | h
  · exact h.le
  · exact h.1.le

lemma exists_ranked (name : String) (cs : List String) : ∃ xs, Ranked name xs ∧
    (∀ c, c ∈ xs ↔ c ∈ cs ∧ Near name c) ∧ rank name cs = xs.map fun c => (editDistance name c, c) := by
  obtain ⟨hp, hm⟩ := rank_spec name cs
  have hmap : rank name cs = ((rank name cs).map (·.2)).map fun c => (editDistance name c, c) := by
    rw [map_map]
    refine ((map_congr_left ?_).trans (map_id _)).symm
    rintro ⟨d, c⟩ hx
    rw [((hm d c).mp hx).1]
    rfl
  refine ⟨(rank name cs).map (·.2), ?_, fun c => ?_, hmap⟩
  · rw [hmap, pairwise_map] at hp
    exact hp
  · simp [hm]

def ofRanked (name : String) : List String → Suggestion
  | [] => {}
  | b :: rest => ⟨b, (rest.filter (editDistance name · ≤ editDistance name b + 1)).take maxOthers⟩

lemma ofCandidates_of_ranked (h : Ranked name xs) (hm : ∀ c, c ∈ xs ↔ c ∈ cs ∧ Near name c) :
    ofCandidates name cs = ofRanked name xs := by
  obtain ⟨ys, hy, hmy, hr⟩ := exists_ranked name cs
  obtain rfl := h.eq_of_mem_iff hy fun c => (hm c).trans (hmy c).symm
  rw [ofCandidates, hr]
  cases xs with
  | nil => rfl
  | cons b rest =>
    have hrest : rest.Pairwise fun a c => decide (editDistance name c ≤ editDistance name b + 1) →
        decide (editDistance name a ≤ editDistance name b + 1) := by
      refine (pairwise_cons.mp h).2.imp fun {a c} hac hc => ?_
      exact decide_eq_true ((distance_le_of_key_lt hac).trans (of_decide_eq_true hc))
    simp only [map_cons]
    rw [ofRanked, takeWhile_map, map_take, map_map, ← takeWhile_eq_filter hrest]
    simp [Function.comp_def]

lemma ofCandidates_congr (h : ∀ c, c ∈ cs ↔ c ∈ cs') : ofCandidates name cs = ofCandidates name cs' := by
  obtain ⟨xs, hx, hm, -⟩ := exists_ranked name cs
  rw [ofCandidates_of_ranked hx hm, ofCandidates_of_ranked hx fun c => (hm c).trans (and_congr_left' (h c))]

end Suggestion

namespace SymbolTable

/-- The same table, but for the order in which scopes list their names. -/
structure Reordered (t u : SymbolTable) : Prop where
  symbols_eq : u.symbols = t.symbols
  scope (s : ScopeId) : ∃ names, (t.scope s).names.Perm names ∧ u.scope s = { t.scope s with names }

variable {t u : SymbolTable}

lemma Reordered.lookup?_eq (h : t.Reordered u) (ht : t.Sound) (s : ScopeId) (name : String) :
    u.lookup? s name = t.lookup? s name := by
  have hnames (s : ScopeId) : (u.scope s).names.lookup name = (t.scope s).names.lookup name := by
    obtain ⟨names, hp, hu⟩ := h.scope s
    have hn := ht.nodup_names s
    refine Option.ext fun id => ?_
    rw [hu, lookup_eq_some_iff hn, lookup_eq_some_iff ((hp.map _).nodup_iff.mp hn), hp.mem_iff]
  have hparent (s : ScopeId) : (u.scope s).parent = (t.scope s).parent := by
    obtain ⟨_, -, hu⟩ := h.scope s
    rw [hu]
  rw [lookup?, lookup?, chain, chain]
  generalize s + 1 = n
  induction n generalizing s with
  | zero => rfl
  | succ n ih =>
    rw [chainOf, chainOf, hparent]
    cases (t.scope s).parent with
    | none => simp only [findSome?_cons, hnames]
    | some p => simp only [findSome?_cons, hnames, ih]

lemma Reordered.reference_eq (h : t.Reordered u) (ht : t.Sound) (c : Site) (r : Reference)
    (es : Array (Located NameError)) : (Resolve.reference c r ⟨t, es⟩).1 = (Resolve.reference c r ⟨u, es⟩).1 ∧
      (Resolve.reference c r ⟨t, es⟩).2.errors = (Resolve.reference c r ⟨u, es⟩).2.errors := by
  have hlookup := h.lookup?_eq ht c.scope
  have hvisible : Suggestion.ofCandidates r.name.text (u.visible c.scope) =
      .ofCandidates r.name.text (t.visible c.scope) :=
    Suggestion.ofCandidates_congr fun x => by rw [mem_visible_iff, mem_visible_iff, hlookup]
  have hlooks (f : SymbolTable → Resolve Reference) (t : SymbolTable) :
      (Resolve.table >>= f) ⟨t, es⟩ = f t ⟨t, es⟩ := rfl
  unfold Resolve.reference
  split
  · exact ⟨rfl, rfl⟩
  · rw [hlooks, hlooks, hlookup, hvisible]
    cases t.lookup? c.scope r.name.text <;> exact ⟨rfl, rfl⟩

end SymbolTable

/-- Suggestions depend on the set of candidates. The best is the first in the order of those near enough, and the others
are at most two that come next and are no more than one edit farther. So a name that nothing declares is reported in the
same words, in whichever order the scopes list their names. -/
theorem Suggestion.ofCandidates_optimal (name : String) :
    (∀ cs cs', (∀ c, c ∈ cs ↔ c ∈ cs') → ofCandidates name cs = ofCandidates name cs') ∧
    (∀ cs, ((ofCandidates name cs).best = none ↔ ∀ c ∈ cs, ¬ Near name c) ∧
      ((ofCandidates name cs).best = none → (ofCandidates name cs).others = []) ∧
      ∀ b, ((ofCandidates name cs).best = some b ↔
          b ∈ cs ∧ Near name b ∧ ∀ c ∈ cs, Near name c → key name b ≤ key name c) ∧
        ((ofCandidates name cs).best = some b → ∃ xs, Ranked name xs ∧
          (∀ c, c ∈ xs ↔ c ∈ cs ∧ Near name c ∧ c ≠ b ∧ editDistance name c ≤ editDistance name b + 1) ∧
          (ofCandidates name cs).others = xs.take 2)) ∧
    ∀ t u : SymbolTable, t.Reached → t.Reordered u → ∀ c r es,
      (Resolve.reference c r ⟨t, es⟩).1 = (Resolve.reference c r ⟨u, es⟩).1 ∧
      (Resolve.reference c r ⟨t, es⟩).2.errors = (Resolve.reference c r ⟨u, es⟩).2.errors := by
  refine ⟨fun _ _ => ofCandidates_congr, fun cs => ?_, fun t u ht hu => hu.reference_eq ht.filed.toSound⟩
  obtain ⟨xs, hx, hm, -⟩ := exists_ranked name cs
  rw [ofCandidates_of_ranked hx hm]
  cases xs with
  | nil =>
    simp only [not_mem_nil, false_iff, not_and] at hm
    exact ⟨iff_of_true rfl hm, fun _ => rfl, fun b => ⟨iff_of_false nofun fun h => hm b h.1 h.2.1, nofun⟩⟩
  | cons first rest =>
    obtain ⟨hfirst, hrest⟩ := pairwise_cons.mp hx
    have hf := (hm first).mp mem_cons_self
    have hle (c : String) (hc : c ∈ cs) (hn : Near name c) : key name first ≤ key name c := by
      rcases mem_cons.mp ((hm c).mpr ⟨hc, hn⟩) with rfl | h
      · exact le_rfl
      · exact (hfirst c h).le
    refine ⟨iff_of_false nofun fun h => h first hf.1 hf.2, nofun, fun b => ⟨⟨?_, ?_⟩, ?_⟩⟩
    · rintro ⟨⟩
      exact ⟨hf.1, hf.2, hle⟩
    · rintro ⟨hc, hn, hmin⟩
      exact congrArg (some ·.2) (order_injective (le_antisymm (hle b hc hn) (hmin first hf.1 hf.2)))
    · rintro ⟨⟩
      have hc (c : String) : c ∈ rest ↔ (c ∈ cs ∧ Near name c) ∧ c ≠ first := by
        have hne : c ∈ rest → c ≠ first := by
          rintro h rfl
          exact lt_irrefl _ (hfirst c h)
        rw [← hm, mem_cons]
        tauto
      exact ⟨_, hrest.filter _, fun c => by simp only [mem_filter, hc, decide_eq_true_eq, and_assoc], rfl⟩

end SketchCompiler
