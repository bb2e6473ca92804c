import SketchCompiler.Proofs.TokenSplit

namespace SketchCompiler

open List

variable {p : Position} {cs : List Char}

instance : LT Position := ⟨fun p q => p.line < q.line ∨ p.line = q.line ∧ p.column < q.column⟩

lemma Position.one_le_column_afterAll (cs : List Char) : 1 ≤ (afterAll {} cs).column := by
  obtain rfl | ⟨ds, c, rfl⟩ := eq_nil_or_concat cs
  · exact le_rfl
  rw [concat_eq_append, afterAll_append, afterAll_cons, afterAll_nil, after]
  split_ifs
  · exact le_rfl
  · exact Nat.le_add_right ..
  · exact Nat.le_add_left ..

/-- A line without its carriage returns. -/
def withoutReturns (cs : List Char) : List Char := cs.filter (· ≠ '\r')

/-- The characters on line `n`, without the line feed that ends it. -/
def onLine (n : Nat) (xs : List (Char × Position)) : List Char :=
  (xs.filter fun x => x.2.line = n ∧ x.1 ≠ '\n').map (·.1)

lemma onLine_cons (n : Nat) (x : Char × Position) (xs) :
    onLine n (x :: xs) = if x.2.line = n ∧ x.1 ≠ '\n' then x.1 :: onLine n xs else onLine n xs := by
  unfold onLine
  rw [filter_cons]
  split_ifs <;> simp_all

namespace SourceText

lemma getElem?_place (p : Position) (cs : List Char) (i : Nat) :
    (place p cs)[i]? = cs[i]?.map fun c => (c, p.afterAll (cs.take i)) := by
  induction cs generalizing p i with
  | nil => rfl
  | cons c cs ih =>
    cases i with
    | zero => rfl
    | succ i => exact ih (p.after c) i

lemma onLine_place_eq_nil {n} (h : n < p.line) : onLine n (place p cs) = [] := by
  refine map_eq_nil_iff.mpr (filter_eq_nil_iff.mpr fun x hx => ?_)
  have := Position.le_def.mp (le_of_mem_place hx)
  simp only [decide_eq_true_eq]
  omega

lemma getElem?_cutLines_cons {c : Char} (hc : c ≠ '\n') (hr : ∀ ds, c = '\r' → cs ≠ '\n' :: ds) (k : Nat) :
    (cutLines (c :: cs))[k]?.getD [] = if k = 0 then c :: (cutLines cs)[k]?.getD [] else (cutLines cs)[k]?.getD [] := by
  rw [cutLines]
  · cases cutLines cs <;> cases k <;> rfl
  · exact hc
  · exact hr

lemma onLine_place (p : Position) (cs : List Char) (k : Nat) :
    onLine (p.line + k) (place p (withoutReturns cs)) = withoutReturns ((cutLines cs)[k]?.getD []) := by
  induction cs generalizing p k with
  | nil => rfl
  | cons c cs ih =>
    by_cases hc : c = '\n'
    · subst hc
      change onLine _ (('\n', p) :: place (p.after '\n') (withoutReturns cs)) = _
      rw [onLine_cons, if_neg fun h => h.2 rfl]
      cases k with
      | zero => exact onLine_place_eq_nil (Nat.lt_succ_self _)
      | succ k => exact (congrArg (onLine · _) (Nat.add_right_comm p.line k 1)).trans (ih (p.after '\n') k)
    -- A carriage return before a line feed is cut off with it.
    by_cases hr : ∃ ds, c = '\r' ∧ cs = '\n' :: ds
    · obtain ⟨ds, rfl, rfl⟩ := hr
      exact ih p k
    rw [getElem?_cutLines_cons hc fun ds h h' => hr ⟨ds, h, h'⟩]
    by_cases hreturn : c = '\r'
    · subst hreturn
      cases k with
      | zero => exact ih p 0
      | succ k => exact ih p (k + 1)
    have hcons (ds : List Char) : withoutReturns (c :: ds) = c :: withoutReturns ds :=
      filter_cons_of_pos (by simpa using hreturn)
    have hline : (p.after c).line = p.line := @Position.line_afterAll_of_not_mem p [c] (by simpa using Ne.symm hc)
    have hrest := ih (p.after c) k
    rw [hline] at hrest
    rw [hcons, place, onLine_cons, hrest]
    cases k with
    | zero => exact (if_pos ⟨rfl, hc⟩).trans (hcons _).symm
    | succ k => exact if_neg fun h => by simp at h

lemma onLine_ofString (text name : String) (n : Nat) : onLine n (ofString text name).positions =
    withoutReturns (((ofString text name).source.line? n).getD "").toList := by
  cases n with
  | zero => exact onLine_place_eq_nil Nat.zero_lt_one
  | succ k =>
    have hlast (q : Position) : onLine (k + 1) (place q ['\n']) = [] := by simp [place, onLine]
    have htext : ((((linesOf text)[k]?).getD "").toList) = (cutLines text.toList)[k]?.getD [] := by
      rw [linesOf, getElem?_map]
      cases (cutLines text.toList)[k]? <;> simp
    calc onLine (k + 1) (place {} (withoutReturns text.toList ++ ['\n']))
        = onLine (k + 1) (place {} (withoutReturns text.toList)) := by
          rw [place_append, onLine, filter_append, map_append]
          exact (congrArg _ (hlast _)).trans (append_nil _)
      _ = withoutReturns ((cutLines text.toList)[k]?.getD []) := Nat.add_comm 1 k ▸ onLine_place {} text.toList k
      _ = _ := congrArg withoutReturns htext.symm

/-- Its characters are those of the text without carriage returns, closed by a line feed, each at its own place, and an
excerpt is the line that its location starts on. -/
structure Faithful (text : String) (t : SourceText) : Prop where
  chars : t.positions.map (·.1) = withoutReturns text.toList ++ ['\n']
  increasing : t.positions.Pairwise fun x y => x.2 < y.2
  apart : t.positions.Pairwise fun x y => x.2.next ≤ y.2
  column : ∀ x ∈ t.positions, 1 ≤ x.2.column
  line : ∀ i x, t.positions[i]? = some x → x.2.line = 1 + ((t.positions.take i).map (·.1)).count '\n'
  lines : ∀ n, onLine n t.positions = withoutReturns ((t.source.line? n).getD "").toList
  excerpt : ∀ x ∈ t.positions, x.1 ≠ '\n' → ∀ message stop, ∃ l,
    (Diagnostic.ofLocation message (t.location x.2 stop)).excerpt = some l ∧ x.1 ∈ l.toList

/-- Two ways to cut a text agree, for any mix of line feeds, carriage returns and tabs. -/
theorem ofString_faithful (text name : String) : (ofString text name).Faithful text := by
  have hat (i : Nat) (x) (h : (ofString text name).positions[i]? = some x) :
      x.2 = Position.afterAll {} ((ofString text name).chars.take i) := by
    rw [positions, getElem?_place] at h
    obtain ⟨c, -, rfl⟩ := Option.map_eq_some_iff.mp h
    rfl
  have hapart := pairwise_place {} (ofString text name).chars
  refine ⟨map_fst_place .., hapart, hapart, fun x hx => ?_, fun i x h => ?_, onLine_ofString text name, ?_⟩
  · obtain ⟨i, h⟩ := mem_iff_getElem?.mp hx
    exact hat i x h ▸ Position.one_le_column_afterAll _
  · rw [hat i x h, Position.line_afterAll, map_take, positions, map_fst_place]
  · intro x hx hc message stop
    have hmem : x.1 ∈ onLine x.2.line (ofString text name).positions :=
      mem_map.mpr ⟨x, mem_filter.mpr ⟨hx, decide_eq_true ⟨rfl, hc⟩⟩, rfl⟩
    rw [onLine_ofString] at hmem
    change ∃ l, (ofString text name).source.line? x.2.line = some l ∧ _
    cases hl : (ofString text name).source.line? x.2.line with
    | none => simp [hl, withoutReturns] at hmem
    | some l => exact ⟨l, rfl, (mem_filter.mp (hl ▸ hmem)).1⟩

end SourceText

end SketchCompiler
