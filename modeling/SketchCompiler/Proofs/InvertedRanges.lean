import SketchCompiler.Proofs.ClampPlaces

namespace SketchCompiler

open List

lemma Program.mem_rangeErrors_iff {q : Program} {e} : (∃ es, q.clampRanges.2 = .error es ∧ e ∈ es) ↔
    ∃ d ∈ q.convertUnits.vars, d.rangeError? = some e := by
  rw [← mem_filterMap, clampRanges]
  cases q.convertUnits.vars.filterMap (·.rangeError?) <;> simp

/-- A range of two integers, behind any number of signs, is rejected if and only if the double of its lower bound is
greater than that of its upper bound. -/
theorem Program.Read.inverted_iff {p q : Program} {t : SymbolTable} (hp : p.Read) (h : p.resolveNames = (q, .ok t))
    {d : VarDecl} (hd : d ∈ q.convertUnits.vars) {r : Range} (hr : d.range = some r) {a b : Int}
    (ha : r.min.constant? = some (.int a)) (hb : r.max.constant? = some (.int b)) :
    (∃ es, q.clampRanges.2 = .error es ∧ ⟨.inverted d.name.text (.int a) (.int b), r.min.loc⟩ ∈ es) ↔
      Float.ofInt b < Float.ofInt a := by
  rw [mem_rangeErrors_iff]
  constructor
  · rintro ⟨e, -, he⟩
    simp only [VarDecl.rangeError?, Option.bind_eq_bind, Option.bind_eq_some_iff, Option.ite_none_right_eq_some,
      Option.some.injEq, Located.mk.injEq, RangeError.inverted.injEq] at he
    obtain ⟨_, -, _, -, _, -, _, -, hlt, ⟨-, rfl, rfl⟩, -⟩ := he
    exact hlt
  · intro hlt
    obtain ⟨id, hid⟩ : ∃ id, d.symbol = some id := by
      obtain ⟨e, he, rfl⟩ := mem_vars_convertUnits.mp hd
      have := hp.numbered h he
      cases e
      simpa [VarDecl.transform, Option.ne_none_iff_exists'] using this
    refine ⟨d, hd, ?_⟩
    simp only [VarDecl.rangeError?, hid, hr, ha, hb, Option.bind_eq_bind, Option.bind_some]
    exact if_pos hlt

namespace Sample

def farText : String := "mut int x in 9007199254740993...9007199254740992 = 0"

/-- The bounds, if they are integers. -/
def bounds? (d : VarDecl) : Option (Int × Int) := do
  let r ← d.range
  match r.min.constant?, r.max.constant? with
  | some (.int a), some (.int b) => some (a, b)
  | _, _ => none

lemma bounds?_eq_some {d a b} (h : bounds? d = some (a, b)) :
    ∃ r, d.range = some r ∧ r.min.constant? = some (.int a) ∧ r.max.constant? = some (.int b) := by
  obtain ⟨r, hr, h⟩ := Option.bind_eq_some_iff.mp h
  split at h
  next hmin hmax =>
    cases h
    exact ⟨r, hr, hmin, hmax⟩
  next => cases h

/-- The lower bound is greater by one, and as a double it is not. -/
theorem far_not_inverted : ∃ q t d r, (ofText farText).resolveNames = (q, .ok t) ∧ d ∈ q.convertUnits.vars ∧
    d.range = some r ∧ r.min.constant? = some (.int 9007199254740993) ∧
    r.max.constant? = some (.int 9007199254740992) ∧ ¬∃ es, q.clampRanges.2 = .error es ∧
      ⟨.inverted d.name.text (.int 9007199254740993) (.int 9007199254740992), r.min.loc⟩ ∈ es := by
  have hp : (ofText farText).Read := read_ofText (by decide +kernel)
  have hq := resolveNames_eq (p := ofText farText) (by decide +kernel)
  have hany : (ofText farText).resolveNames.1.convertUnits.vars.any
      (bounds? · == some (9007199254740993, 9007199254740992)) = true := by decide +kernel
  obtain ⟨d, hd, hb⟩ := List.any_eq_true.mp hany
  obtain ⟨r, hr, hmin, hmax⟩ := bounds?_eq_some (beq_iff_eq.mp hb)
  refine ⟨_, _, d, r, hq, hd, hr, hmin, hmax, fun herr => ?_⟩
  exact absurd ((hp.inverted_iff hq hd hr hmin hmax).mp herr) (by decide +kernel)

end Sample

end SketchCompiler
