import Mathlib
import SketchCompiler.Proofs.SketchStates

namespace SketchCompiler

open List Node

/-- How many interrupts, and how many functions for events, have been written. -/
def Emission.counts (s : Emission) : Nat × Nat := (s.interrupts, s.handlers)

/-- What an item adds to these numbers. -/
def Item.counted (main : Bool) : Item → Nat × Nat
  | .interrupt .. => (1, 0)
  | .event _ (.signal _) _ => (0, 1)
  | .event .. => if main then 0 else (0, 1)
  | _ => 0

/-- What the piece with the given key adds to these numbers. -/
def Program.counted (p : Program) (root : Bool) (x : List Nat × Role) : Nat × Nat :=
  match x.2, (unit p).at? x.1 with
  | .code, some (.item i) => i.counted (root && x.1.length = 1)
  | _, _ => 0

/-- How many interrupts, and how many functions for events, are written before the code of the item at `a`. -/
def Program.numbersAt (p : Program) (a : List Nat) : Nat × Nat :=
  ((p.keys.takeWhile (· ≠ (a, .code))).map (p.counted true)).sum

lemma Item.counts_leave (k : Scene) (path : List String) (root : Bool) (i : Item) (s : Emission) :
    (i.leave k path root s).counts = s.counts + i.counted root := by
  cases i with
  | event l kind body => cases kind <;> cases root <;> rfl
  | _ => rfl

namespace Program

variable {k : Scene} {p : Program} {a b : List Nat} {i i' : Item}

lemma counts_leave (k : Scene) (p : Program) (x : List Nat × Role) (s : Emission) :
    (p.leave k x s).counts = s.counts + p.counted true x := by
  have hzero : s.counts = s.counts + 0 := (add_zero s.counts).symm
  obtain ⟨a, r⟩ := x
  unfold leave counted
  cases r with
  | code =>
    cases (unit p).at? a with
    | none => exact hzero
    | some n =>
      cases n with
      | item i => exact i.counts_leave k _ _ s
      | _ => exact hzero
  | _ => exact hzero

lemma counts_stateAfter (k : Scene) (p : Program) (xs : List (List Nat × Role)) :
    (p.stateAfter k xs).counts = (xs.map (p.counted true)).sum := by
  induction xs using List.reverseRecOn with
  | nil => rfl
  | append_singleton xs x ih =>
    obtain ⟨n, hn⟩ := p.stateAfter_snoc k xs x
    calc (p.stateAfter k (xs ++ [x])).counts
      _ = (p.leave k x (p.stateAfter k xs)).counts := by rw [hn]; rfl
      _ = ((xs ++ [x]).map (p.counted true)).sum := by rw [counts_leave, ih]; simp

lemma nodup_keys (p : Program) : p.keys.Nodup :=
  p.pairwise_keys.imp fun h he => by
    rw [he] at h
    exact List.lt_irrefl _ h

lemma numbersAt_eq {xs ys : List (List Nat × Role)} (h : p.keys = xs ++ (a, .code) :: ys) :
    p.numbersAt a = (xs.map (p.counted true)).sum := by
  have hne : ∀ y ∈ xs, y ≠ (a, Role.code) := by
    have hnodup := p.nodup_keys
    rw [h, nodup_append] at hnodup
    exact fun y hy => hnodup.2.2 y hy _ mem_cons_self
  rw [numbersAt, h, takeWhile_append_of_pos (by simpa using hne)]
  simp

lemma stateAfter_induction (k : Scene) (p : Program) {P : List (List Nat × Role) → Emission → Prop}
    (hstart : P [] k.start) (hcode : ∀ xs a i s n, (unit p).at? a = some (.item i) → s.counts = p.numbersAt a → P xs s →
      P (xs ++ [(a, .code)]) { i.leave k (p.aliasesTo a) (a.length = 1) s with temporaries := n })
    (hother : ∀ xs x s n, x.2 ≠ .code → P xs s → P (xs ++ [x]) { s with temporaries := n }) :
    P p.keys (p.stateAfter k p.keys) := by
  suffices h : ∀ xs ys, p.keys = xs ++ ys → P xs (p.stateAfter k xs) from h p.keys [] (append_nil _).symm
  intro xs
  induction xs using List.reverseRecOn with
  | nil => exact fun _ _ => hstart
  | append_singleton xs x ih =>
    intro ys h
    have h : p.keys = xs ++ x :: ys := by simpa using h
    have hxs := ih _ h
    obtain ⟨n, hn⟩ := p.stateAfter_snoc k xs x
    rw [hn]
    obtain ⟨a, r⟩ := x
    by_cases hr : r = .code
    · subst hr
      have hmem : (a, .code) ∈ p.keys := h ▸ mem_append_right _ mem_cons_self
      obtain ⟨i, hi⟩ := item_of_mem_keys hmem (by decide)
      rw [leave_code hi]
      refine hcode xs a i _ n hi ?_ hxs
      rw [counts_stateAfter, numbersAt_eq h]
    · have hleave : p.leave k (a, r) (p.stateAfter k xs) = p.stateAfter k xs := by
        unfold leave
        split
        · exact absurd ‹_› hr
        · rfl
      rw [hleave]
      exact hother xs (a, r) _ n hr hxs

lemma numbersAt_of_sublist (ha : (unit p).at? a = some (.item i))
    (h : [(a, Role.code), (b, Role.code)].Sublist p.keys) :
    ∃ c, p.numbersAt b = p.numbersAt a + i.counted (a.length = 1) + c := by
  obtain ⟨xs, ys, hxs⟩ := append_of_mem (h.subset mem_cons_self)
  have hmem : (b, Role.code) ∈ ys := by
    have hlt := pairwise_iff_forall_sublist.mp p.pairwise_keys h
    have hb := h.subset (mem_cons_of_mem _ (mem_singleton_self _))
    rw [hxs, mem_append, mem_cons] at hb
    rcases hb with hb | hb | hb
    · have hsorted := p.pairwise_keys
      rw [hxs, pairwise_append] at hsorted
      exact absurd (hsorted.2.2 _ hb _ mem_cons_self) (List.lt_asymm hlt)
    · rw [hb] at hlt
      exact absurd hlt (List.lt_irrefl _)
    · exact hb
  obtain ⟨zs, ws, rfl⟩ := append_of_mem hmem
  refine ⟨(zs.map (p.counted true)).sum, ?_⟩
  have hb : p.keys = (xs ++ (a, .code) :: zs) ++ (b, .code) :: ws := by simpa using hxs
  rw [numbersAt_eq hxs, numbersAt_eq hb, map_append, map_cons, sum_append, sum_cons, ← add_assoc]
  simp [counted, ha]

lemma numbersAt_ne (c : Nat × Nat →+ Nat) (ha : (unit p).at? a = some (.item i))
    (hb : (unit p).at? b = some (.item i')) (hi : 0 < c (i.counted (a.length = 1)))
    (hi' : 0 < c (i'.counted (b.length = 1))) (hne : a ≠ b) : c (p.numbersAt a) ≠ c (p.numbersAt b) := by
  have hlt {a b : List Nat} {i : Item} (ha : (unit p).at? a = some (.item i))
      (hi : 0 < c (i.counted (a.length = 1))) (h : [(a, Role.code), (b, Role.code)].Sublist p.keys) :
      c (p.numbersAt a) < c (p.numbersAt b) := by
    obtain ⟨d, hd⟩ := numbersAt_of_sublist ha h
    rw [hd, map_add, map_add]
    omega
  have hka := mem_keys ha (.inl rfl : Role.code.Suits _)
  have hkb := mem_keys hb (.inl rfl : Role.code.Suits _)
  rcases pair_sublist_or hka hkb (fun h => hne (congrArg Prod.fst h)) with h | h
  · exact (hlt ha hi h).ne
  · exact (hlt hb hi' h).ne'

end Program

end SketchCompiler
