import SketchCompiler.Proofs.KeyedPieces
import SketchCompiler.Proofs.PinKeys
import SketchCompiler.Proofs.ReferenceOrder

namespace SketchCompiler

open Resolve SpotPart SymbolTable List Node

namespace Program

variable {p q q' : Program} {t : SymbolTable} {ranges : RangeTable} {a : List Nat} {x : String}

lemma exists_module_of_mem_aliasesTo (h : x ∈ p.aliasesTo a) : ∃ l aliasName file symbol u,
    .item (.module l aliasName file symbol u) ∈ (unit p).nodes ∧ aliasName.text = x := by
  fun_induction aliasesTo p a with
  | case1 p j m a l aliasName file symbol u hj ih =>
    have hmem : .item (.module l aliasName file symbol u) ∈ (unit p).children := mem_map_of_mem (mem_of_getElem? hj)
    rcases mem_cons.mp h with rfl | h
    · exact ⟨l, aliasName, file, symbol, u, mem_nodes_iff.mpr (.inr ⟨_, hmem, mem_nodes_self⟩), rfl⟩
    · obtain ⟨l', aliasName', file', symbol', u', hu', rfl⟩ := ih h
      have hunit : .unit u ∈ (item (.module l aliasName file symbol u)).children := mem_singleton_self _
      exact ⟨l', aliasName', file', symbol', u', mem_nodes_iff.mpr (.inr ⟨_, hmem,
        mem_nodes_iff.mpr (.inr ⟨_, hunit, hu'⟩)⟩), rfl⟩
  | case2 => cases h
  | case3 => cases h

lemma aliasesTo_transform (f : Transform) (p : Program) (a : List Nat) :
    (p.transform f).aliasesTo a = p.aliasesTo a := by
  fun_induction aliasesTo p a with
  | case1 p j m a l aliasName file symbol u hj ih =>
    have hmodule : (p.transform f).items[j]? = some (.module l aliasName file symbol (u.transform f)) := by
      rw [p.items_transform, getElem?_map, hj]
      rfl
    rw [aliasesTo_below hmodule m a, ih]
  | case2 p j m a hj =>
    rw [aliasesTo, p.items_transform, getElem?_map]
    split
    · rename_i l aliasName file symbol u hu
      obtain ⟨i, hi, hmodule⟩ := Option.map_eq_some_iff.mp hu
      cases i with
      | module l' aliasName' file' symbol' u' => exact absurd hi (hj _ _ _ _ _)
      | _ => cases hmodule
    · rfl
  | case3 a p ha =>
    rcases a with _ | ⟨j, _ | ⟨m, a⟩⟩
    · rfl
    · rfl
    · exact absurd rfl (ha j m a)

lemma aliasesTo_clampRanges (hr : q.clampRanges = (q', .ok ranges)) (a : List Nat) :
    q'.aliasesTo a = q.aliasesTo a := by
  rw [eq_insertClamps hr]
  exact (aliasesTo_transform _ q.convertUnits a).trans (aliasesTo_transform _ q a)

lemma Read.isWord_alias (hp : p.Read) (h : p.resolveNames = (q, .ok t)) (hx : x ∈ q.aliasesTo a) : IsWord x.toList := by
  obtain ⟨l, aliasName, file, symbol, u, hu, rfl⟩ := exists_module_of_mem_aliasesTo hx
  exact hp.isWord_of_mem h hu (mem_singleton_self _)

end Program

end SketchCompiler
