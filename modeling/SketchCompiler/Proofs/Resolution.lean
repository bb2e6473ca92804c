import Mathlib.Order.Nat
import SketchCompiler.Symbol.Declare

namespace SketchCompiler

variable {id : SymbolId}

def ScopeKind.isUnit : ScopeKind → Bool
  | .global | .module => true
  | _ => false

namespace SymbolTable

def isTop (t : SymbolTable) (s : ScopeId) : Bool := (t.scope s).kind.isUnit

lemma isGlobal_eq (t : SymbolTable) (id : SymbolId) : t.isGlobal id = t.isTop (t.get id).scope := rfl

/-- All scopes and symbols of `t` are in `u`. -/
structure Extends (t u : SymbolTable) : Prop where
  scopes_le : t.scopes.size ≤ u.scopes.size
  symbols_le : t.symbols.size ≤ u.symbols.size
  kind_scope {s : ScopeId} : s < t.scopes.size → (u.scope s).kind = (t.scope s).kind
  get_eq {id : SymbolId} : id < t.symbols.size → u.get id = { t.get id with members := (u.get id).members }

namespace Extends

variable {t u v : SymbolTable}

lemma refl (t : SymbolTable) : t.Extends t := ⟨le_rfl, le_rfl, fun _ => rfl, fun _ => rfl⟩

lemma trans (h : t.Extends u) (h' : u.Extends v) : t.Extends v where
  scopes_le := h.scopes_le.trans h'.scopes_le
  symbols_le := h.symbols_le.trans h'.symbols_le
  kind_scope hs := (h'.kind_scope (hs.trans_le h.scopes_le)).trans (h.kind_scope hs)
  get_eq hi := by rw [h'.get_eq (hi.trans_le h.symbols_le), h.get_eq hi]

lemma isTop_eq (h : t.Extends u) {s} (hs : s < t.scopes.size) : u.isTop s = t.isTop s := by
  rw [isTop, isTop, h.kind_scope hs]

lemma scope_eq (h : t.Extends u) (hi : id < t.symbols.size) : (u.get id).scope = (t.get id).scope := by
  rw [h.get_eq hi]

lemma kind_eq (h : t.Extends u) (hi : id < t.symbols.size) : u.kind id = t.kind id := by
  rw [kind, h.get_eq hi, kind]

end Extends

lemma scope_push_of_lt (t : SymbolTable) (x : Scope) {s} (hs : s < t.scopes.size) :
    SymbolTable.scope { t with scopes := t.scopes.push x } s = t.scope s := by
  simp [scope, hs, Nat.lt_succ_of_lt hs, Array.getElem_push_lt]

lemma scope_push_size (t : SymbolTable) (x : Scope) :
    SymbolTable.scope { t with scopes := t.scopes.push x } t.scopes.size = x := by
  simp [scope]

lemma extends_push (t : SymbolTable) (x : Scope) : t.Extends { t with scopes := t.scopes.push x } where
  scopes_le := by simp
  symbols_le := le_rfl
  kind_scope hs := by rw [scope_push_of_lt t x hs]
  get_eq _ := rfl

lemma extends_declare {t u : SymbolTable} {x} (h : t.declare x = .ok (u, id)) :
    t.Extends u ∧ id = t.symbols.size ∧ u.symbols.size = id + 1 ∧ u.get id = x := by
  unfold declare at h
  split at h
  · cases h
  · simp only [Except.ok.injEq, Prod.mk.injEq] at h
    obtain ⟨rfl, rfl⟩ := h
    -- The symbol is put behind the others, and its name into its scope, whose kind stays.
    refine ⟨⟨by simp, by simp, ?_, ?_⟩, rfl, by simp, by simp [get]⟩
    · intro s hs
      simp only [scope, Array.getD_eq_getD_getElem?, Array.getElem?_modify]
      split <;> simp [hs]
    · intro i hi
      simp [get, hi, Nat.lt_succ_of_lt hi, Array.getElem_push_lt]

lemma extends_setMembers (t : SymbolTable) (id : SymbolId) (members : ScopeId) :
    t.Extends (t.setMembers id members) where
  scopes_le := le_rfl
  symbols_le := by simp [setMembers]
  kind_scope _ := rfl
  get_eq {i} hi := by
    simp only [get, setMembers, Array.getD_eq_getD_getElem?, Array.getElem?_modify]
    split <;> simp [hi]

end SymbolTable

lemma Resolve.map_mapM {α β γ : Type} {f : α → Resolve β} {g : β → γ} {h : α → γ} (hf : ∀ a r, g (f a r).1 = h a)
    (as : List α) (r : Resolution) : (as.mapM f r).1.map g = as.map h := by
  induction as generalizing r with
  | nil => rfl
  | cons a as ih =>
    rw [List.mapM_cons, List.map_cons, ← hf a r, ← ih (f a r).2]
    rfl

end SketchCompiler
