import SketchCompiler.Proofs.DeviceCalls
import SketchCompiler.Proofs.VolatileVariables

namespace SketchCompiler

open Node

variable {a : List Nat}

namespace Node

/-- The place below `n` lies in an interrupt, in its pin or in its body. -/
def InInterrupt (n : Node) (a : List Nat) : Prop :=
  ∃ b l d i c, n.at? b = some (item (.interrupt l d)) ∧ a = b ++ i :: c

variable {n m : Node}

lemma not_inInterrupt_nil (n : Node) : ¬ n.InInterrupt [] := by
  rintro ⟨b, l, d, i, c, -, ha⟩
  simp at ha

lemma inInterrupt_cons {c : Node} {i : Nat} (hc : n.children[i]? = some c) :
    n.InInterrupt (i :: a) ↔ (∃ l d, n = item (.interrupt l d)) ∨ c.InInterrupt a := by
  constructor
  · rintro ⟨b, l, d, j, e, hb, ha⟩
    cases b with
    | nil => exact .inl ⟨l, d, Option.some.inj hb⟩
    | cons k b =>
      obtain ⟨rfl, rfl⟩ := List.cons.inj ha
      rw [at?, hc] at hb
      exact .inr ⟨b, l, d, j, e, hb, rfl⟩
  · rintro (⟨l, d, rfl⟩ | ⟨b, l, d, j, e, hb, rfl⟩)
    · exact ⟨[], l, d, i, a, rfl, rfl⟩
    · refine ⟨i :: b, l, d, j, e, ?_, rfl⟩
      rw [at?, hc]
      exact hb

lemma outside_iff_place : n.Outside m ↔ ∃ a, n.at? a = some m ∧ ¬ n.InInterrupt a := by
  constructor
  · intro h
    induction h with
    | refl n => exact ⟨[], rfl, n.not_inInterrupt_nil⟩
    | child hn hc _ ih =>
      obtain ⟨a, ha, hout⟩ := ih
      obtain ⟨i, hi⟩ := List.getElem?_of_mem hc
      refine ⟨i :: a, ?_, ?_⟩
      · rw [at?, hi]
        exact ha
      · rw [inInterrupt_cons hi]
        rintro (⟨l, d, rfl⟩ | hin)
        · exact hn l d rfl
        · exact hout hin
  · rintro ⟨a, ha, hout⟩
    induction a generalizing n with
    | nil =>
      cases ha
      exact .refl _
    | cons i a ih =>
      obtain ⟨c, hc, ha⟩ := Option.bind_eq_some_iff.mp ha
      rw [inInterrupt_cons hc, not_or] at hout
      refine .child (fun l d hn => hout.1 ⟨l, d, hn⟩) (List.mem_of_getElem? hc) (ih ha hout.2)

end Node

namespace Program

variable {p q : Program} {t : SymbolTable} {volatile : VolatileSet} {d : VarDecl} {id : SymbolId}

lemma Unnumbered.vars (hp : p.Unnumbered) : ∀ d ∈ p.vars, d.symbol = none :=
  fun d hd => hp _ ((mem_vars (n := .unit p)).mp hd) d.symbol (List.mem_singleton_self _)

lemma not_inInterrupt_of_volatile (hp : p.Unnumbered) (hr : p.resolveNames = (q, .ok t))
    (hc : q.checkInterrupts t = .ok volatile) (ha : (unit q).at? a = some (.var d)) (hs : d.symbol = some id)
    (hv : volatile.contains id) : ¬ (unit q).InInterrupt a := by
  -- A number belongs to one place, so it is enough that some variable with this number is outside.
  obtain ⟨e, hout, he⟩ : ∃ e, (unit q).Outside (.var e) ∧ e.symbol = some id := by
    rcases (contains_volatile_iff hc id).mp hv with ⟨e, hout, -, he⟩ | ⟨-, hg, -⟩
    · exact ⟨e, hout, he⟩
    · rcases declaresOnTop_or_inside (mem_nodes.mpr ⟨a, ha⟩) with h | h
      · exact ⟨d, h.outside, hs⟩
      · obtain ⟨_, hnumbers⟩ := exists_numbers hp.vars hr
        rw [h.isGlobal hnumbers.has hs] at hg
        cases hg
  obtain ⟨b, hb, hout⟩ := outside_iff_place.mp hout
  obtain rfl := (numberedOnce hp.vars hr).place_eq ha hb hs he
  exact hout

/-- A reactive variable has a number and is volatile, just if it is neither in an interrupt nor at a place where names
are not read. In a program that was read from text no variable is at such a place. -/
theorem reactive_volatile_iff (hp : p.Unnumbered) (hr : p.resolveNames = (q, .ok t))
    (hc : q.checkInterrupts t = .ok volatile) (ha : (Node.unit q).at? a = some (.var d))
    (hd : d.qualifier = .reactive) :
    ((∃ id, d.symbol = some id ∧ volatile.contains id) ↔
      ¬ ((Node.unit q).InInterrupt a ∨ q.InConfig a ∨ q.InFieldRange a)) ∧
    (p.Read → ¬ (q.InConfig a ∨ q.InFieldRange a)) := by
  have hnone : d.symbol = none ↔ q.InConfig a ∨ q.InFieldRange a :=
    ⟨fun hd => unread_of_unnumbered hr ha (List.mem_singleton.mpr hd.symm), fun hu =>
      (unnumbered_of_unread hp hr hu ha).2 _ Node.mem_nodes_self _ (List.mem_singleton_self d.symbol)⟩
  refine ⟨⟨?_, fun hout => ?_⟩, fun hread => ?_⟩
  · rintro ⟨id, hs, hv⟩ (hin | hunread)
    · exact not_inInterrupt_of_volatile hp hr hc ha hs hv hin
    · rw [hnone.mpr hunread] at hs
      cases hs
  · obtain ⟨hin, hread⟩ := not_or.mp hout
    obtain ⟨id, hs⟩ := Option.ne_none_iff_exists'.mp (hnone.not.mpr hread)
    have houtside := Node.outside_iff_place.mpr ⟨a, ha, hin⟩
    exact ⟨id, hs, (contains_volatile_iff hc id).mpr (.inl ⟨d, houtside, hd, hs⟩)⟩
  · exact hnone.not.mp (hread.numbered hr (mem_vars_iff.mpr ⟨a, ha⟩))

end Program

namespace Sample

def triesText : String := "fn read() -> int { return 1 }
fn wait() { mut int got = read() catch { react mut int tries = 1 } }
interrupt on 2 rising { react mut int last = 1 }"

def reactiveAt? (p : Program) (a : List Nat) : Option SymbolId :=
  match (Node.unit p).at? a with
  | some (.var d) => if d.qualifier = .reactive then d.symbol else none
  | _ => none

lemma of_reactiveAt? {p} {id} (h : reactiveAt? p a = some id) :
    ∃ d, (Node.unit p).at? a = some (.var d) ∧ d.qualifier = .reactive ∧ d.symbol = some id := by
  unfold reactiveAt? at h
  split at h
  case h_2 => cases h
  case h_1 d hd =>
    split at h
    case isFalse => cases h
    case isTrue hq => exact ⟨d, hd, hq, h⟩

def isInterrupt (p : Program) (a : List Nat) : Bool :=
  match (Node.unit p).at? a with
  | some (.item (.interrupt ..)) => true
  | _ => false

lemma of_isInterrupt {p} (h : isInterrupt p a = true) :
    ∃ l d, (Node.unit p).at? a = some (.item (.interrupt l d)) := by
  unfold isInterrupt at h
  split at h
  case h_1 l d hd => exact ⟨l, d, hd⟩
  case h_2 => cases h

/-- The variable of the handler is volatile, and that of the interrupt is not. -/
theorem last_not_volatile : ∃ q t volatile d e, (ofText triesText).Read ∧
    (ofText triesText).resolveNames = (q, .ok t) ∧ q.checkInterrupts t = .ok volatile ∧
    (Node.unit q).at? [1, 0, 0, 0, 1, 0] = some (.var d) ∧ d.qualifier = .reactive ∧
    (∃ id, d.symbol = some id ∧ volatile.contains id) ∧
    ¬ ((Node.unit q).InInterrupt [1, 0, 0, 0, 1, 0] ∨ q.InConfig [1, 0, 0, 0, 1, 0] ∨
      q.InFieldRange [1, 0, 0, 0, 1, 0]) ∧
    (Node.unit q).at? [2, 1, 0] = some (.var e) ∧ e.qualifier = .reactive ∧ (Node.unit q).InInterrupt [2, 1, 0] ∧
    ¬ ∃ id, e.symbol = some id ∧ volatile.contains id := by
  have hall : passes triesText = true ∧
      let q := (ofText triesText).resolveNames.1
      (q.checkInterrupts (tableOf (ofText triesText))).toOption = some ⟨[32]⟩ ∧
        reactiveAt? q [1, 0, 0, 0, 1, 0] = some 32 ∧ reactiveAt? q [2, 1, 0] = some 33 ∧ isInterrupt q [2] := by
    decide +kernel
  obtain ⟨hpasses, hcheck, htries, hlast, hinterrupt⟩ := hall
  obtain ⟨hread, hr, -⟩ := of_passes triesText hpasses
  have hc := eq_ok_of_toOption hcheck
  obtain ⟨d, hd, hdq, hds⟩ := of_reactiveAt? htries
  obtain ⟨e, he, heq, hes⟩ := of_reactiveAt? hlast
  obtain ⟨l, k, hk⟩ := of_isInterrupt hinterrupt
  have hin : (Node.unit (ofText triesText).resolveNames.1).InInterrupt [2, 1, 0] := ⟨[2], l, k, 1, [0], hk, rfl⟩
  have hvolatile : ∃ id, d.symbol = some id ∧ VolatileSet.contains ⟨[32]⟩ id := ⟨32, hds, rfl⟩
  refine ⟨_, _, _, d, e, hread, hr, hc, hd, hdq, hvolatile, ?_, he, heq, hin, fun hv => ?_⟩
  · exact (Program.reactive_volatile_iff hread.unnumbered hr hc hd hdq).1.mp hvolatile
  · exact (Program.reactive_volatile_iff hread.unnumbered hr hc he heq).1.mp hv (.inl hin)

end Sample

end SketchCompiler
