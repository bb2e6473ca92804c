import SketchCompiler.Proofs.Sample
import SketchCompiler.Proofs.SketchBodies

namespace SketchCompiler

open List

variable {quiet : Bool} {ss : List TargetStmt} (turns : String → Bool → Bool)

/-- A statement starts or a test is made: in an atomic block or not, with interrupts enabled or not. -/
structure Moment where
  inside : Bool
  enabled : Bool
deriving DecidableEq, Repr

inductive Ending where
  | done
  | broke
  | continued
  | returned
deriving DecidableEq, Repr

/-- Behind a loop or a switch that was left by a `break`, the run goes on. -/
def Ending.caught : Ending → Ending
  | broke => done
  | x => x

lemma Ending.eq_of_caught {x y : Ending} (h : x.caught = y) (hy : y ≠ .done) : x = y := by
  cases x <;> simp_all [Ending.caught]

def Jump.ending : Jump → Ending
  | breaks => .broke
  | continues => .continued
  | returns _ => .returned

/-- A run: its moments, its ending, if it is looked at up to there, and whether interrupts are enabled then. -/
structure Outcome where
  trace : List Moment
  ending : Option Ending
  enabled : Bool

namespace Outcome

/-- Interrupts are disabled inside atomic blocks and enabled outside. -/
def Safe (o : Outcome) : Prop := ∀ m ∈ o.trace, m.enabled = !m.inside

def Kept (o : Outcome) : Prop := o.Safe ∧ (o.ending.isSome → o.enabled = true)

def after (trace : List Moment) (o : Outcome) : Outcome := { o with trace := trace ++ o.trace }

def caught (o : Outcome) : Outcome := { o with ending := o.ending.map Ending.caught }

/-- Interrupts are enabled behind an atomic block, but not if a jump leaves it. -/
def freed (o : Outcome) : Outcome := { o with enabled := o.enabled || o.ending = some .done }

lemma safe_after {trace} {o : Outcome} : (o.after trace).Safe ↔ (∀ m ∈ trace, m.enabled = !m.inside) ∧ o.Safe := by
  simp [Safe, after, or_imp, forall_and]

end Outcome

/-- The runs of some code, each from interrupts enabled or disabled. -/
abbrev Behaviour := Bool → Outcome → Prop

namespace Behaviour

/-- The run gets to the ending `x`, or is looked at up to just before it. -/
def To (trace : List Moment) (x : Ending) (e : Bool) (o : Outcome) : Prop :=
  o = ⟨trace, some x, e⟩ ∨ o = ⟨trace, none, e⟩

def skip : Behaviour := fun e o => To [] .done e o

def leap (i : Bool) (x : Ending) : Behaviour := fun e o => To [⟨i, e⟩] x e o

/-- The text is run, which may turn interrupts to what `turns` allows. -/
def act (i : Bool) (text : String) : Behaviour := fun e o =>
  ∃ e', (e' = e ∨ turns text e' = true) ∧ To [⟨i, e⟩] .done e' o

def seq (B C : Behaviour) : Behaviour := fun e o => (B e o ∧ o.ending ≠ some .done) ∨
  ∃ o1 o2, B e o1 ∧ o1.ending = some .done ∧ C o1.enabled o2 ∧ o = o2.after o1.trace

def either (B C : Behaviour) : Behaviour := fun e o => B e o ∨ C e o

def caught (B : Behaviour) : Behaviour := fun e o => ∃ o', B e o' ∧ o = o'.caught

/-- Interrupts are disabled before the code, and enabled behind it. -/
def atomically (B : Behaviour) : Behaviour := fun _ o => ∃ o', B false o' ∧ o = o'.freed

/-- Rounds of a loop with the head `H` and the body `B`. -/
inductive Loops (H B : Behaviour) : Bool → Outcome → Prop
  | exit {e o} : H e o → Loops H B e o
  | leave {e o} : seq H B e o → o.ending ≠ some .done → o.ending ≠ some .continued → Loops H B e o.caught
  | again {e o o'} : seq H B e o → o.ending = some .done ∨ o.ending = some .continued → Loops H B o.enabled o' →
      Loops H B e (o'.after o.trace)

end Behaviour

open Behaviour

namespace TargetStmt

mutual

/-- The runs of a statement that stands in an atomic block, if `i` is true, or in none. -/
def Runs (i : Bool) : TargetStmt → Behaviour
  | line text => act turns i text
  | jump _ (.returns (some value)) => seq (act turns i value) (leap i .returned)
  | jump _ kind => leap i kind.ending
  | block body => seq (leap i .done) (BlockRuns i body)
  | cond branches => seq (leap i .done) (BranchRuns i turns branches)
  | loop _ head body => Loops (act turns i head.text) (BlockRuns i body)
  | switch _ subject cases => caught (seq (act turns i subject) (BranchRuns i (fun _ _ => false) cases))
  | atomic body => seq (leap i .done) (atomically (BlockRuns true body))

def BlockRuns (i : Bool) : List TargetStmt → Behaviour
  | [] => skip
  | s :: ss => seq (s.Runs i) (BlockRuns i ss)

/-- The tests are made one after the other; what they turn is told apart, as the values of cases turn nothing. -/
def BranchRuns (i : Bool) (tests : String → Bool → Bool) : List TargetBranch → Behaviour
  | [] => skip
  | ⟨none, body⟩ :: _ => BlockRuns i body
  | ⟨some test, body⟩ :: bs => seq (act tests i test) (either (BlockRuns i body) (BranchRuns i tests bs))

end

/-- The endings of code that comes behind code with the endings `xs`. -/
def thenExits (xs ys : List Ending) : List Ending := xs.filter (· != .done) ++ if xs.contains .done then ys else []

mutual

def exits : TargetStmt → List Ending
  | line _ => [.done]
  | jump _ kind => [kind.ending]
  | block body => blockExits body
  | cond branches => branchExits branches
  | loop _ _ body => .done :: (blockExits body).filter (· == .returned)
  | switch _ _ cases => (branchExits cases).map Ending.caught
  | atomic body => blockExits body

def blockExits : List TargetStmt → List Ending
  | [] => [.done]
  | s :: ss => thenExits s.exits (blockExits ss)

def branchExits : List TargetBranch → List Ending
  | [] => [.done]
  | ⟨none, body⟩ :: _ => blockExits body
  | ⟨some _, body⟩ :: bs => blockExits body ++ branchExits bs

end

/-- There is nothing to run in any of the branches. -/
def silent : List TargetBranch → Bool
  | [] => true
  | ⟨none, body⟩ :: _ => body.isEmpty
  | ⟨some _, _⟩ :: _ => false

mutual

/-- Nothing that is reached turns interrupts the wrong way. Inside an atomic block this is done by the end of a block
inside, so it has to be the last that is run; `last` tells whether nothing more comes in the outermost block. Outside it
is done by a jump out of an atomic block. -/
def tidy (i last : Bool) : TargetStmt → Bool
  | line text => last || !turns text i
  | jump _ (.returns (some value)) => !turns value i
  | jump .. => true
  | block body => tidyBlock i last body
  | cond branches => tidyBranches i last turns branches
  | loop _ head body => !turns head.text i && tidyBlock i false body
  | switch _ subject cases =>
    (last && silent cases || !turns subject i) && tidyBranches i last (fun _ _ => false) cases
  | atomic body =>
    tidyBlock true (last || !i) body && (last || (blockExits body).all fun x => (x == .done) != i)

/-- What comes behind a statement matters only if the statement can come to its end. -/
def tidyBlock (i last : Bool) : List TargetStmt → Bool
  | [] => true
  | s :: ss => s.tidy i (last && ss.isEmpty) && (!s.exits.contains .done || tidyBlock i last ss)

def tidyBranches (i last : Bool) (tests : String → Bool → Bool) : List TargetBranch → Bool
  | [] => true
  | ⟨none, body⟩ :: _ => tidyBlock i last body
  | ⟨some test, body⟩ :: bs => (last && (body.isEmpty && silent bs) || !tests test i) &&
      (tidyBlock i last body && tidyBranches i last tests bs)

end

end TargetStmt

namespace Behaviour

lemma either_self (B : Behaviour) : either B B = B := by
  funext e o
  exact or_self _

variable {B C H : Behaviour} {X Y : List Ending} {i last : Bool}

attribute [local simp] Outcome.caught Outcome.freed

section Ends

/-- The endings of runs are those in the list, whatever the interrupts are at the start. -/
def Ends (B : Behaviour) (X : List Ending) : Prop := ∀ e x, (∃ o, B e o ∧ o.ending = some x) ↔ x ∈ X

lemma ends_leap (i : Bool) (x : Ending) : Ends (leap i x) [x] := by
  intro e y
  simp only [leap, To, mem_singleton]
  constructor
  · rintro ⟨o, rfl | rfl, h⟩
    · exact (Option.some.inj h).symm
    · cases h
  · rintro rfl
    exact ⟨_, .inl rfl, rfl⟩

lemma ends_skip : Ends skip [.done] := by
  intro e y
  simp only [skip, To, mem_singleton]
  constructor
  · rintro ⟨o, rfl | rfl, h⟩
    · exact (Option.some.inj h).symm
    · cases h
  · rintro rfl
    exact ⟨_, .inl rfl, rfl⟩

lemma ends_act (i : Bool) (text : String) : Ends (act turns i text) [.done] := by
  intro e y
  simp only [act, To, mem_singleton]
  constructor
  · rintro ⟨o, ⟨e', -, rfl | rfl⟩, h⟩
    · exact (Option.some.inj h).symm
    · cases h
  · rintro rfl
    exact ⟨_, ⟨e, .inl rfl, .inl rfl⟩, rfl⟩

lemma Ends.seq (hB : Ends B X) (hC : Ends C Y) : Ends (seq B C) (TargetStmt.thenExits X Y) := by
  intro e x
  have hmem : x ∈ TargetStmt.thenExits X Y ↔ (x ∈ X ∧ x ≠ .done) ∨ (.done ∈ X ∧ x ∈ Y) := by
    by_cases hd : Ending.done ∈ X <;> simp [TargetStmt.thenExits, hd]
  rw [hmem, ← hB e x]
  constructor
  · rintro ⟨o, ⟨ho, hne⟩ | ⟨o1, o2, h1, hd, h2, rfl⟩, hx⟩
    · exact .inl ⟨⟨o, ho, hx⟩, by rintro rfl; exact hne hx⟩
    · exact .inr ⟨(hB e .done).mp ⟨o1, h1, hd⟩, (hC o1.enabled x).mp ⟨o2, h2, hx⟩⟩
  · rintro (⟨⟨o, ho, hx⟩, hne⟩ | ⟨hd, hx⟩)
    · exact ⟨o, .inl ⟨ho, by simpa [hx] using hne⟩, hx⟩
    · obtain ⟨o1, h1, hd⟩ := (hB e .done).mpr hd
      obtain ⟨o2, h2, hx⟩ := (hC o1.enabled x).mpr hx
      exact ⟨_, .inr ⟨o1, o2, h1, hd, h2, rfl⟩, hx⟩

lemma Ends.behind (hB : Ends B [.done]) (hC : Ends C Y) : Ends (Behaviour.seq B C) Y := hB.seq hC

lemma Ends.either (hB : Ends B X) (hC : Ends C Y) : Ends (either B C) (X ++ Y) := by
  intro e x
  rw [mem_append, ← hB e x, ← hC e x, ← exists_or]
  exact exists_congr fun o => or_and_right

lemma Ends.caught (hB : Ends B X) : Ends (caught B) (X.map Ending.caught) := by
  intro e x
  rw [mem_map]
  constructor
  · rintro ⟨_, ⟨o, ho, rfl⟩, hx⟩
    obtain ⟨y, hy, rfl⟩ := Option.map_eq_some_iff.mp hx
    exact ⟨y, (hB e y).mp ⟨o, ho, hy⟩, rfl⟩
  · rintro ⟨y, hy, rfl⟩
    obtain ⟨o, ho, hy⟩ := (hB e y).mpr hy
    exact ⟨o.caught, ⟨o, ho, rfl⟩, by simp [hy]⟩

lemma Ends.atomically (hB : Ends B X) : Ends (atomically B) X := by
  intro e x
  rw [← hB false x]
  constructor
  · rintro ⟨_, ⟨o, ho, rfl⟩, hx⟩
    exact ⟨o, ho, hx⟩
  · rintro ⟨o, ho, hx⟩
    exact ⟨o.freed, ⟨o, ho, rfl⟩, hx⟩

lemma Ends.loops (hH : Ends H [.done]) (hB : Ends B Y) : Ends (Loops H B) (.done :: Y.filter (· == .returned)) := by
  have hround := hH.behind hB
  intro e x
  rw [mem_cons, mem_filter, beq_iff_eq]
  constructor
  · rintro ⟨o, ho, hx⟩
    induction ho with
    | exit h => exact .inl (by simpa using (hH _ x).mp ⟨_, h, hx⟩)
    | leave h hd hc =>
      obtain ⟨y, hy, rfl⟩ := Option.map_eq_some_iff.mp hx
      have hmem := (hround _ y).mp ⟨_, h, hy⟩
      cases y with
      | done => exact absurd hy hd
      | continued => exact absurd hy hc
      | broke => exact .inl rfl
      | returned => exact .inr ⟨hmem, rfl⟩
    | again _ _ _ ih => exact ih hx
  · rintro (rfl | ⟨hx, rfl⟩)
    · obtain ⟨o, ho, hx⟩ := (hH e .done).mpr (mem_singleton_self _)
      exact ⟨o, .exit ho, hx⟩
    · obtain ⟨o, ho, hx⟩ := (hround e .returned).mpr hx
      exact ⟨o.caught, .leave ho (by simp [hx]) (by simp [hx]), by simp [hx, Ending.caught]⟩

end Ends

section Honest

/-- Inside an atomic block a jump is a moment of its own, and leaves interrupts as they are. -/
def Honest (B : Behaviour) : Prop := ∀ e o x, B e o → o.ending = some x → x ≠ .done → ⟨true, o.enabled⟩ ∈ o.trace

lemma Ends.honest (hB : Ends B [.done]) : Honest B := by
  intro e o x ho hx hne
  exact absurd (by simpa using (hB e x).mp ⟨o, ho, hx⟩) hne

lemma honest_leap (x : Ending) : Honest (leap true x) := by
  rintro e o y (rfl | rfl) hy hne
  · simp
  · cases hy

lemma Honest.seq (hB : Honest B) (hC : Honest C) : Honest (seq B C) := by
  rintro e o x (⟨ho, -⟩ | ⟨o1, o2, -, -, h2, rfl⟩) hx hne
  · exact hB e o x ho hx hne
  · exact mem_append_right _ (hC o1.enabled o2 x h2 hx hne)

lemma Honest.either (hB : Honest B) (hC : Honest C) : Honest (either B C) := by
  rintro e o x (ho | ho) hx hne
  · exact hB e o x ho hx hne
  · exact hC e o x ho hx hne

lemma Honest.caught (hB : Honest B) : Honest (caught B) := by
  rintro e _ x ⟨o, ho, rfl⟩ hx hne
  obtain ⟨y, hy, hyx⟩ := Option.map_eq_some_iff.mp hx
  obtain rfl := Ending.eq_of_caught hyx hne
  exact hB e o y ho hy hne

lemma Honest.atomically (hB : Honest B) : Honest (atomically B) := by
  rintro e _ x ⟨o, ho, rfl⟩ hx hne
  have hx' : o.ending = some x := hx
  simpa [hx', hne] using hB false o x ho hx' hne

lemma Honest.loops (hH : Honest H) (hB : Honest B) : Honest (Loops H B) := by
  intro e o x ho hx hne
  induction ho with
  | exit h => exact hH _ _ x h hx hne
  | leave h _ _ => exact (hH.seq hB).caught _ _ x ⟨_, h, rfl⟩ hx hne
  | again _ _ _ ih => exact mem_append_right _ (ih hx)

end Honest

section Starts

def Starts (i : Bool) (B : Behaviour) : Prop := ∀ e, ∃ o, B e o ∧ o.ending = none ∧ ⟨i, e⟩ ∈ o.trace

lemma starts_leap (x : Ending) : Starts i (leap i x) := fun e => ⟨_, .inr rfl, rfl, by simp⟩

lemma starts_act (text : String) : Starts i (act turns i text) :=
  fun e => ⟨_, ⟨e, .inl rfl, .inr rfl⟩, rfl, by simp⟩

lemma Starts.seq (hB : Starts i B) : Starts i (seq B C) := by
  intro e
  obtain ⟨o, ho, hn, hm⟩ := hB e
  exact ⟨o, .inl ⟨ho, by simp [hn]⟩, hn, hm⟩

lemma Starts.inl (hB : Starts i B) : Starts i (either B C) := by
  intro e
  obtain ⟨o, ho, hn, hm⟩ := hB e
  exact ⟨o, .inl ho, hn, hm⟩

lemma Starts.inr (hC : Starts i C) : Starts i (either B C) := by
  intro e
  obtain ⟨o, ho, hn, hm⟩ := hC e
  exact ⟨o, .inr ho, hn, hm⟩

lemma Starts.caught (hB : Starts i B) : Starts i (caught B) := by
  intro e
  obtain ⟨o, ho, hn, hm⟩ := hB e
  exact ⟨o.caught, ⟨o, ho, rfl⟩, by simp [hn], hm⟩

lemma Starts.loops (hH : Starts i H) : Starts i (Loops H B) := by
  intro e
  obtain ⟨o, ho, hn, hm⟩ := hH e
  exact ⟨o, .exit ho, hn, hm⟩

end Starts

section Behaves

/-- From the right setting of interrupts, all moments are safe, and the setting is right in the end; only where nothing
more comes, the end may leave it wrong. -/
def Behaves (i last : Bool) (B : Behaviour) : Prop :=
  ∀ o, B (!i) o → o.Safe ∧ ∀ x, o.ending = some x → o.enabled = !i ∨ (x = .done ∧ last = true)

lemma behaves_skip : Behaves i last skip := by
  rintro o (rfl | rfl) <;> exact ⟨nofun, fun _ _ => .inl rfl⟩

lemma behaves_leap (x : Ending) : Behaves i last (leap i x) := by
  rintro o (rfl | rfl) <;> exact ⟨by simp [Outcome.Safe], fun _ _ => .inl rfl⟩

lemma behaves_act {turns : String → Bool → Bool} {text} :
    Behaves i last (act turns i text) ↔ (last || !turns text i) = true := by
  rw [Bool.or_eq_true_iff, Bool.not_eq_true']
  constructor
  · intro h
    by_contra hne
    obtain ⟨hlast, hturns⟩ := not_or.mp hne
    obtain ⟨-, hend⟩ := h ⟨[⟨i, !i⟩], some .done, i⟩ ⟨i, .inr (by simpa using hturns), .inl rfl⟩
    rcases hend .done rfl with he | ⟨-, hl⟩
    · cases i <;> cases he
    · exact hlast hl
  · rintro h o ⟨e', he', ho⟩
    have hsafe : o.Safe := by
      rcases ho with rfl | rfl <;> simp [Outcome.Safe]
    refine ⟨hsafe, fun x hx => ?_⟩
    obtain ⟨rfl, hoe⟩ : x = .done ∧ o.enabled = e' := by
      rcases ho with rfl | rfl
      · exact ⟨(Option.some.inj hx).symm, rfl⟩
      · cases hx
    rcases h with hl | hturns
    · exact .inr ⟨rfl, hl⟩
    · refine .inl (hoe.trans ?_)
      rcases he' with rfl | he'
      · rfl
      · cases i <;> cases e' <;> simp_all

lemma behaves_leap_seq : Behaves i last (seq (leap i .done) C) ↔ Behaves i last C := by
  constructor
  · intro h o ho
    obtain ⟨hsafe, hend⟩ := h _ (.inr ⟨⟨[⟨i, !i⟩], some .done, !i⟩, o, .inl rfl, rfl, ho, rfl⟩)
    exact ⟨(Outcome.safe_after.mp hsafe).2, hend⟩
  · rintro h o (⟨rfl | rfl, hne⟩ | ⟨_, o2, rfl | rfl, hd, ho, rfl⟩)
    · exact absurd rfl hne
    · exact ⟨by simp [Outcome.Safe], nofun⟩
    · obtain ⟨hsafe, hend⟩ := h o2 ho
      exact ⟨Outcome.safe_after.mpr ⟨by simp, hsafe⟩, hend⟩
    · cases hd

/-- What comes behind some code. If it has a moment, the code must not leave interrupts wrong. -/
lemma behaves_seq (hB : Ends B X) (hq : quiet = true → C = skip) (hs : quiet = false → Starts i C) :
    Behaves i last (seq B C) ↔ Behaves i (last && quiet) B ∧ (.done ∈ X → Behaves i last C) := by
  constructor
  · intro h
    have first : Behaves i (last && quiet) B := by
      intro o ho
      by_cases hd : o.ending = some .done
      · cases quiet with
        | true =>
          obtain ⟨hsafe, hend⟩ := h o (.inr ⟨o, ⟨[], some .done, o.enabled⟩, ho, hd, by simp [hq rfl, skip, To], by
            simp [Outcome.after, ← hd]⟩)
          simpa using And.intro hsafe hend
        | false =>
          obtain ⟨o2, ho2, -, hm⟩ := hs rfl o.enabled
          obtain ⟨hsafe, -⟩ := h _ (.inr ⟨o, o2, ho, hd, ho2, rfl⟩)
          obtain ⟨hfirst, hsecond⟩ := Outcome.safe_after.mp hsafe
          exact ⟨hfirst, fun _ _ => .inl (hsecond _ hm)⟩
      · obtain ⟨hsafe, hend⟩ := h o (.inl ⟨ho, hd⟩)
        refine ⟨hsafe, fun x hx => (hend x hx).imp_right fun hxd => ?_⟩
        exact absurd (hxd.1 ▸ hx) hd
    refine ⟨first, fun hd o ho => ?_⟩
    cases quiet with
    | true =>
      rw [hq rfl] at ho
      exact behaves_skip o ho
    | false =>
      obtain ⟨o1, ho1, hd1⟩ := (hB (!i) .done).mpr hd
      have he : o1.enabled = !i := ((first o1 ho1).2 _ hd1).resolve_right (by simp)
      obtain ⟨hsafe, hend⟩ := h (o.after o1.trace) (.inr ⟨o1, o, ho1, hd1, he ▸ ho, rfl⟩)
      exact ⟨(Outcome.safe_after.mp hsafe).2, hend⟩
  · rintro ⟨hfirst, hsecond⟩ o (⟨ho, hd⟩ | ⟨o1, o2, ho1, hd1, ho2, rfl⟩)
    · obtain ⟨hsafe, hend⟩ := hfirst o ho
      refine ⟨hsafe, fun x hx => (hend x hx).imp_right fun hxd => ?_⟩
      exact absurd (hxd.1 ▸ hx) hd
    · obtain ⟨hsafe, hend⟩ := hfirst o1 ho1
      have hC := hsecond ((hB _ _).mp ⟨o1, ho1, hd1⟩)
      rcases hend _ hd1 with he | ⟨-, hl⟩
      · obtain ⟨hsafe2, hend2⟩ := hC o2 (he ▸ ho2)
        exact ⟨Outcome.safe_after.mpr ⟨hsafe, hsafe2⟩, hend2⟩
      · obtain ⟨hl, hquiet⟩ := Bool.and_eq_true_iff.mp hl
        rw [hq hquiet] at ho2
        rcases ho2 with rfl | rfl
        · refine ⟨Outcome.safe_after.mpr ⟨hsafe, nofun⟩, fun x hx => .inr ⟨?_, hl⟩⟩
          exact (Option.some.inj hx).symm
        · exact ⟨Outcome.safe_after.mpr ⟨hsafe, nofun⟩, nofun⟩

lemma behaves_either : Behaves i last (either B C) ↔ Behaves i last B ∧ Behaves i last C :=
  ⟨fun h => ⟨fun o ho => h o (.inl ho), fun o ho => h o (.inr ho)⟩, fun h o ho => ho.elim (h.1 o) (h.2 o)⟩

lemma enabled_of_honest (hB : i = true → Honest B) (hl : last = true → i = true) {o : Outcome} {x}
    (ho : B (!i) o) (hx : o.ending = some x) (hne : x ≠ .done) (hsafe : o.Safe)
    (he : o.enabled = !i ∨ last = true) : o.enabled = !i := by
  rcases he with he | he
  · exact he
  · obtain rfl := hl he
    exact hsafe _ (hB rfl _ o x ho hx hne)

lemma behaves_caught (hB : i = true → Honest B) (hl : last = true → i = true) :
    Behaves i last (caught B) ↔ Behaves i last B := by
  constructor
  · intro h o ho
    obtain ⟨hsafe, hend⟩ := h o.caught ⟨o, ho, rfl⟩
    refine ⟨hsafe, fun x hx => ?_⟩
    have he : o.enabled = !i ∨ last = true := (hend x.caught (by simp [hx])).imp_right And.right
    by_cases hd : x = .done
    · exact he.imp_right fun hlast => ⟨hd, hlast⟩
    · exact .inl (enabled_of_honest hB hl ho hx hd hsafe he)
  · rintro h _ ⟨o, ho, rfl⟩
    obtain ⟨hsafe, hend⟩ := h o ho
    refine ⟨hsafe, fun x hx => ?_⟩
    obtain ⟨y, hy, rfl⟩ := Option.map_eq_some_iff.mp hx
    refine (hend y hy).imp_right fun hyd => ⟨?_, hyd.2⟩
    rw [hyd.1]
    rfl

/-- A loop goes on with its head behind all that does not leave it, so nothing may leave interrupts wrong. -/
lemma behaves_loops (hH : Ends H [.done]) (hstart : Starts i H) (hq : quiet = true → B = skip)
    (hs : quiet = false → Starts i B) (hB : i = true → Honest B) (hl : last = true → i = true) :
    Behaves i last (Loops H B) ↔ Behaves i false H ∧ Behaves i false B := by
  have hseq : Behaves i false (seq H B) ↔ Behaves i false H ∧
      (Ending.done ∈ [Ending.done] → Behaves i false B) := behaves_seq hH hq hs
  have hround : Behaves i false (seq H B) ↔ Behaves i false H ∧ Behaves i false B := by simpa using hseq
  rw [← hround]
  constructor
  · intro h o ho
    by_cases hon : o.ending = some .done ∨ o.ending = some .continued
    · obtain ⟨o2, ho2, -, hm⟩ := hstart o.enabled
      obtain ⟨hsafe, -⟩ := h _ (.again ho hon (.exit ho2))
      obtain ⟨hfirst, hsecond⟩ := Outcome.safe_after.mp hsafe
      exact ⟨hfirst, fun _ _ => .inl (hsecond _ hm)⟩
    · obtain ⟨hd, hc⟩ := not_or.mp hon
      obtain ⟨hsafe, hend⟩ := h _ (.leave ho hd hc)
      refine ⟨hsafe, fun x hx => .inl ?_⟩
      have hhonest : i = true → Honest (seq H B) := fun hi => hH.honest.seq (hB hi)
      have hne : x ≠ .done := fun hxd => hd (hxd ▸ hx)
      exact enabled_of_honest hhonest hl ho hx hne hsafe
        ((hend x.caught (by simp [hx])).imp_right And.right)
  · intro h o ho
    generalize he : (!i) = e at ho
    induction ho with
    | exit ho =>
      subst he
      obtain ⟨hsafe, hend⟩ := (hround.mp h).1 _ ho
      exact ⟨hsafe, fun x hx => .inl ((hend x hx).resolve_right (by simp))⟩
    | @leave e o ho hd hc =>
      subst he
      obtain ⟨hsafe, hend⟩ := h o ho
      refine ⟨hsafe, fun x hx => .inl ?_⟩
      obtain ⟨y, hy, -⟩ := Option.map_eq_some_iff.mp hx
      exact (hend y hy).resolve_right (by simp)
    | @again e o o' ho hon _ ih =>
      subst he
      obtain ⟨hsafe, hend⟩ := h o ho
      have he : o.enabled = !i := by
        rcases hon with hx | hx
        · exact (hend _ hx).resolve_right (by simp)
        · exact (hend _ hx).resolve_right (by simp)
      obtain ⟨hsafe', hend'⟩ := ih he.symm
      rw [he] at hend'
      exact ⟨Outcome.safe_after.mpr ⟨hsafe, hsafe'⟩, hend'⟩

lemma behaves_atomically_inside (hB : Ends B X) : Behaves true last (atomically B) ↔
    Behaves true last B ∧ (last = true ∨ .done ∉ X) := by
  constructor
  · intro h
    refine ⟨fun o ho => ?_, ?_⟩
    · obtain ⟨hsafe, hend⟩ := h o.freed ⟨o, ho, rfl⟩
      refine ⟨hsafe, fun x hx => (hend x hx).imp_left fun he => ?_⟩
      exact (Bool.or_eq_false_iff.mp he).1
    · by_contra hne
      obtain ⟨hlast, hd⟩ := not_or.mp hne
      obtain ⟨o, ho, hx⟩ := (hB false .done).mpr (by simpa using hd)
      obtain ⟨-, hend⟩ := h o.freed ⟨o, ho, rfl⟩
      rcases hend .done hx with he | ⟨-, hl⟩
      · simp [hx] at he
      · exact hlast hl
  · rintro ⟨h, hd⟩ _ ⟨o, ho, rfl⟩
    obtain ⟨hsafe, hend⟩ := h o ho
    refine ⟨hsafe, fun x hx => ?_⟩
    have hx' : o.ending = some x := hx
    by_cases hxd : x = .done
    · subst hxd
      exact .inr ⟨rfl, hd.resolve_right fun hn => hn ((hB false .done).mp ⟨o, ho, hx'⟩)⟩
    · refine (hend x hx').imp_left fun he => ?_
      simp [he, hx', hxd]

lemma behaves_atomically_outside (hB : Ends B X) (hh : Honest B) : Behaves false false (atomically B) ↔
    Behaves true true B ∧ ∀ x ∈ X, x = .done := by
  constructor
  · intro h
    have hdone : ∀ x ∈ X, x = .done := by
      intro x hx
      by_contra hne
      obtain ⟨o, ho, hx⟩ := (hB false x).mpr hx
      obtain ⟨hsafe, hend⟩ := h o.freed ⟨o, ho, rfl⟩
      have hon : o.freed.enabled = true := (hend x hx).resolve_right (by simp)
      have hoff : o.enabled = false := hsafe _ (hh false o x ho hx hne)
      simp [hoff, hx, hne] at hon
    refine ⟨fun o ho => ?_, hdone⟩
    obtain ⟨hsafe, -⟩ := h o.freed ⟨o, ho, rfl⟩
    exact ⟨hsafe, fun x hx => .inr ⟨hdone x ((hB false x).mp ⟨o, ho, hx⟩), rfl⟩⟩
  · rintro ⟨h, hdone⟩ _ ⟨o, ho, rfl⟩
    obtain ⟨hsafe, -⟩ := h o ho
    refine ⟨hsafe, fun x hx => .inl ?_⟩
    have hx' : o.ending = some x := hx
    simp [hx', hdone x ((hB false x).mp ⟨o, ho, hx'⟩)]

end Behaves

end Behaviour

namespace TargetStmt

variable {i : Bool} {tests : String → Bool → Bool} {bs : List TargetBranch}

mutual

lemma ends_runs (i : Bool) (s : TargetStmt) : Behaviour.Ends (s.Runs turns i) s.exits := by
  cases s with
  | line text => exact ends_act turns i text
  | jump place kind =>
    cases kind with
    | breaks | continues => exact ends_leap i _
    | returns value =>
      cases value with
      | none => exact ends_leap i _
      | some value => exact (ends_act turns i value).behind (ends_leap i _)
  | block body => exact (ends_leap i _).behind (ends_blockRuns i body)
  | cond branches => exact (ends_leap i _).behind (ends_branchRuns i turns branches)
  | loop place head body => exact (ends_act turns i _).loops (ends_blockRuns i body)
  | switch place subject cases =>
    exact ((ends_act turns i subject).behind (ends_branchRuns i (fun _ _ => false) cases)).caught
  | atomic body => exact (ends_leap i _).behind (ends_blockRuns true body).atomically

lemma ends_blockRuns (i : Bool) (ss : List TargetStmt) : Behaviour.Ends (BlockRuns turns i ss) (blockExits ss) := by
  cases ss with
  | nil => exact ends_skip
  | cons s ss => exact (ends_runs i s).seq (ends_blockRuns i ss)

lemma ends_branchRuns (i : Bool) (tests : String → Bool → Bool) (bs : List TargetBranch) :
    Behaviour.Ends (BranchRuns turns i tests bs) (branchExits bs) := by
  cases bs with
  | nil => exact ends_skip
  | cons b bs =>
    obtain ⟨test, body⟩ := b
    cases test with
    | none => exact ends_blockRuns i body
    | some test =>
      exact (ends_act tests i test).behind ((ends_blockRuns i body).either (ends_branchRuns i tests bs))

end

mutual

lemma honest_runs (s : TargetStmt) : Honest (s.Runs turns true) := by
  cases s with
  | line text => exact (ends_act turns true text).honest
  | jump place kind =>
    cases kind with
    | breaks | continues => exact honest_leap _
    | returns value =>
      cases value with
      | none => exact honest_leap _
      | some value => exact (ends_act turns true value).honest.seq (honest_leap _)
  | block body => exact (honest_leap _).seq (honest_blockRuns body)
  | cond branches => exact (honest_leap _).seq (honest_branchRuns turns branches)
  | loop place head body => exact (ends_act turns true _).honest.loops (honest_blockRuns body)
  | switch place subject cases =>
    exact ((ends_act turns true subject).honest.seq (honest_branchRuns (fun _ _ => false) cases)).caught
  | atomic body => exact (honest_leap _).seq (honest_blockRuns body).atomically

lemma honest_blockRuns (ss : List TargetStmt) : Honest (BlockRuns turns true ss) := by
  cases ss with
  | nil => exact ends_skip.honest
  | cons s ss => exact (honest_runs s).seq (honest_blockRuns ss)

lemma honest_branchRuns (tests : String → Bool → Bool) (bs : List TargetBranch) :
    Honest (BranchRuns turns true tests bs) := by
  cases bs with
  | nil => exact ends_skip.honest
  | cons b bs =>
    obtain ⟨test, body⟩ := b
    cases test with
    | none => exact honest_blockRuns body
    | some test =>
      exact (ends_act tests true test).honest.seq ((honest_blockRuns body).either (honest_branchRuns tests bs))

end

lemma starts_runs (i : Bool) (s : TargetStmt) : Starts i (s.Runs turns i) := by
  cases s with
  | line text => exact starts_act turns text
  | jump place kind =>
    cases kind with
    | breaks | continues => exact starts_leap _
    | returns value =>
      cases value with
      | none => exact starts_leap _
      | some value => exact (starts_act turns value).seq
  | block | cond | atomic => exact (starts_leap _).seq
  | loop place head body => exact (starts_act turns _).loops
  | switch place subject cases => exact (starts_act turns subject).seq.caught

lemma blockRuns_eq_skip {i : Bool} (h : ss.isEmpty = true) : BlockRuns turns i ss = skip := by
  rw [List.isEmpty_iff.mp h]
  rfl

lemma starts_blockRuns (h : ss.isEmpty = false) : Starts i (BlockRuns turns i ss) := by
  cases ss with
  | nil => cases h
  | cons s ss => exact (starts_runs turns i s).seq

lemma branchRuns_eq_skip (h : silent bs = true) : BranchRuns turns i tests bs = skip := by
  rcases bs with _ | ⟨⟨_ | test, body⟩, bs⟩
  · rfl
  · exact blockRuns_eq_skip turns h
  · cases h

lemma starts_branchRuns (h : silent bs = false) : Starts i (BranchRuns turns i tests bs) := by
  rcases bs with _ | ⟨⟨_ | test, body⟩, bs⟩
  · cases h
  · exact starts_blockRuns turns h
  · exact (starts_act tests test).seq

mutual

lemma behaves_runs (i last : Bool) (hl : last = true → i = true) (s : TargetStmt) :
    Behaves i last (s.Runs turns i) ↔ s.tidy turns i last = true := by
  cases s with
  | line text => exact behaves_act
  | jump place kind =>
    cases kind with
    | breaks | continues => exact iff_of_true (behaves_leap _) rfl
    | returns value =>
      cases value with
      | none => exact iff_of_true (behaves_leap _) rfl
      | some value =>
        have hseq : Behaves i last (seq (act turns i value) (leap i .returned)) ↔ Behaves i (last && false)
            (act turns i value) ∧ (Ending.done ∈ [Ending.done] → Behaves i last (leap i .returned)) :=
          behaves_seq (ends_act turns i value) nofun fun _ => starts_leap _
        rw [Runs, hseq, behaves_act]
        simp [behaves_leap, tidy]
  | block body => exact behaves_leap_seq.trans (behaves_blockRuns i last hl body)
  | cond branches => exact behaves_leap_seq.trans (behaves_branchRuns i last hl turns branches)
  | loop place head body =>
    rw [Runs, behaves_loops (ends_act turns i _) (starts_act turns _) (blockRuns_eq_skip turns)
      (starts_blockRuns turns), behaves_act, behaves_blockRuns i false nofun body, tidy, Bool.and_eq_true_iff]
    · rfl
    · rintro rfl
      exact honest_blockRuns turns body
    · exact hl
  | switch place subject cases =>
    rw [Runs, behaves_caught _ hl, behaves_seq (ends_act turns i subject) (branchRuns_eq_skip turns)
      (starts_branchRuns turns), behaves_act, behaves_branchRuns i last hl _ cases, tidy, Bool.and_eq_true_iff]
    · simp
    · rintro rfl
      exact (ends_act turns true subject).honest.seq (honest_branchRuns turns _ cases)
  | atomic body =>
    have hexits := ends_blockRuns turns true body
    rw [Runs, behaves_leap_seq, tidy, Bool.and_eq_true_iff]
    cases i with
    | false =>
      obtain rfl : last = false := by simpa using hl
      rw [behaves_atomically_outside hexits (honest_blockRuns turns body),
        behaves_blockRuns true true (fun _ => rfl) body]
      simp
    | true =>
      rw [behaves_atomically_inside hexits, behaves_blockRuns true last (fun _ => rfl) body]
      simp [forall_mem_ne']

lemma behaves_blockRuns (i last : Bool) (hl : last = true → i = true) (ss : List TargetStmt) :
    Behaves i last (BlockRuns turns i ss) ↔ tidyBlock turns i last ss = true := by
  cases ss with
  | nil => exact iff_of_true behaves_skip rfl
  | cons s ss =>
    have hl' : (last && ss.isEmpty) = true → i = true := fun h => hl (Bool.and_eq_true_iff.mp h).1
    rw [BlockRuns, behaves_seq (ends_runs turns i s) (blockRuns_eq_skip turns) (starts_blockRuns turns),
      behaves_runs i _ hl' s, behaves_blockRuns i last hl ss, tidyBlock]
    simp [imp_iff_not_or]

lemma behaves_branchRuns (i last : Bool) (hl : last = true → i = true) (tests : String → Bool → Bool)
    (bs : List TargetBranch) :
    Behaves i last (BranchRuns turns i tests bs) ↔ tidyBranches turns i last tests bs = true := by
  cases bs with
  | nil => exact iff_of_true behaves_skip rfl
  | cons b bs =>
    obtain ⟨test, body⟩ := b
    cases test with
    | none => exact behaves_blockRuns i last hl body
    | some test =>
      have hquiet (h : (body.isEmpty && silent bs) = true) :
          either (BlockRuns turns i body) (BranchRuns turns i tests bs) = skip := by
        obtain ⟨hbody, hbs⟩ := Bool.and_eq_true_iff.mp h
        rw [blockRuns_eq_skip turns hbody, branchRuns_eq_skip turns hbs, either_self]
      have hstart (h : (body.isEmpty && silent bs) = false) :
          Starts i (either (BlockRuns turns i body) (BranchRuns turns i tests bs)) := by
        rcases Bool.and_eq_false_iff.mp h with h | h
        · exact (starts_blockRuns turns h).inl
        · exact (starts_branchRuns turns h).inr
      rw [BranchRuns, behaves_seq (ends_act tests i test) hquiet hstart, behaves_act, behaves_either,
        behaves_blockRuns i last hl body, behaves_branchRuns i last hl tests bs, tidyBranches]
      simp

end

end TargetStmt

/-- The code of each body stands in the sketch. Whatever the texts in it turn, all runs of this code from enabled
interrupts have them disabled inside atomic blocks and enabled outside and in the end, just if the code is tidy. -/
theorem Program.atomic_blocks_kept_iff {k : Scene} {p : Program} {b : CodeBody} (hb : b ∈ p.bodies k []) :
    ∃ depth n code, ((blockTarget k b.place b.start b.stmts).run n).1 = code ∧
      TargetStmt.blockLines depth code <:+: ((p.sketchLines k).run {}).1 ∧ ∀ turns : String → Bool → Bool,
        (∀ o, TargetStmt.BlockRuns turns false code true o → o.Kept) ↔
          TargetStmt.tidyBlock turns false false code = true := by
  obtain ⟨depth, n, hinfix⟩ := p.shows_body hb
  rw [blockLines_eq_target k depth b.place b.start] at hinfix
  refine ⟨depth, n, _, rfl, hinfix, fun turns => ?_⟩
  rw [← TargetStmt.behaves_blockRuns turns false false nofun]
  refine forall_congr' fun o => imp_congr_right fun _ => and_congr_right fun _ => ?_
  simp [Option.isSome_iff_exists]

namespace Sample

def pass : Stmt := .native default ""

def atomicItems : List Item :=
  [.function default (method "nested" [.atomic default [.atomic default [pass], pass]]).value,
    .function default (method "left" [.atomic default [.ret default none]]).value,
    .function default (method "ended" [.atomic default [pass]]).value]

/-- Only the third function keeps interrupts as they should be. -/
theorem third_atomic_kept : ((unit atomicItems).bodies bareScene []).length = 3 ∧
    ∀ b ∈ (unit atomicItems).bodies bareScene [], ∃ depth n code,
      ((blockTarget bareScene b.place b.start b.stmts).run n).1 = code ∧
      TargetStmt.blockLines depth code <:+: (((unit atomicItems).sketchLines bareScene).run {}).1 ∧
      ((∀ o, TargetStmt.BlockRuns (fun _ _ => false) false code true o → o.Kept) ↔ b.place = [2]) := by
  refine ⟨rfl, fun b hb => ?_⟩
  obtain ⟨depth, n, code, hcode, hinfix, h⟩ := Program.atomic_blocks_kept_iff hb
  refine ⟨depth, n, code, hcode, hinfix, (h _).trans ?_⟩
  have hbodies : (unit atomicItems).bodies bareScene [] =
      [⟨[0], 0, [.atomic default [.atomic default [pass], pass]]⟩,
        ⟨[1], 0, [.atomic default [.ret default none]]⟩, ⟨[2], 0, [.atomic default [pass]]⟩] := rfl
  rw [hbodies] at hb
  subst hcode
  simp only [mem_cons, not_mem_nil, or_false] at hb
  rcases hb with rfl | rfl | rfl
  · exact iff_of_false Bool.noConfusion (by simp)
  · exact iff_of_false Bool.noConfusion (by simp)
  · exact iff_of_true rfl rfl

end Sample

end SketchCompiler
