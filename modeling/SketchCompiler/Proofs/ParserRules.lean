import SketchCompiler.Grammar.Program
import SketchCompiler.Proofs.TwinTrees

namespace SketchCompiler

/-- The same tokens are ahead, with the same line breaks. -/
inductive Cursor.Twin (c : Correspondence) : Cursor → Cursor → Prop where
  | nil {l l'} (hl : c.place l l') : Twin c ⟨[], l⟩ ⟨[], l'⟩
  | cons {l l' m m' v ts ts'} (hl : c.place l l') (hv : c.token v)
      (hline : m.line = l.stop.line ↔ m'.line = l'.stop.line) (h : Twin c ⟨ts, m⟩ ⟨ts', m'⟩) :
      Twin c ⟨⟨v, m⟩ :: ts, l⟩ ⟨⟨v, m'⟩ :: ts', l'⟩

namespace Cursor.Twin

variable {c : Correspondence} {s s' : Cursor}

lemma last (h : s.Twin c s') : c.place s.last s'.last := by
  cases h with
  | nil hl => exact hl
  | cons hl _ _ _ => exact hl

lemma values (h : s.Twin c s') : s'.rest.map (·.value) = s.rest.map (·.value) := by
  induction h with
  | nil => rfl
  | cons _ _ _ _ ih => exact congrArg (List.cons _) ih

lemma length (h : s.Twin c s') : s'.rest.length = s.rest.length := by
  simpa using congrArg List.length h.values

lemma refl {tokens} {l} (hl : c.place l l)
    (h : ∀ t ∈ tokens, c.token t.value ∧ c.place t.loc t.loc) : Cursor.Twin c ⟨tokens, l⟩ ⟨tokens, l⟩ := by
  induction tokens generalizing l with
  | nil => exact .nil hl
  | cons t ts ih =>
    obtain ⟨⟨hv, ht⟩, hts⟩ := List.forall_mem_cons.mp h
    exact .cons hl hv Iff.rfl (ih ht hts)

end Cursor.Twin

namespace Parser

variable {α β : Type} {c : Correspondence} {A : α → α → Prop} {B : β → β → Prop} {p p' : Parser α} {f f' : α → Parser β}

/-- Both runs succeed with twins, or fail with the same error. -/
inductive Agrees (c : Correspondence) (A : α → α → Prop) : (r r' : Except Failure (α × Cursor)) → Prop where
  | ok {a a' s s'} (ha : A a a') (hs : s.Twin c s') : Agrees c A (.ok (a, s)) (.ok (a', s'))
  | error {e l l' weak} (hl : c.place l l') : Agrees c A (.error ⟨⟨e, l⟩, weak⟩) (.error ⟨⟨e, l'⟩, weak⟩)

def Parallel (c : Correspondence) (A : α → α → Prop) (p p' : Parser α) : Prop :=
  ∀ s s', s.Twin c s' → Agrees c A (p s) (p' s')

/-- The two runs are by one rule. -/
abbrev Twinned (c : Correspondence) (A : α → α → Prop) (p : Parser α) : Prop := Parallel c A p p

/-- A rule whose result depends on the tokens and the line breaks alone. -/
class Steady (p : Parser α) : Prop where
  parallel (c : Correspondence) : Parallel c Eq p p

/-- Both loops go on, or both end. -/
inductive Step.Twin (B : β → β → Prop) : Step β → Step β → Prop where
  | again {b b' : β} (h : B b b') : Twin B (.again b) (.again b')
  | done {b b' : β} (h : B b b') : Twin B (.done b) (.done b')

namespace Parallel

lemma pure {a a' : α} (h : A a a') : Parallel c A (Pure.pure a) (Pure.pure a') := fun _ _ hs => .ok h hs

lemma bind (hp : Parallel c A p p') (hf : ∀ a a', A a a' → Parallel c B (f a) (f' a')) :
    Parallel c B (p >>= f) (p' >>= f') := by
  intro s s' hs
  simp only [Bind.bind, StateT.bind]
  have hr := hp s s' hs
  generalize p s = r, p' s' = r' at hr
  cases hr with
  | ok ha hs => exact hf _ _ ha _ _ hs
  | error hl => exact .error hl

lemma some (h : Parallel c A p p') : Parallel c (Option.Rel A) (Option.some <$> p) (Option.some <$> p') := by
  rw [← bind_pure_comp, ← bind_pure_comp]
  exact bind h fun _ _ ha => pure (.some ha)

lemma after [hp : Steady p] (hf : ∀ a, Parallel c B (f a) (f' a)) : Parallel c B (p >>= f) (p >>= f') := by
  refine bind (hp.parallel c) ?_
  rintro a _ rfl
  exact hf a

lemma optional {absent : Bool} {rest rest' : Option α → Parser β} (hp : Parallel c A p p')
    (hr : ∀ a a', Option.Rel A a a' → Parallel c B (rest a) (rest' a')) :
    Parallel c B (if absent then Pure.pure none >>= rest else Option.some <$> p >>= rest)
      (if absent then Pure.pure none >>= rest' else Option.some <$> p' >>= rest') := by
  split
  · exact bind (pure .none) hr
  · exact bind hp.some hr

lemma singleton (h : Parallel c A p p') :
    Parallel c (List.Forall₂ A) (List.singleton <$> p) (List.singleton <$> p') := by
  rw [← bind_pure_comp, ← bind_pure_comp]
  exact bind h fun _ _ ha => pure (.cons ha .nil)

lemma fail {e} : Parallel c A (fail e) (fail e) := fun _ _ hs => .error hs.last

lemma failAt {l l'} {e} (hl : c.place l l') : Parallel c A (failAt l e) (failAt l' e) := fun _ _ _ => .error hl

lemma strict (h : Parallel c A p p') : Parallel c A (strict p) (strict p') := by
  intro s s' hs
  unfold Parser.strict
  have hr := h s s' hs
  generalize p s = r, p' s' = r' at hr
  cases hr with
  | ok ha hs => exact .ok ha hs
  | error hl => exact .error hl

lemma weaken (h : Parallel c A p p') : Parallel c A (weaken p) (weaken p') := by
  intro s s' hs
  unfold Parser.weaken
  have hr := h s s' hs
  generalize p s = r, p' s' = r' at hr
  cases hr with
  | ok ha hs => exact .ok ha hs
  | error hl => exact .error hl

lemma get {f f' : Cursor → Parser β} (hf : ∀ s s', s.Twin c s' → Parallel c B (f s) (f' s')) :
    Parallel c B (MonadState.get >>= f) (MonadState.get >>= f') := fun s s' hs => hf s s' hs s s' hs

lemma last : Parallel c c.place last last := fun _ _ hs => .ok hs.last hs

lemma next {f f' : Located Token → Parser β}
    (hf : ∀ v l l', c.token v → c.place l l' → Parallel c B (f ⟨v, l⟩) (f' ⟨v, l'⟩)) :
    Parallel c B (next >>= f) (next >>= f') := by
  intro s s' hs
  cases hs with
  | nil hl => exact .error hl
  | cons _ hv _ hs => exact hf _ _ _ hv hs.last _ _ hs

lemma expectToken (expected : Token) (isIt : Token → Bool) :
    Parallel c Eq (expectToken expected isIt) (expectToken expected isIt) := by
  intro s s' hs
  cases hs with
  | nil hl => exact .error hl
  | cons _ _ _ hs =>
    simp only [Parser.expectToken]
    split
    · exact .ok rfl hs
    · exact .error hs.last

end Parallel

section Steady

instance (a : α) : Steady (pure a : Parser α) := ⟨fun _ => .pure rfl⟩

instance [Steady p] [hf : ∀ a, Steady (f a)] : Steady (p >>= f) := ⟨fun c => .after fun a => (hf a).parallel c⟩

instance {b : Prop} [Decidable b] [hp : Steady p] [hp' : Steady p'] : Steady (if b then p else p') := by
  split
  · exact hp
  · exact hp'

instance {e : ParseError} : Steady (fail e : Parser α) := ⟨fun _ => .fail⟩

instance : Steady peek := by
  refine ⟨fun c => .get fun s s' hs => .pure ?_⟩
  simpa using congrArg List.head? hs.values.symm

instance : Steady onSameLine := by
  refine ⟨fun c => .get fun s s' hs => .pure ?_⟩
  cases hs with
  | nil => rfl
  | cons _ _ hline _ => simp [hline]

instance : Steady skip := ⟨fun _ => .next fun _ _ _ _ _ => .pure rfl⟩

instance {e : Token → ParseError} : Steady (refuse e : Parser α) := ⟨fun _ => .next fun _ _ _ _ _ => .fail⟩

instance {mark : Punct} : Steady (expect mark) := ⟨fun _ => .expectToken _ _⟩

instance {word : Keyword} : Steady (expectWord word) := ⟨fun _ => .expectToken _ _⟩

instance : Steady peekOnLine := inferInstanceAs (Steady (onSameLine >>= fun _ => ite ..))

instance {mark : Punct} : Steady (peekIs mark) := inferInstanceAs (Steady (peek >>= _))

instance {mark : Punct} : Steady (accept mark) := inferInstanceAs (Steady (peekIs mark >>= fun _ => ite ..))

instance {word : Keyword} : Steady (acceptWord word) := inferInstanceAs (Steady (peek >>= fun _ => ite ..))

instance : Steady endOfStatement := by
  refine ⟨fun c => .after fun t => ?_⟩
  split
  · exact .pure rfl
  · exact .pure rfl
  · exact Steady.parallel c
  · exact Steady.parallel c

end Steady

namespace Parallel

lemma refuse {e : Token → ParseError} : Parallel c A (refuse e) (refuse e) := next fun _ _ _ _ _ => fail

lemma located {rule rule' : Parser (Location → α)}
    (h : Parallel c (fun build build' => ∀ l l', c.place l l' → A (build l) (build' l')) rule rule') :
    Parallel c A (located rule) (located rule') := by
  refine get fun s s' hs => ?_
  cases hs with
  | nil => exact fail
  | cons _ _ _ hs => exact bind h fun _ _ hbuild => bind last fun _ _ hl => pure (hbuild _ _ (c.through hs.last hl))

lemma rounds {step step' : β → Parser (Step β)}
    (hs : ∀ b b', B b b' → Parallel c (Step.Twin B) (step b) (step' b')) (n : Nat) {b b' : β} (hb : B b b') :
    Parallel c B (rounds step n b) (rounds step' n b') := by
  induction n generalizing b b' with
  | zero => exact pure hb
  | succ n ih =>
    refine bind (hs b b' hb) fun x x' hx => ?_
    cases hx with
    | again h => exact ih h
    | done h => exact pure h

/-- As many tokens are ahead on both sides, so the loops may have as many rounds. -/
lemma iterate {step step' : β → Parser (Step β)} {b b' : β} (hb : B b b')
    (hs : ∀ b b', B b b' → Parallel c (Step.Twin B) (step b) (step' b')) :
    Parallel c B (iterate step b) (iterate step' b') := by
  refine get fun s s' h => ?_
  rw [h.length]
  exact rounds hs _ hb

lemma collect {rule rule' : Parser α} {as as' : List α} (has : List.Forall₂ A as as') (h : Parallel c A rule rule') :
    Parallel c (Step.Twin (List.Forall₂ A)) (do return .again (as ++ [← rule])) (do return .again (as' ++ [← rule'])) :=
  bind h fun _ _ ha => pure (.again (List.rel_append has (.cons ha .nil)))

lemma commaSeparated (h : Parallel c A p p') : Parallel c (List.Forall₂ A) (commaSeparated p) (commaSeparated p') := by
  intro s s' hs
  unfold Parser.commaSeparated
  have hr := h s s' hs
  generalize p s = r, p' s' = r' at hr
  cases hr with
  | error hl =>
    dsimp only
    split
    · exact .ok .nil hs
    · exact .error hl
  | ok ha hs =>
    refine iterate (.cons ha .nil) (fun as as' has => after fun found => ?_) _ _ hs
    split
    · exact collect has (strict h)
    · exact pure (.done has)

lemma braced (h : Parallel c A p p') : Parallel c (List.Forall₂ A) (braced p) (braced p') := by
  refine after fun _ => iterate .nil fun as as' has => after fun t => ?_
  split
  · exact fail
  · exact after fun _ => pure (.done has)
  · refine bind (strict h) fun a a' ha => after fun found => ?_
    have hdone : Parallel c (Step.Twin (List.Forall₂ A)) (Pure.pure (.again (as ++ [a])))
        (Pure.pure (.again (as' ++ [a']))) :=
      pure (.again (List.rel_append has (.cons ha .nil)))
    split
    · exact hdone
    · refine after fun t => ?_
      split
      · exact hdone
      · exact hdone
      · exact after fun _ => hdone

lemma id : Parallel c (Name.Twin c) id id := by
  refine next fun v l l' hv hl => ?_
  cases v with
  | id name => exact pure ⟨rfl, hl, hv⟩
  | _ => exact fail

end Parallel

end Parser

end SketchCompiler
