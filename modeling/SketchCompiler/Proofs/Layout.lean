import SketchCompiler.Proofs.ReadTwins
import SketchCompiler.Proofs.TokenSplit

namespace SketchCompiler

open List

namespace Parser

variable {α β : Type}

/-- Where a token is ahead, the place of the last one does not matter. -/
def Forgets (p : Parser α) : Prop := ∀ t ts l l', p ⟨t :: ts, l⟩ = p ⟨t :: ts, l'⟩

namespace Forgets

variable {p : Parser α} {f : α → Parser β}

lemma next : Forgets next := fun _ _ _ _ => rfl

lemma expectToken (expected : Token) (isIt : Token → Bool) : Forgets (expectToken expected isIt) := fun _ _ _ _ => rfl

lemma bind (h : Forgets p) : Forgets (p >>= f) := by
  intro t ts l l'
  simp only [Bind.bind, StateT.bind, h t ts l l']

lemma peek {f : Option Token → Parser β} (h : ∀ v, Forgets (f (some v))) : Forgets (peek >>= f) := fun t => h t.value t

lemma acceptWord {word} {f : Bool → Parser β} (h : Forgets (f false)) : Forgets (acceptWord word >>= f) := by
  unfold Parser.acceptWord
  rw [bind_assoc]
  refine .peek fun v => ?_
  split
  · exact .bind (.bind (.bind .next))
  · rwa [pure_bind]

lemma strict (h : Forgets p) : Forgets (strict p) := by
  intro t ts l l'
  simp only [Parser.strict, h t ts l l']

lemma located {rule : Parser (Location → α)} (h : Forgets rule) : Forgets (located rule) := fun t =>
  h.bind (f := fun build : Location → α => last >>= fun l => pure (build (t.loc.through l))) t

lemma iterate {step : β → Parser (Step β)} {b : β} (h : Forgets (step b)) : Forgets (iterate step b) := by
  intro t ts l l'
  change rounds step (ts.length + 2) b _ = rounds step (ts.length + 2) b _
  rw [rounds]
  exact h.bind t ts l l'

end Forgets

end Parser

namespace Grammar

open SketchCompiler.Parser (Forgets)

variable (g : Grammar)

lemma forgets_varDecl : Forgets (varDecl g) := by
  refine .bind (.acceptWord (.acceptWord ?_))
  exact .bind (.expectToken _ _)

lemma forgets_plainItem : Forgets (plainItem g) := by
  refine .peek fun v => ?_
  split
  · exact .bind (.expectToken _ _)
  · exact .bind (forgets_varDecl g)
  · exact .bind (forgets_varDecl g)
  · exact .bind (forgets_varDecl g)
  · exact .bind (.bind .next)
  · exact .bind (.bind .next)
  · exact .bind (.bind .next)
  · exact .bind .next

lemma forgets_itemRule : Forgets (itemRule g) := by
  refine .peek fun v => ?_
  split
  · exact .bind (.bind .next)
  · exact .bind (.bind (.expectToken _ _))
  · exact .bind (.expectToken _ _)
  · exact .bind (.expectToken _ _)
  · exact .bind (.expectToken _ _)
  · exact .bind (.expectToken _ _)
  · exact .bind (.expectToken _ _)
  · exact .bind (.expectToken _ _)
  · exact .bind (forgets_plainItem g)

lemma forgets_program (name : String) : Forgets (program g name) := by
  refine .iterate (.peek fun v => ?_)
  split
  · contradiction
  · exact .bind .next
  · exact .bind (.bind .next)
  · exact .bind (.located (forgets_itemRule g))

end Grammar

/-- Which tokens stand on the line of the one before. -/
def continued (ts : List (Located Token)) : List Bool :=
  ts.zipWith (fun a b => decide (b.loc.line = a.loc.line)) ts.tail

/-- From the beginning of token `i` to the end of token `j`. -/
def spanOf? (ts : List (Located Token)) (i j : Nat) : Option Location := do
  let a ← ts[i]?
  let b ← ts[j]?
  return a.loc.through b.loc

lemma spanOf?_eq_some {ts} {i j : Nat} {l} :
    spanOf? ts i j = some l ↔ ∃ a b, ts[i]? = some a ∧ ts[j]? = some b ∧ a.loc.through b.loc = l := by
  simp [spanOf?, Option.bind_eq_some_iff]

/-- Places of the same tokens correspond. -/
def Correspondence.layout (ts ts' : List (Located Token)) : Correspondence where
  place l l' := ∃ i j, spanOf? ts i j = some l ∧ spanOf? ts' i j = some l'
  token _ := True
  through := by
    rintro a a' b b' ⟨i, _, ha, ha'⟩ ⟨_, j, hb, hb'⟩
    simp only [spanOf?_eq_some] at ha ha' hb hb' ⊢
    obtain ⟨x, _, hx, _, rfl⟩ := ha
    obtain ⟨x', _, hx', _, rfl⟩ := ha'
    obtain ⟨_, y, _, hy, rfl⟩ := hb
    obtain ⟨_, y', _, hy', rfl⟩ := hb'
    exact ⟨i, j, ⟨x, y, hx, hy, rfl⟩, x', y', hx', hy', rfl⟩

section Layout

variable {ts ts' us us' : List (Located Token)} {t t' : Located Token} {k : Nat}

lemma place_layout (h : ts.drop k = t :: us) (h' : ts'.drop k = t' :: us') :
    (Correspondence.layout ts ts').place t.loc t'.loc := by
  have hself {ts us : List (Located Token)} {t : Located Token} (h : ts.drop k = t :: us) :
      spanOf? ts k k = some t.loc := by
    have ht : ts[k]? = some t := by rw [← head?_drop, h, head?_cons]
    exact spanOf?_eq_some.mpr ⟨t, t, ht, ht, rfl⟩
  exact ⟨k, k, hself h, hself h'⟩

lemma twin_layout (h : ts.drop k = t :: us) (h' : ts'.drop k = t' :: us')
    (hvalues : us.map (·.value) = us'.map (·.value)) (hlines : continued (t :: us) = continued (t' :: us'))
    (hone : ∀ x ∈ ts, x.loc.stop.line = x.loc.line) (hone' : ∀ x ∈ ts', x.loc.stop.line = x.loc.line) :
    Cursor.Twin (.layout ts ts') ⟨us, t.loc⟩ ⟨us', t'.loc⟩ := by
  induction us generalizing us' t t' k with
  | nil =>
    cases us' with
    | nil => exact .nil (place_layout h h')
    | cons u' us' => cases hvalues
  | cons u us ih =>
    cases us' with
    | nil => cases hvalues
    | cons u' us' =>
      obtain ⟨v, m⟩ := u
      obtain ⟨v', m'⟩ := u'
      obtain ⟨hv, hvs⟩ := List.cons.inj hvalues
      obtain rfl : v = v' := hv
      obtain ⟨hbreak, hlines⟩ := List.cons.inj hlines
      refine .cons (place_layout h h') trivial ?_ (ih (k := k + 1) ?_ ?_ hvs hlines)
      · rw [hone t (mem_of_mem_drop (h ▸ mem_cons_self)),
          hone' t' (mem_of_mem_drop (h' ▸ mem_cons_self))]
        exact decide_eq_decide.mp hbreak
      · rw [← tail_drop, h, tail_cons]
      · rw [← tail_drop, h', tail_cons]

end Layout

lemma SourceText.line_of_tokenize {text name} {ts}
    (h : (ofString text name).tokenize = .ok ts) : ∀ x ∈ ts, x.loc.stop.line = x.loc.line := by
  have hend : ∀ c ∈ (ofString text name).chars.getLast?, c = '\n' := by simp [ofString]
  obtain ⟨_, pieces, _, _, hfits, rfl⟩ := scan_split hend (tokenize_eq_ok_iff.mp h)
  intro x hx
  obtain ⟨y, hy, rfl⟩ := mem_map.mp hx
  exact (hfits y hy).line_eq.symm

namespace Program

variable {ts ts' : List (Located Token)}

lemma ofTokens_layout (name : String) (start start' : Location) (hvalues : ts.map (·.value) = ts'.map (·.value))
    (hlines : continued ts = continued ts') (hone : ∀ x ∈ ts, x.loc.stop.line = x.loc.line)
    (hone' : ∀ x ∈ ts', x.loc.stop.line = x.loc.line) :
    (∃ p p', ofTokens ts name start = .ok p ∧ ofTokens ts' name start' = .ok p' ∧ p.Twin (.layout ts ts') p') ∨
      ∃ e l l' i j, ofTokens ts name start = .error ⟨e, l⟩ ∧ ofTokens ts' name start' = .error ⟨e, l'⟩ ∧
        spanOf? ts i j = some l ∧ spanOf? ts' i j = some l' := by
  cases ts with
  | nil =>
    cases ts' with
    | nil => exact .inl ⟨⟨name, none, []⟩, ⟨name, none, []⟩, rfl, rfl, rfl, .none, .nil⟩
    | cons t' us' => cases hvalues
  | cons t us =>
    cases ts' with
    | nil => cases hvalues
    | cons t' us' =>
      obtain ⟨v, l⟩ := t
      obtain ⟨v', l'⟩ := t'
      obtain ⟨hv, hvs⟩ := List.cons.inj hvalues
      obtain rfl : v = v' := hv
      have hforget (t : Located Token) (us : List (Located Token)) (start : Location) :
          ofTokens (t :: us) name start = ofTokens (t :: us) name t.loc := by
        unfold ofTokens
        rw [Grammar.forgets_program _ name t us start t.loc]
      rw [hforget _ us start, hforget _ us' start']
      have hline : l.line = l.stop.line ↔ l'.line = l'.stop.line :=
        iff_of_true (hone _ mem_cons_self).symm (hone' _ mem_cons_self).symm
      have htwin : Cursor.Twin (.layout (⟨v, l⟩ :: us) (⟨v, l'⟩ :: us')) ⟨us, l⟩ ⟨us', l'⟩ :=
        twin_layout (k := 0) rfl rfl hvs hlines hone hone'
      rcases ofTokens_twins (.cons htwin.last trivial hline htwin) with
        ⟨p, p', hp, hp', h, -⟩ | ⟨e, m, m', he, he', i, j, h⟩
      · exact .inl ⟨p, p', hp, hp', h⟩
      · exact .inr ⟨e, m, m', i, j, he, he', h⟩

/-- Indentation, comments, empty lines and spaces play no part: the same tokens with the same line breaks between
neighbours give trees that differ in their places alone, or the same error at the same tokens. -/
theorem read_by_line_breaks (name : String) (hvalues : ts.map (·.value) = ts'.map (·.value))
    (hlines : continued ts = continued ts') :
    (∀ start start', (∀ x ∈ ts, x.loc.stop.line = x.loc.line) → (∀ x ∈ ts', x.loc.stop.line = x.loc.line) →
      (∃ p p', ofTokens ts name start = .ok p ∧ ofTokens ts' name start' = .ok p' ∧ p.Twin (.layout ts ts') p') ∨
        ∃ e l l' i j, ofTokens ts name start = .error ⟨e, l⟩ ∧ ofTokens ts' name start' = .error ⟨e, l'⟩ ∧
          spanOf? ts i j = some l ∧ spanOf? ts' i j = some l') ∧
    ∀ text text', (SourceText.ofString text name).tokenize = .ok ts →
      (SourceText.ofString text' name).tokenize = .ok ts' →
      (∃ p p', ofText name text = .ok p ∧ ofText name text' = .ok p' ∧ p.Twin (.layout ts ts') p') ∨
        ∃ r r', ofText name text = .error r ∧ ofText name text' = .error r' := by
  refine ⟨fun start start' hone hone' => ofTokens_layout name start start' hvalues hlines hone hone', ?_⟩
  intro text text' h h'
  unfold ofText
  simp only [h, h']
  rcases ofTokens_layout name (SourceText.ofString text name).start (SourceText.ofString text' name).start hvalues
    hlines (SourceText.line_of_tokenize h) (SourceText.line_of_tokenize h') with
    ⟨p, p', hp, hp', htwin⟩ | ⟨e, l, l', i, j, he, he', -⟩
  · rw [hp, hp']
    exact .inl ⟨p, p', rfl, rfl, htwin⟩
  · rw [he, he']
    exact .inr ⟨_, _, rfl, rfl⟩

end Program

namespace Sample

def narrow : String := "fn f() \x7b\ng(1)\n-x\n\x7d"

def wide : String := "# f\n\nfn f ( ) \x7b\n\n    g( 1 )\t# call\n  - x\n\n\x7d\n"

def tokensOf (text : String) : List (Located Token) :=
  match (SourceText.ofString text "main").tokenize with
  | .ok ts => ts
  | .error _ => []

lemma tokenize_eq_tokensOf {text} (h : (SourceText.ofString text "main").tokenize.isOk) :
    (SourceText.ofString text "main").tokenize = .ok (tokensOf text) := by
  unfold tokensOf
  cases ht : (SourceText.ofString text "main").tokenize with
  | ok ts => rfl
  | error errors => simp [ht, Except.isOk, Except.toBool] at h

theorem wide_read_alike :
    (tokensOf narrow).map (·.value) = (tokensOf wide).map (·.value) ∧
    continued (tokensOf narrow) = continued (tokensOf wide) ∧
    ∃ p p', Program.ofText "main" narrow = .ok p ∧ Program.ofText "main" wide = .ok p' ∧
      p.Twin (.layout (tokensOf narrow) (tokensOf wide)) p' := by
  have hvalues : (tokensOf narrow).map (·.value) = (tokensOf wide).map (·.value) := rfl
  have hlines : continued (tokensOf narrow) = continued (tokensOf wide) := by decide +kernel
  refine ⟨hvalues, hlines, ?_⟩
  have hread := (Program.read_by_line_breaks "main" hvalues hlines).2 narrow wide
    (tokenize_eq_tokensOf (by decide +kernel)) (tokenize_eq_tokensOf (by decide +kernel))
  rcases hread with h | ⟨r, r', h, -⟩
  · exact h
  · have hok : (Program.ofText "main" narrow).isOk := by decide +kernel
    rw [h] at hok
    cases hok

end Sample

end SketchCompiler
