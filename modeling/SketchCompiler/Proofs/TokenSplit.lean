import SketchCompiler.Proofs.Spelling

namespace SketchCompiler

open List

variable {v : Token} {p : Position} {cs : List Char}

/-- Blanks, and comments up to the end of their line. -/
inductive Trivia : List Char → Prop
  | nil : Trivia []
  | blank {c cs} (hc : isBlank c) (h : Trivia cs) : Trivia (c :: cs)
  | comment {body cs} (hb : '\n' ∉ body) (h : Trivia ('\n' :: cs)) : Trivia ('#' :: body ++ '\n' :: cs)

namespace Position

/-- The order in a text. -/
instance : LE Position := ⟨fun p q => p.line < q.line ∨ p.line = q.line ∧ p.column ≤ q.column⟩

lemma le_def {q : Position} : p ≤ q ↔ p.line < q.line ∨ p.line = q.line ∧ p.column ≤ q.column := Iff.rfl

lemma le_refl (p : Position) : p ≤ p := .inr ⟨rfl, le_rfl⟩

lemma le_trans {q r} (h : p ≤ q) (h' : q ≤ r) : p ≤ r := by
  rw [le_def] at *
  omega

lemma next_le_after (p : Position) (c : Char) : p.next ≤ p.after c := by
  unfold after
  split_ifs
  · exact .inl (Nat.lt_succ_self _)
  · refine .inr ⟨rfl, ?_⟩
    have : p.column - 1 < ((p.column - 1) / tabStop + 1) * tabStop := by
      unfold tabStop
      omega
    simp only [next]
    omega
  · exact le_refl _

lemma le_next (p : Position) : p ≤ p.next := .inr ⟨rfl, Nat.le_succ _⟩

lemma line_afterAll (p : Position) (cs : List Char) : (p.afterAll cs).line = p.line + cs.count '\n' := by
  induction cs generalizing p with
  | nil => rfl
  | cons c cs ih =>
    rw [afterAll_cons, ih]
    unfold after
    by_cases hc : c = '\n'
    · simp [hc]
      omega
    · rw [if_neg hc, count_cons_of_ne hc]
      split_ifs <;> rfl

lemma line_afterAll_of_not_mem (h : '\n' ∉ cs) : (p.afterAll cs).line = p.line := by
  rw [line_afterAll, count_eq_zero_of_not_mem h, Nat.add_zero]

end Position

namespace SourceText

variable {lexeme rest : List Char} {c : Char}

lemma place_append (p : Position) (cs ds : List Char) :
    place p (cs ++ ds) = place p cs ++ place (p.afterAll cs) ds := by
  induction cs generalizing p with
  | nil => rfl
  | cons c cs ih => rw [cons_append, place, ih, place, cons_append, Position.afterAll_cons]

@[simp]
lemma map_fst_place (p : Position) (cs : List Char) : (place p cs).map (·.1) = cs := by
  induction cs generalizing p with
  | nil => rfl
  | cons c cs ih => rw [place, map_cons, ih]

lemma le_of_mem_place {x : Char × Position} (h : x ∈ place p cs) : p ≤ x.2 := by
  induction cs generalizing p with
  | nil => cases h
  | cons c cs ih =>
    rcases mem_cons.mp h with rfl | h
    · exact Position.le_refl p
    · exact Position.le_trans (Position.le_trans p.le_next (p.next_le_after c)) (ih h)

lemma pairwise_place (p : Position) (cs : List Char) : (place p cs).Pairwise fun x y => x.2.next ≤ y.2 := by
  induction cs generalizing p with
  | nil => exact .nil
  | cons c cs ih =>
    refine .cons (fun y hy => ?_) (ih _)
    exact Position.le_trans (p.next_le_after c) (le_of_mem_place hy)

lemma getLast?_place (p : Position) (h : cs ≠ []) : ∃ c, (place p cs).getLast? = some (c, p.afterAll cs.dropLast) := by
  obtain ⟨ds, c, rfl⟩ := eq_nil_or_concat cs |>.resolve_left h
  refine ⟨c, ?_⟩
  rw [concat_eq_append, place_append, dropLast_concat]
  simp [place]

lemma eq_map_ok_of_no_error {l : List Scanned} (h : (l.filterMap fun | .error e => some e | .ok _ => none) = []) :
    l = (l.filterMap fun | .ok token => some token | .error _ => none).map .ok := by
  induction l with
  | nil => rfl
  | cons x l ih =>
    cases x with
    | error e => simp at h
    | ok token =>
      rw [filterMap_cons_none rfl] at h
      exact congrArg (.ok token :: ·) (ih h)

lemma tokenize_eq_ok_iff {t : SourceText} {tokens : List (Located Token)} :
    t.tokenize = .ok tokens ↔ t.scanned = tokens.map .ok := by
  constructor
  · intro h
    simp only [tokenize] at h
    split at h
    · rename_i herrors
      cases h
      exact eq_map_ok_of_no_error herrors
    · cases h
  · intro h
    have herrors : tokens.filterMap (fun _ => (none : Option (Located LexError))) = [] := by
      simp
    simp only [tokenize, h, filterMap_map, Function.comp_def, herrors, filterMap_some]

variable {t : SourceText} {afterLoad : Bool}

lemma scan_skip (n : Nat) (cs : List Char) :
    t.scan n afterLoad p cs = t.scan 0 afterLoad (p.afterAll (cs.take n)) (cs.drop n) := by
  induction cs generalizing n p with
  | nil => cases n <;> rfl
  | cons c cs ih =>
    cases n with
    | zero => rfl
    | succ n => rw [scan, ih, take_succ_cons, drop_succ_cons, Position.afterAll_cons]

lemma scan_behind (h : c :: cs = lexeme ++ rest) (hne : lexeme ≠ []) :
    t.scan (lexeme.length - 1) afterLoad (p.after c) cs = t.scan 0 afterLoad (p.afterAll lexeme) rest := by
  obtain ⟨d, ds, rfl⟩ := exists_cons_of_ne_nil hne
  obtain ⟨rfl, rfl⟩ := List.cons.inj h
  rw [scan_skip]
  simp

lemma scan_blank (h : c :: cs = lexeme ++ rest) (hne : lexeme ≠ [])
    (hr : Lexeme.read afterLoad c cs = .blank lexeme.length) :
    t.scan 0 afterLoad p (c :: cs) = t.scan 0 afterLoad (p.afterAll lexeme) rest := by
  rw [scan]
  simp only [hr]
  exact scan_behind h hne

lemma scan_blank_one (hr : Lexeme.read afterLoad c cs = .blank 1) :
    t.scan 0 afterLoad p (c :: cs) = t.scan 0 afterLoad (p.after c) cs :=
  scan_blank (singleton_append (x := c) (l := cs)).symm (cons_ne_nil c []) hr

lemma scan_token (h : c :: cs = lexeme ++ rest) (hne : lexeme ≠ [])
    (hr : Lexeme.read afterLoad c cs = .token v lexeme.length) :
    t.scan 0 afterLoad p (c :: cs) = .ok ⟨v, t.location p (p.afterAll lexeme.dropLast).next⟩ ::
      t.scan 0 (v.isKeyword .loadKw) (p.afterAll lexeme) rest := by
  have htake : (c :: cs).take (lexeme.length - 1) = lexeme.dropLast := by
    rw [h, take_append_of_le_length (Nat.sub_le _ _), dropLast_eq_take]
  rw [scan]
  simp only [hr, htake]
  rw [scan_behind h hne]

end SourceText

namespace Lexeme

variable {afterLoad : Bool} {c : Char} {w : Nat}

lemma string_ne_blank (n : Nat) (body : List Char) : string n body cs ≠ blank w := by
  fun_induction string n body cs with
  | case5 _ _ _ _ _ _ ih => exact ih
  | case7 _ _ _ _ _ _ _ _ ih => exact ih
  | _ =>
    intro h
    cases h

lemma withUnit_ne_blank (value : Except LexError Number) (n : Nat) : withUnit value n cs ≠ blank w := by
  cases value <;> exact nofun

lemma number_ne_blank : number cs ≠ blank w := by
  unfold number
  split
  · exact withUnit_ne_blank _ _
  · dsimp only
    split
    · exact withUnit_ne_blank _ _
    · exact withUnit_ne_blank _ _

lemma read_eq_blank (h : read afterLoad c cs = blank w) :
    (isBlank c ∧ w = 1) ∨ (c = '#' ∧ w = 1 + (cs.takeWhile (· ≠ '\n')).length) := by
  unfold read at h
  by_cases hload : afterLoad && c = '<'
  · rw [if_pos hload] at h
    simp only [path] at h
    split at h <;> cases h
  rw [if_neg hload] at h
  cases hp : Punct.longest? (c :: cs) with
  | some p => simp [hp] at h
  | none =>
    simp only [hp] at h
    split_ifs at h with hat hhash hquote hword hdigit hblank
    · simp only [directive] at h
      split_ifs at h
    · cases h
      exact .inr ⟨hhash, rfl⟩
    · exact absurd h (string_ne_blank _ _)
    · exact absurd h number_ne_blank
    · cases h
      exact .inl ⟨hblank, rfl⟩

lemma read_newline (afterLoad : Bool) (cs : List Char) : read afterLoad '\n' cs = blank 1 := by
  cases afterLoad <;> rfl

end Lexeme

lemma newline_not_mem_suffixChars (unit : Option PhysicalUnit) : '\n' ∉ suffixChars unit := by
  cases unit with
  | none => exact not_mem_nil
  | some u => cases u <;> decide

lemma Unescapes.newline_not_mem {body value} (h : Unescapes body value) : '\n' ∉ body := by
  induction h with
  | nil => exact not_mem_nil
  | plain _ _ hn _ ih => simp [Ne.symm hn, ih]
  | @escape c e body value he _ ih =>
    have hc : c ≠ '\n' := by
      rintro rfl
      cases he
    simp [Ne.symm hc, ih]

namespace Token.Spells

variable {lexeme : List Char}

lemma ne_nil (h : v.Spells lexeme) : lexeme ≠ [] := by
  cases h with
  | id hw =>
    obtain ⟨c, r, rfl, -⟩ := hw
    exact cons_ne_nil c r
  | keyword k => cases k <;> decide
  | decimal unit hd => simp [hd.1]
  | float unit hw => simp [hw.1]
  | punct p => cases p <;> decide
  | _ => simp

lemma newline_not_mem (h : v.Spells lexeme) : '\n' ∉ lexeme := by
  cases h with
  | id hw =>
    obtain ⟨c, r, rfl, hc, hr⟩ := hw
    exact not_mem_of_isRun ⟨cons_ne_nil c r, by
      simpa using ⟨isWordChar_of_isWordStart hc, hr⟩⟩ (by decide)
  | keyword k => cases k <;> decide
  | decimal unit hd => simp [not_mem_of_isRun hd (c := '\n') (by decide), newline_not_mem_suffixChars]
  | hexadecimal unit hx hd =>
    rcases hx with rfl | rfl <;>
      simp [not_mem_of_isRun hd (c := '\n') (by decide), newline_not_mem_suffixChars]
  | float unit hw hf =>
    simp [not_mem_of_isRun hw (c := '\n') (by decide), not_mem_of_isRun hf (c := '\n') (by decide),
      newline_not_mem_suffixChars]
  | str h => simp [h.newline_not_mem]
  | @path left value right hl hr ht hb =>
    intro h
    have hmem : '\n' ∈ left ++ value ++ right := by simpa using h
    exact (hb _ hmem).2 rfl
  | mainDirective => decide
  | directive hn => simp [not_mem_of_isRun hn (c := '\n') (by decide)]
  | punct p => cases p <;> decide

end Token.Spells

/-- A token, the characters that spell it, and the blanks and comments behind it, with their positions. -/
structure Piece where
  token : Located Token
  lexeme : List (Char × Position)
  trivia : List (Char × Position)

namespace Piece

def places (x : Piece) : List (Char × Position) := x.lexeme ++ x.trivia

/-- The location begins with the first character of the lexeme, and ends behind the last one. -/
structure Fits (t : SourceText) (x : Piece) : Prop where
  spells : x.token.value.Spells (x.lexeme.map (·.1))
  lexeme_ne_nil : x.lexeme ≠ []
  newline_not_mem : '\n' ∉ x.lexeme.map (·.1)
  trivia : Trivia (x.trivia.map (·.1))
  loc_eq : ∃ a z, x.lexeme.head? = some a ∧ x.lexeme.getLast? = some z ∧ x.token.loc = t.location a.2 z.2.next
  line_eq : x.token.loc.start.line = x.token.loc.stop.line

end Piece

namespace SourceText

variable {t : SourceText}

lemma fits_place {lexeme : List Char} {trivia : List (Char × Position)} (p : Position)
    (hv : v.Spells lexeme) (ht : Trivia (trivia.map (·.1))) :
    Piece.Fits t ⟨⟨v, t.location p (p.afterAll lexeme.dropLast).next⟩, place p lexeme, trivia⟩ := by
  obtain ⟨z, hz⟩ := getLast?_place p hv.ne_nil
  obtain ⟨c, cs, rfl⟩ := exists_cons_of_ne_nil hv.ne_nil
  have hline : ((p.afterAll (c :: cs).dropLast)).line = p.line :=
    Position.line_afterAll_of_not_mem fun h => hv.newline_not_mem ((dropLast_sublist _).subset h)
  exact ⟨by simpa using hv, by simp [place], by simpa using hv.newline_not_mem, ht,
    ⟨(c, p), _, rfl, hz, rfl⟩, hline.symm⟩

lemma split_comment (hend : ∀ c ∈ ('#' :: cs).getLast?, c = '\n') :
    ∃ rest, cs = cs.takeWhile (· ≠ '\n') ++ '\n' :: rest := by
  have hcs : cs.takeWhile (· ≠ '\n') ++ cs.dropWhile (· ≠ '\n') = cs := takeWhile_append_dropWhile
  have hhead := head?_dropWhile_not (· ≠ '\n') cs
  cases hd : cs.dropWhile (· ≠ '\n') with
  | nil =>
    -- Without an end of line the last character would be one of the comment.
    rw [dropWhile_eq_nil_iff] at hd
    cases hl : cs.getLast? with
    | none =>
      rw [getLast?_eq_none_iff] at hl
      subst hl
      simp at hend
    | some c =>
      have hc : c = '\n' := hend c (by rw [getLast?_cons, hl]; rfl)
      simpa [hc] using hd c (mem_of_getLast? hl)
  | cons c rest =>
    rw [hd] at hcs hhead
    obtain rfl : c = '\n' := by simpa using hhead
    exact ⟨rest, hcs.symm⟩

lemma scan_split {afterLoad : Bool} {p} {cs : List Char} {tokens : List (Located Token)}
    (hend : ∀ c ∈ cs.getLast?, c = '\n') (h : t.scan 0 afterLoad p cs = tokens.map .ok) :
    ∃ (first : List (Char × Position)) (pieces : List Piece),
      place p cs = first ++ pieces.flatMap Piece.places ∧ Trivia (first.map (·.1)) ∧
      (∀ x ∈ pieces, x.Fits t) ∧ pieces.map (·.token) = tokens := by
  -- A rest of the text ends as the text does.
  have hrest (ds : List Char) {rest : List Char} (he : cs = ds ++ rest) : ∀ c ∈ rest.getLast?, c = '\n' := by
    intro c hc
    refine hend c ?_
    rw [he, getLast?_append, Option.mem_def.mp hc]
    rfl
  cases cs with
  | nil =>
    cases tokens with
    | nil => exact ⟨[], [], rfl, .nil, by simp, rfl⟩
    | cons a tokens => cases h
  | cons c cs =>
    cases hr : Lexeme.read afterLoad c cs with
    | bad error offset =>
      rw [scan] at h
      simp only [hr] at h
      cases tokens <;> cases h
    | blank w =>
      rcases Lexeme.read_eq_blank hr with ⟨hc, rfl⟩ | ⟨rfl, rfl⟩
      · rw [scan_blank_one hr] at h
        obtain ⟨first, pieces, hplace, htrivia, hfits, htokens⟩ := scan_split (hrest [c] rfl) h
        exact ⟨(c, p) :: first, pieces, by simpa [place] using hplace, .blank hc htrivia, hfits, htokens⟩
      · obtain ⟨rest, hcs⟩ := split_comment hend
        let body := cs.takeWhile (· ≠ '\n')
        have hbody : '\n' ∉ body := fun hm => by simpa using mem_takeWhile_imp hm
        have hlexeme : '#' :: cs = ('#' :: body) ++ '\n' :: rest := by rw [cons_append, ← hcs]
        have hlen : rest.length < ('#' :: cs).length := by
          rw [hlexeme]
          simp
          omega
        have hr' : Lexeme.read afterLoad '#' cs = .blank ('#' :: body).length := by
          rw [hr, length_cons, Nat.add_comm]
        rw [scan_blank hlexeme (by simp) hr', scan_blank_one (Lexeme.read_newline _ _)] at h
        have htext : '#' :: cs = ('#' :: body ++ ['\n']) ++ rest := by simp [hlexeme]
        obtain ⟨first, pieces, hplace, htrivia, hfits, htokens⟩ := scan_split (hrest _ htext) h
        refine ⟨place p ('#' :: body ++ ['\n']) ++ first, pieces, ?_, ?_, hfits, htokens⟩
        · rw [htext, place_append, Position.afterAll_append, append_assoc]
          exact congrArg (place p _ ++ ·) hplace
        · rw [map_append, map_fst_place, append_assoc]
          exact .comment hbody (.blank (by decide) htrivia)
    | token v w =>
      obtain ⟨lexeme, rest, hcs, rfl, hv⟩ := Lexeme.read_eq_token hr
      rw [scan_token hcs hv.ne_nil hr] at h
      cases tokens with
      | nil => cases h
      | cons a tokens =>
        obtain ⟨⟨⟩, htail⟩ := List.cons.inj h
        have hlen : rest.length < (c :: cs).length := by
          have := length_pos_iff.mpr hv.ne_nil
          simp [hcs]
          omega
        obtain ⟨first, pieces, hplace, htrivia, hfits, rfl⟩ := scan_split (hrest _ hcs) htail
        refine ⟨[], ⟨_, place p lexeme, first⟩ :: pieces, ?_, .nil, ?_, rfl⟩
        · rw [hcs, place_append, hplace]
          simp [Piece.places]
        · exact forall_mem_cons.mpr ⟨fits_place p hv htrivia, hfits⟩
termination_by cs.length

lemma pairwise_pieces {pieces : List Piece} (hfits : ∀ x ∈ pieces, x.Fits t)
    (h : (pieces.flatMap Piece.places).Pairwise fun x y => x.2.next ≤ y.2) :
    (pieces.map (·.token)).Pairwise fun a b => a.loc.stop ≤ b.loc.start := by
  rw [pairwise_map]
  refine (pairwise_flatMap.mp h).2.imp_of_mem fun {x y} hx hy hxy => ?_
  obtain ⟨_, z, _, hz, hxloc⟩ := (hfits x hx).loc_eq
  obtain ⟨a, _, ha, _, hyloc⟩ := (hfits y hy).loc_eq
  rw [hxloc, hyloc]
  exact hxy z (mem_append_left _ (mem_of_getLast? hz)) a (mem_append_left _ (mem_of_head? ha))

/-- The characters of an accepted text are those of its tokens, with blanks and comments around them. Each token is
spelled by its characters and located at them, and stands on one line behind the tokens before it. -/
theorem tokenize_splits_text (text name : String) {tokens : List (Located Token)}
    (h : (ofString text name).tokenize = .ok tokens) :
    ∃ (first : List (Char × Position)) (pieces : List Piece),
      (ofString text name).positions = first ++ pieces.flatMap Piece.places ∧
      pieces.map (·.token) = tokens ∧ Trivia (first.map (·.1)) ∧ (∀ x ∈ pieces, x.Fits (ofString text name)) ∧
      tokens.Pairwise fun a b => a.loc.stop ≤ b.loc.start := by
  have hend : ∀ c ∈ (ofString text name).chars.getLast?, c = '\n' := by simp [ofString]
  obtain ⟨first, pieces, hplace, htrivia, hfits, rfl⟩ := scan_split hend (tokenize_eq_ok_iff.mp h)
  refine ⟨first, pieces, hplace, rfl, htrivia, hfits, pairwise_pieces hfits ?_⟩
  have hall : (ofString text name).positions.Pairwise fun x y => x.2.next ≤ y.2 := pairwise_place _ _
  rw [positions, hplace, pairwise_append] at hall
  exact hall.2.1

end SourceText

namespace Sample

def loading : SourceText := .ofString "load < lib >\t# 1\n\"a\\n\" 0x1Fms" "main"

def loadingTokens : List (Located Token) := [
  ⟨.keyword .loadKw, loading.location ⟨1, 1⟩ ⟨1, 5⟩⟩,
  ⟨.path "lib", loading.location ⟨1, 6⟩ ⟨1, 13⟩⟩,
  ⟨.str "a\n", loading.location ⟨2, 1⟩ ⟨2, 6⟩⟩,
  ⟨.number (.int 31) (some .milliseconds), loading.location ⟨2, 7⟩ ⟨2, 13⟩⟩]

theorem loading_splits : loading.tokenize = .ok loadingTokens ∧
    ∃ (first : List (Char × Position)) (pieces : List Piece),
      loading.positions = first ++ pieces.flatMap Piece.places ∧ pieces.map (·.token) = loadingTokens ∧
      Trivia (first.map (·.1)) ∧ (∀ x ∈ pieces, x.Fits loading) ∧
      loadingTokens.Pairwise fun a b => a.loc.stop ≤ b.loc.start := by
  have h : loading.tokenize = .ok loadingTokens := by rfl
  exact ⟨h, SourceText.tokenize_splits_text _ _ h⟩

end Sample

end SketchCompiler
