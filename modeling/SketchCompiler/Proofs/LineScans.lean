import SketchCompiler.Proofs.TokenRoundTrip

namespace SketchCompiler

open List

variable {n : Nat} {cs : List Char} (t : SourceText)

lemma takeWhile_line (kind : Char → Bool) (h : kind '\n' = false) (cs ds : List Char) :
    (cs ++ '\n' :: ds).takeWhile kind = cs.takeWhile kind := by
  induction cs with
  | nil => simp [h]
  | cons c cs ih => simp [takeWhile_cons, ih]

lemma drop_line (ds : List Char) (h : n ≤ cs.length) : (cs ++ '\n' :: ds).drop n = cs.drop n ++ '\n' :: ds :=
  drop_append_of_le_length h

lemma prefix_line {xs} (h : '\n' ∉ xs) (cs ds : List Char) : xs <+: cs ++ '\n' :: ds ↔ xs <+: cs := by
  induction xs generalizing cs with
  | nil => simp
  | cons x xs ih =>
    rw [mem_cons, not_or] at h
    cases cs with
    | nil => simp [Ne.symm h.1]
    | cons c cs => simp [cons_prefix_cons, ih h.2]

lemma Punct.newline_not_mem_chars (p : Punct) : '\n' ∉ p.chars := by
  cases p <;> decide

lemma Punct.longest?_line (cs ds : List Char) : longest? (cs ++ '\n' :: ds) = longest? cs := by
  have hprefix (p : Punct) : p.chars.isPrefixOf (cs ++ '\n' :: ds) = p.chars.isPrefixOf cs := by
    rw [Bool.eq_iff_iff, isPrefixOf_iff_prefix, isPrefixOf_iff_prefix, prefix_line p.newline_not_mem_chars]
  simp only [longest?, hprefix]

namespace Lexeme

variable {e : LexError} {c : Char}

lemma path_line (cs ds : List Char) : path (cs ++ '\n' :: ds) = path cs := by
  have hle := IsPrefix.length_le <| takeWhile_prefix (l := cs) fun c => c ≠ '>' && c ≠ '\n'
  simp only [path, takeWhile_line (fun c => c ≠ '>' && c ≠ '\n') (by decide), drop_line ds hle]
  cases cs.drop (cs.takeWhile fun c => c ≠ '>' && c ≠ '\n').length with
  | nil => rfl
  | cons x xs =>
    by_cases hx : x = '>'
    · subst hx
      rfl
    · simp [hx]

lemma directive_line (cs ds : List Char) : directive (cs ++ '\n' :: ds) = directive cs := by
  simp only [directive, takeWhile_line isWordChar (by decide)]

lemma withUnit_line (value : Except LexError Number) (n : Nat) (cs ds : List Char) :
    withUnit value n (cs ++ '\n' :: ds) = withUnit value n cs := by
  have hunit : unitAt? (cs ++ '\n' :: ds) = unitAt? cs := by
    cases cs with
    | nil => rfl
    | cons c cs =>
      simp only [unitAt?, takeWhile_line isWordChar (by decide)]
      rfl
  simp only [withUnit, hunit]

lemma hexDigits?_line (cs ds : List Char) : hexDigits? (cs ++ '\n' :: ds) = hexDigits? cs := by
  rcases cs with _ | ⟨c, _ | ⟨x, cs⟩⟩
  · rfl
  · by_cases hc : c = '0'
    · subst hc
      rfl
    · simp [hexDigits?, hc]
  · by_cases hc : c = '0'
    · subst hc
      simp only [cons_append, hexDigits?, takeWhile_line isHexDigit (by decide)]
    · simp [hexDigits?, hc]

lemma fraction?_line (cs ds : List Char) : fraction? (cs ++ '\n' :: ds) = fraction? cs := by
  rcases cs with _ | ⟨c, cs⟩
  · rfl
  · by_cases hc : c = '.'
    · subst hc
      simp only [cons_append, fraction?, takeWhile_line Char.isDigit (by decide)]
    · simp [fraction?, hc]

lemma number_line (cs ds : List Char) : number (cs ++ '\n' :: ds) = number cs := by
  unfold number
  rw [hexDigits?_line]
  cases hx : hexDigits? cs with
  | some digits =>
    obtain ⟨x, rest, rfl, -⟩ := hexDigits?_eq_some hx
    dsimp only
    rw [drop_line ds (by simp; omega), withUnit_line]
  | none =>
    have hle := IsPrefix.length_le <| takeWhile_prefix (l := cs) Char.isDigit
    dsimp only
    rw [takeWhile_line _ (by decide), drop_line ds hle, fraction?_line]
    cases hf : fraction? (cs.drop (cs.takeWhile Char.isDigit).length) with
    | some digits =>
      obtain ⟨rest, hrest, -⟩ := fraction?_eq_some hf
      have hlen := congrArg List.length hrest
      simp only [length_drop, length_append, length_cons] at hlen
      dsimp only
      rw [drop_line ds (by omega), withUnit_line]
    | none => exact withUnit_line _ _ _ _

lemma string_line (n : Nat) (body cs ds ds' : List Char) :
    string n body (cs ++ '\n' :: ds) = string n body (cs ++ '\n' :: ds') := by
  fun_induction string n body cs with
  | case1 | case2 | case3 | case4 => rfl
  | case5 n body c cs e he ih => simpa only [cons_append, string_escape he] using ih
  | case6 n body c cs he => simp [string, he]
  | case7 n body c cs hq hn hs hs' ih =>
    have hc : c ≠ '\\' := by
      rintro rfl
      cases cs with
      | nil => exact hs rfl rfl
      | cons x xs => exact hs' _ _ rfl rfl
    simpa only [cons_append, string_plain hq hc hn] using ih

lemma read_line (afterLoad : Bool) (c : Char) (cs ds ds' : List Char) :
    read afterLoad c (cs ++ '\n' :: ds) = read afterLoad c (cs ++ '\n' :: ds') := by
  have hcons (ds : List Char) : c :: (cs ++ '\n' :: ds) = c :: cs ++ '\n' :: ds := rfl
  simp only [read, hcons, path_line, Punct.longest?_line, directive_line, number_line,
    takeWhile_line (· ≠ '\n') (by decide), takeWhile_line isWordChar (by decide),
    string_line 1 [] cs ds ds']

lemma string_eq_bad {body} {m : Nat} (h : string m body cs = bad e n) : ∃ k, n = m + k ∧ '\n' ∉ cs.take k := by
  fun_induction string m body cs with
  | case1 | case3 =>
    cases h
    exact ⟨0, rfl, by simp⟩
  | case2 => cases h
  | case4 | case6 =>
    cases h
    exact ⟨1, rfl, by simp⟩
  | case5 m body c cs x hx ih =>
    obtain ⟨k, rfl, hk⟩ := ih h
    have hc : c ≠ '\n' := by
      rintro rfl
      cases hx
    exact ⟨k + 2, by omega, by simp [hk, Ne.symm hc]⟩
  | case7 m body c cs hq hn hs hs' ih =>
    obtain ⟨k, rfl, hk⟩ := ih h
    exact ⟨k + 1, by omega, by simpa [hk] using Ne.symm hn⟩

lemma number_eq_bad (hc : c.isDigit) (h : number (c :: cs) = bad e n) : '\n' ∉ (c :: cs).take n := by
  obtain ⟨value, digits, rest, hcs, hnumber, hline, -⟩ := number_eq_withUnit hc cs
  obtain ⟨rest', hrest⟩ := unitAt?_split rest
  rw [hnumber] at h
  cases value with
  | ok v => cases h
  | error e' =>
    simp only [withUnit, bad.injEq] at h
    have hlen : n = (digits ++ suffixChars (unitAt? rest)).length := by
      rw [← h.2]
      cases unitAt? rest <;> simp [suffixChars, String.length_toList]
    rw [hcs, hrest, ← append_assoc, hlen, take_left]
    simp [hline, newline_not_mem_suffixChars]

lemma read_eq_bad {afterLoad : Bool} (h : read afterLoad c cs = bad e n) : '\n' ∉ (c :: cs).take n := by
  unfold read at h
  by_cases hload : afterLoad && c = '<'
  · rw [if_pos hload] at h
    simp only [Bool.and_eq_true, decide_eq_true_eq] at hload
    simp only [path] at h
    split at h <;> cases h
    have hbody : cs.take (cs.takeWhile fun c => c ≠ '>' && c ≠ '\n').length =
        cs.takeWhile fun c => c ≠ '>' && c ≠ '\n' := (prefix_iff_eq_take.mp <| takeWhile_prefix _).symm
    rw [take_succ_cons, hbody, hload.2]
    simp only [mem_cons, not_or]
    exact ⟨by decide, fun hm => by simpa using mem_takeWhile_imp hm⟩
  rw [if_neg hload] at h
  cases hp : Punct.longest? (c :: cs) with
  | some p => simp [hp] at h
  | none =>
    simp only [hp] at h
    split_ifs at h with hat hhash hquote hword hdigit hblank
    · simp only [directive] at h
      split_ifs at h
      cases h
      simp [hat]
    · obtain ⟨k, rfl, hk⟩ := string_eq_bad h
      rw [Nat.add_comm, take_succ_cons, hquote]
      simpa using hk
    · exact number_eq_bad hdigit h
    · cases h
      simp

end Lexeme

namespace Position

/-- The position `k` lines further down. -/
def down (k : Nat) (p : Position) : Position := { p with line := p.line + k }

lemma after_down (k : Nat) (p : Position) (c : Char) : (p.down k).after c = (p.after c).down k := by
  unfold after
  split_ifs
  · simp [down, Nat.add_right_comm]
  · rfl
  · rfl

lemma afterAll_down (k : Nat) (p : Position) (cs : List Char) : (p.down k).afterAll cs = (p.afterAll cs).down k := by
  induction cs generalizing p with
  | nil => rfl
  | cons c cs ih => rw [afterAll_cons, after_down, ih, afterAll_cons]

end Position

/-- A value at the same place of another source, `k` lines further down. -/
def Located.down {α : Type} (source : Source) (k : Nat) (x : Located α) : Located α :=
  ⟨x.value, source, x.loc.start.down k, x.loc.stop.down k⟩

namespace SourceText

def scannedDown (source : Source) (k : Nat) : Scanned → Scanned
  | .ok x => .ok (x.down source k)
  | .error e => .error (e.down source k)

def scannedLine : Scanned → Nat
  | .ok x => x.loc.line
  | .error e => e.loc.line

/-- Behind it a `<` opens a path. -/
def opensPath : Scanned → Bool
  | .ok x => x.value.isKeyword .loadKw
  | .error _ => false

lemma scan_down (t t' : SourceText) (k n : Nat) (afterLoad : Bool) (p : Position) (cs : List Char) :
    t'.scan n afterLoad (p.down k) cs = (t.scan n afterLoad p cs).map (scannedDown t'.source k) := by
  induction cs generalizing n afterLoad p with
  | nil => rfl
  | cons c cs ih =>
    cases n with
    | succ n => rw [scan, scan, Position.after_down, ih]
    | zero =>
      simp only [scan, Position.after_down, Position.afterAll_down, ih]
      split <;> rfl

lemma getLast?_elim_cons {α β : Type} (f : α → β) (x : α) (xs : List α) (b : β) :
    (x :: xs).getLast?.elim b f = xs.getLast?.elim (f x) f := by
  rw [getLast?_cons]
  cases xs.getLast? <;> rfl

lemma scan_line (ds : List Char) (hn : n ≤ cs.length + 1) (afterLoad : Bool) (p : Position) :
    t.scan n afterLoad p (cs ++ '\n' :: ds) = t.scan n afterLoad p (cs ++ ['\n']) ++
      t.scan 0 ((t.scan n afterLoad p (cs ++ ['\n'])).getLast?.elim afterLoad opensPath)
        (p.afterAll (cs ++ ['\n'])) ds := by
  induction cs generalizing n afterLoad p with
  | nil =>
    obtain rfl | rfl : n = 0 ∨ n = 1 := by simpa using Nat.le_one_iff_eq_zero_or_eq_one.mp hn
    · rw [nil_append, nil_append, scan_blank_one (Lexeme.read_newline _ _),
        scan_blank_one (Lexeme.read_newline _ _)]
      rfl
    · rfl
  | cons c cs ih =>
    cases n with
    | succ n => exact ih (Nat.le_of_succ_le_succ hn) afterLoad (p.after c)
    | zero =>
      have hread := Lexeme.read_line afterLoad c cs ds []
      have hcons (ds : List Char) : c :: (cs ++ '\n' :: ds) = c :: cs ++ '\n' :: ds := rfl
      have htake {n : Nat} (hn : n ≤ cs.length + 1) (ds : List Char) :
          (c :: (cs ++ '\n' :: ds)).take n = (c :: cs).take n := by
        rw [hcons, take_append_of_le_length (by simpa using hn)]
      simp only [cons_append, scan, hread]
      cases hr : Lexeme.read afterLoad c (cs ++ ['\n']) with
      | blank w =>
        refine ih ?_ afterLoad (p.after c)
        rcases Lexeme.read_eq_blank hr with ⟨-, rfl⟩ | ⟨-, rfl⟩
        · simp
        · have := IsPrefix.length_le <| takeWhile_prefix (l := cs ++ ['\n']) (· ≠ '\n')
          simp at this ⊢
          omega
      | token v w =>
        have hw : w - 1 ≤ cs.length + 1 := by
          obtain ⟨lexeme, rest, hcs, rfl, -⟩ := Lexeme.read_eq_token hr
          have := congrArg List.length hcs
          simp at this
          omega
        simp only [htake hw, cons_append, getLast?_elim_cons]
        exact congrArg _ (ih hw _ (p.after c))
      | bad e n =>
        have hn : n ≤ cs.length + 1 := by
          by_contra hlt
          refine Lexeme.read_eq_bad hr ?_
          rw [take_of_length_le (by simp; omega)]
          simp
        have hline (ds : List Char) : ((c :: (cs ++ '\n' :: ds)).drop n).takeWhile (· ≠ '\n') =
            ((c :: cs).drop n).takeWhile (· ≠ '\n') := by
          rw [hcons, drop_line ds hn, takeWhile_line _ (by decide)]
        have hle : n + (((c :: cs).drop n).takeWhile (· ≠ '\n')).length ≤ cs.length + 1 := by
          have := IsPrefix.length_le <| takeWhile_prefix (l := (c :: cs).drop n) (· ≠ '\n')
          rw [length_drop, length_cons] at this
          omega
        simp only [htake hn, hline, cons_append, getLast?_elim_cons]
        exact congrArg _ (ih hle _ (p.after c))

lemma newline_or_end (cs : List Char) : cs.length ≤ (cs.takeWhile (· ≠ '\n')).length ∨
    cs[(cs.takeWhile (· ≠ '\n')).length]? = some '\n' := by
  induction cs with
  | nil => exact .inl (Nat.le_refl 0)
  | cons c cs ih =>
    by_cases hc : c = '\n'
    · simp [hc]
    · simpa [hc] using ih

lemma pairwise_scan (n : Nat) (afterLoad : Bool) (p : Position) (cs : List Char) :
    (t.scan n afterLoad p cs).Pairwise (fun x y => ∀ e, x = .error e → e.loc.line < scannedLine y) ∧
      ∀ x ∈ t.scan n afterLoad p cs, (p.afterAll (cs.take n)).line ≤ scannedLine x := by
  induction cs generalizing n afterLoad p with
  | nil => exact ⟨.nil, fun x hx => by cases hx⟩
  | cons c cs ih =>
    cases n with
    | succ n => exact ih n afterLoad (p.after c)
    | zero =>
      -- The rest is scanned from further on, so not before the line of `p`.
      have hrest (n : Nat) (afterLoad : Bool) (x : Scanned) (hx : x ∈ t.scan n afterLoad (p.after c) cs) :
          p.line + ((c :: cs).take (n + 1)).count '\n' ≤ scannedLine x := by
        rw [← Position.line_afterAll]
        exact (ih n afterLoad (p.after c)).2 x hx
      rw [scan, take_zero, Position.afterAll_nil]
      cases hr : Lexeme.read afterLoad c cs with
      | blank w => exact ⟨(ih _ _ _).1, fun x hx => (Nat.le_add_right _ _).trans (hrest _ _ x hx)⟩
      | token v w =>
        refine ⟨.cons (fun _ _ _ he => by cases he) (ih _ _ _).1, forall_mem_cons.mpr ⟨le_rfl, fun x hx => ?_⟩⟩
        exact (Nat.le_add_right _ _).trans (hrest _ _ x hx)
      | bad e n =>
        have hline : (p.afterAll ((c :: cs).take n)).line = p.line :=
          Position.line_afterAll_of_not_mem (Lexeme.read_eq_bad hr)
        refine ⟨.cons ?_ (ih _ _ _).1, forall_mem_cons.mpr ⟨hline.ge, fun x hx => ?_⟩⟩
        · rintro x hx _ ⟨⟩
          change (p.afterAll _).line < _
          have hend := newline_or_end ((c :: cs).drop n)
          rw [length_drop, getElem?_drop] at hend
          generalize (((c :: cs).drop n).takeWhile (· ≠ '\n')).length = m at hx hend
          rcases hend with hend | hnewline
          · have hnil : cs.drop (n + m) = [] := drop_eq_nil_of_le (by simp at hend; omega)
            rw [scan_skip, hnil] at hx
            cases hx
          · rw [← getElem?_take_of_lt (Nat.lt_add_one (n + m))] at hnewline
            have hcount := count_pos_iff.mpr (mem_of_getElem? hnewline)
            have hx := hrest _ _ x hx
            omega
        · exact (Nat.le_add_right _ _).trans (hrest _ _ x hx)

def errors (t : SourceText) : List (Located LexError) :=
  match t.tokenize with
  | .ok _ => []
  | .error es => es

def error? : Scanned → Option (Located LexError)
  | .error e => some e
  | .ok _ => none

lemma errors_eq : t.errors = t.scanned.filterMap error? := by
  unfold errors
  split
  · rename_i h
    rw [tokenize_eq_ok_iff.mp h, filterMap_map]
    exact (filterMap_eq_nil_iff.mpr fun _ _ => rfl).symm
  · rename_i h
    simp only [tokenize] at h
    split at h <;> cases h
    rfl

lemma ok_or_errors : (∃ ts, t.tokenize = .ok ts) ∨ t.tokenize = .error t.errors ∧ t.errors ≠ [] := by
  cases h : t.tokenize with
  | ok ts => exact .inl ⟨ts, rfl⟩
  | error es =>
    have hes : t.errors = es := by rw [errors, h]
    refine .inr ⟨by rw [hes], ?_⟩
    rw [hes]
    simp only [tokenize] at h
    split at h <;> cases h
    assumption

lemma pairwise_errors : t.errors.Pairwise fun e e' => e.loc.line < e'.loc.line := by
  rw [errors_eq, pairwise_filterMap]
  refine (t.pairwise_scan 0 false {} t.chars).1.imp fun {x y} h e he e' he' => ?_
  cases x with
  | ok _ => cases he
  | error _ =>
    cases y with
    | ok _ => cases he'
    | error _ =>
      cases he
      cases he'
      exact h _ rfl

lemma scanned_below (a b name : String)
    (h : ∀ x, (ofString a name).scanned.getLast? = some (.ok x) → ¬ x.value.isKeyword .loadKw) :
    let t := ofString (a ++ "\n" ++ b) name
    t.scanned = (ofString a name).scanned.map (scannedDown t.source 0) ++
      (ofString b name).scanned.map (scannedDown t.source (1 + a.toList.count '\n')) := by
  intro t
  let cs := a.toList.filter (· ≠ '\r')
  have hchars : t.chars = cs ++ '\n' :: (ofString b name).chars := by simp [t, cs, ofString]
  have hfirst : t.scan 0 false {} (cs ++ ['\n']) = (ofString a name).scanned.map (scannedDown t.source 0) :=
    scan_down (ofString a name) t 0 0 false {} _
  have hstate : (t.scan 0 false {} (cs ++ ['\n'])).getLast?.elim false opensPath = false := by
    rw [hfirst, getLast?_map]
    cases hx : (ofString a name).scanned.getLast? with
    | none => rfl
    | some x =>
      cases x with
      | ok x => exact Bool.eq_false_iff.mpr (h x hx)
      | error e => rfl
  have hcount : cs.count '\n' = a.toList.count '\n' := count_filter (by decide)
  have hposition : Position.afterAll {} (cs ++ ['\n']) = Position.down (1 + a.toList.count '\n') {} := by
    rw [Position.afterAll_append, Position.afterAll_cons, Position.afterAll_nil, Position.after, if_pos rfl,
      Position.line_afterAll, hcount]
    simp [Position.down]
    omega
  rw [scanned, hchars, scan_line t _ (Nat.zero_le _), hstate, hposition, hfirst, scan_down (ofString b name)]
  rfl

/-- Of two texts, one below the other, the second is read as if it stood alone, and no error of the first hides anything
of it. Each line has at most one error. -/
theorem tokenize_below (a b name : String)
    (h : ∀ x, (ofString a name).scanned.getLast? = some (.ok x) → ¬ x.value.isKeyword .loadKw) :
    let t := ofString (a ++ "\n" ++ b) name
    let k := 1 + a.toList.count '\n'
    (∀ ts us, (ofString a name).tokenize = .ok ts → (ofString b name).tokenize = .ok us →
      t.tokenize = .ok (ts.map (·.down t.source 0) ++ us.map (·.down t.source k))) ∧
    (¬ (∃ ts us, (ofString a name).tokenize = .ok ts ∧ (ofString b name).tokenize = .ok us) →
      t.tokenize = .error ((ofString a name).errors.map (·.down t.source 0) ++
        (ofString b name).errors.map (·.down t.source k))) ∧
    t.errors.Pairwise fun e e' => e.loc.line < e'.loc.line := by
  intro t k
  have hscanned : t.scanned = _ := scanned_below a b name h
  have herrors : t.errors = (ofString a name).errors.map (·.down t.source 0) ++
      (ofString b name).errors.map (·.down t.source k) := by
    have hdown (j : Nat) (xs : List Scanned) : (xs.map (scannedDown t.source j)).filterMap error? =
        (xs.filterMap error?).map (·.down t.source j) := by
      rw [filterMap_map, map_filterMap]
      refine filterMap_congr fun x _ => ?_
      cases x <;> rfl
    rw [errors_eq, hscanned, filterMap_append, hdown, hdown, errors_eq, errors_eq]
  refine ⟨fun ts us ha hb => ?_, fun hno => ?_, t.pairwise_errors⟩
  · rw [tokenize_eq_ok_iff] at ha hb ⊢
    rw [hscanned, ha, hb]
    simp [scannedDown, Function.comp_def]
    rfl
  · rw [← herrors]
    rcases t.ok_or_errors with ⟨_, ht⟩ | ⟨ht, -⟩
    · have hnil : t.errors = [] := by rw [errors, ht]
      rw [herrors, append_eq_nil_iff, map_eq_nil_iff, map_eq_nil_iff] at hnil
      obtain ⟨ts, hts⟩ := (ofString a name).ok_or_errors.resolve_right fun hr => hr.2 hnil.1
      obtain ⟨us, hus⟩ := (ofString b name).ok_or_errors.resolve_right fun hr => hr.2 hnil.2
      exact absurd ⟨ts, us, hts, hus⟩ hno
    · exact ht

end SourceText

namespace Sample

def torn : String := "load $ <a>\n\"b\\\nmut x"

def tornBelow : String := "load <a>\n\t@ b"

theorem torn_tokenize_below :
    let t := SourceText.ofString (torn ++ "\n" ++ tornBelow) "main"
    let above := SourceText.ofString torn "main"
    let below := SourceText.ofString tornBelow "main"
    above.errors.map (fun e => (e.value, e.loc.start)) = [(.badChar '$', ⟨1, 6⟩), (.badEscape '\n', ⟨2, 4⟩)] ∧
    below.errors.map (fun e => (e.value, e.loc.start)) = [(.emptyDirective, ⟨2, 6⟩)] ∧
    t.tokenize = .error (above.errors.map (·.down t.source 0) ++ below.errors.map (·.down t.source 3)) := by
  have hlast : (SourceText.ofString torn "main").scanned.getLast?.elim false SourceText.opensPath = false := by
    decide +kernel
  have herror : (SourceText.ofString torn "main").tokenize.isOk = false := by decide +kernel
  refine ⟨by decide +kernel, by decide +kernel, (SourceText.tokenize_below torn tornBelow "main" ?_).2.1 ?_⟩
  · intro x hx hload
    rw [hx] at hlast
    exact Bool.false_ne_true (hlast.symm.trans hload)
  · rintro ⟨ts, us, hts, -⟩
    rw [hts] at herror
    cases herror

end Sample

end SketchCompiler
