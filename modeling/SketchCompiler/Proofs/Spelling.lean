import Mathlib.Data.List.TakeWhile
import SketchCompiler.Token.Lexer

namespace SketchCompiler

open List

variable {kind : Char → Bool} {afterLoad : Bool} {cs : List Char} {c : Char} {s : String}

/-- A letter or an underscore, and then letters, digits and underscores. -/
def IsWord (cs : List Char) : Prop := ∃ c r, cs = c :: r ∧ isWordStart c ∧ ∀ x ∈ r, isWordChar x

/-- At least one character, all of one class. -/
def IsRun (kind : Char → Bool) (cs : List Char) : Prop := cs ≠ [] ∧ ∀ c ∈ cs, kind c

/-- No blank stands at either end. -/
def Trimmed (cs : List Char) : Prop := (∀ c ∈ cs.head?, ¬ isBlank c) ∧ ∀ c ∈ cs.getLast?, ¬ isBlank c

/-- What is written between the quotes of a string, and the characters that it stands for. -/
inductive Unescapes : List Char → List Char → Prop
  | nil : Unescapes [] []
  | plain {c body value} (hq : c ≠ '"') (hs : c ≠ '\\') (hn : c ≠ '\n') (h : Unescapes body value) :
      Unescapes (c :: body) (c :: value)
  | escape {c e body value} (he : Lexeme.unescape? c = some e) (h : Unescapes body value) :
      Unescapes ('\\' :: c :: body) (e :: value)

def suffixChars : Option PhysicalUnit → List Char
  | none => []
  | some u => u.suffix.toList

namespace Token

/-- The texts that a token may be written as. -/
inductive Spells : Token → List Char → Prop
  | id {word} (hw : IsWord word) (hk : ∀ k : Keyword, k.text.toList ≠ word) : Spells (.id (String.ofList word)) word
  | keyword (k : Keyword) : Spells (.keyword k) k.text.toList
  | decimal {digits} (unit : Option PhysicalUnit) (hd : IsRun Char.isDigit digits)
      (hn : natOfDigits 10 digits ≤ Number.maxInt) :
      Spells (.number (.int (natOfDigits 10 digits)) unit) (digits ++ suffixChars unit)
  | hexadecimal {x digits} (unit : Option PhysicalUnit) (hx : x = 'x' ∨ x = 'X') (hd : IsRun isHexDigit digits)
      (hn : natOfDigits 16 digits ≤ Number.maxInt) :
      Spells (.number (.int (natOfDigits 16 digits)) unit) ('0' :: x :: digits ++ suffixChars unit)
  | float {whole fraction} (unit : Option PhysicalUnit) (hw : IsRun Char.isDigit whole)
      (hf : IsRun Char.isDigit fraction) :
      Spells (.number (.float (floatOfDigits whole fraction)) unit) (whole ++ '.' :: fraction ++ suffixChars unit)
  | str {body value} (h : Unescapes body value) : Spells (.str (String.ofList value)) ('"' :: body ++ ['"'])
  | path {left value right} (hl : ∀ c ∈ left, isBlank c) (hr : ∀ c ∈ right, isBlank c) (ht : Trimmed value)
      (hb : ∀ c ∈ left ++ value ++ right, c ≠ '>' ∧ c ≠ '\n') :
      Spells (.path (String.ofList value)) ('<' :: (left ++ value ++ right) ++ ['>'])
  | mainDirective : Spells .mainDirective ['@', 'm', 'a', 'i', 'n']
  | directive {name} (hn : IsRun isWordChar name) (hm : name ≠ ['m', 'a', 'i', 'n']) :
      Spells (.directive (String.ofList name)) ('@' :: name)
  | punct (p : Punct) : Spells (.punct p) p.chars

end Token

lemma isRun_takeWhile (h : cs.takeWhile kind ≠ []) : IsRun kind (cs.takeWhile kind) :=
  ⟨h, fun _ => mem_takeWhile_imp⟩

lemma not_mem_of_isRun (h : IsRun kind cs) (hc : kind c = false) : c ∉ cs := by
  intro hm
  simp [h.2 c hm] at hc

lemma isWordChar_of_isWordStart (h : isWordStart c) : isWordChar c := by
  simp only [isWordStart, isWordChar, Char.isAlphanum, Bool.or_eq_true] at h ⊢
  exact h.imp_left .inl

lemma not_isWordStart_of_isDigit (h : c.isDigit) : isWordStart c = false := by
  have hne : c ≠ '_' := by
    rintro rfl
    cases h
  have hle : c.toNat ≤ '9'.toNat := by
    simp only [Char.isDigit, Bool.and_eq_true, decide_eq_true_eq, UInt32.le_iff_toNat_le] at h
    exact h.2
  have h9 : '9'.toNat = 57 := rfl
  unfold isWordStart Char.isAlpha Char.isUpper Char.isLower
  simp [hne, UInt32.le_iff_toNat_le]
  omega

lemma not_isDigit_of_isWordStart (h : isWordStart c) : c.isDigit = false := by
  by_contra hd
  cases (not_isWordStart_of_isDigit (by simpa using hd)).symm.trans h

lemma toList_intercalate_cons (sep x : String) (xs : List String) :
    (sep.intercalate (x :: xs)).toList = x.toList ++ xs.flatMap fun y => sep.toList ++ y.toList := by
  rw [String.toList_intercalate]
  induction xs generalizing x with
  | nil => simp
  | cons y xs ih =>
    rw [map_cons, map_cons, intercalate_cons_cons, ← map_cons, ih]
    simp

lemma Keyword.ofText?_eq_some {k : Keyword} (h : ofText? s = some k) : k.text = s := by
  simpa using find?_some h

lemma Keyword.ofText?_eq_none (h : ofText? s = none) (k : Keyword) : k.text ≠ s := by
  have := find?_eq_none.mp h k (mem_all k)
  simpa using this

lemma PhysicalUnit.ofSuffix?_eq_some {u : PhysicalUnit} (h : ofSuffix? s = some u) : u.suffix = s := by
  simpa using find?_some h

lemma Punct.prefix_of_longest? {p : Punct} (h : longest? cs = some p) : p.chars <+: cs := by
  have hp : p.chars.isPrefixOf cs := by simpa using find?_some h
  exact isPrefixOf_iff_prefix.mp hp

lemma trimBlanks_split (cs : List Char) : ∃ left right, cs = left ++ trimBlanks cs ++ right ∧
    (∀ c ∈ left, isBlank c) ∧ (∀ c ∈ right, isBlank c) ∧ Trimmed (trimBlanks cs) := by
  let inner := cs.dropWhile isBlank
  have hl : cs = cs.takeWhile isBlank ++ inner := takeWhile_append_dropWhile.symm
  have hr : inner = trimBlanks cs ++ (inner.reverse.takeWhile isBlank).reverse := by
    rw [trimBlanks, ← reverse_append, takeWhile_append_dropWhile, reverse_reverse]
  refine ⟨cs.takeWhile isBlank, (inner.reverse.takeWhile isBlank).reverse, ?_, ?_, ?_, ?_, ?_⟩
  · rw [append_assoc, ← hr]
    exact hl
  · exact fun c => mem_takeWhile_imp
  · intro c hc
    exact mem_takeWhile_imp (mem_reverse.mp hc)
  · -- The first character is the one at which the blanks on the left end, whatever is cut on the right.
    intro c hc
    have hne : inner.head? = some c := by
      rw [hr, head?_append, Option.mem_def.mp hc]
      rfl
    have := head?_dropWhile_not isBlank cs
    simp only [inner] at hne
    simpa [hne] using this
  · intro c hc
    have := head?_dropWhile_not isBlank inner.reverse
    simp only [trimBlanks, getLast?_reverse, Option.mem_def] at hc
    simpa [inner, hc] using this

namespace Lexeme

variable {v : Token} {w : Nat} {digits : List Char}

lemma spells_ofWord {word} (hw : IsWord word) : (ofWord word).Spells word := by
  simp only [ofWord]
  cases h : Keyword.ofText? (String.ofList word) with
  | some k =>
    have hk : k.text.toList = word := by rw [Keyword.ofText?_eq_some h, String.toList_ofList]
    simpa only [hk] using Token.Spells.keyword k
  | none =>
    refine .id hw fun k hk => Keyword.ofText?_eq_none h k ?_
    rw [← hk, String.ofList_toList]

lemma string_eq_token {n : Nat} {body : List Char} (h : string n body cs = token v w) :
    ∃ raw value rest, cs = raw ++ '"' :: rest ∧ Unescapes raw value ∧
      v = .str (String.ofList (body.reverse ++ value)) ∧ w = n + raw.length + 1 := by
  fun_induction string n body cs with
  | case1 | case3 | case4 | case6 => cases h
  | case2 n body rest =>
    cases h
    exact ⟨[], [], rest, rfl, .nil, by simp, by simp⟩
  | case5 n body c cs e he ih =>
    obtain ⟨raw, value, rest, rfl, hu, rfl, rfl⟩ := ih h
    exact ⟨'\\' :: c :: raw, e :: value, rest, rfl, .escape he hu, by simp, by simp; omega⟩
  | case7 n body c cs hq hn hs hs' ih =>
    obtain ⟨raw, value, rest, rfl, hu, rfl, rfl⟩ := ih h
    have hc : c ≠ '\\' := by
      rintro rfl
      cases raw with
      | nil => exact hs' _ _ rfl rfl
      | cons x raw => exact hs' _ _ rfl rfl
    exact ⟨c :: raw, c :: value, rest, rfl, .plain hq hc hn hu, by simp, by simp; omega⟩

lemma path_eq_token (h : path cs = token v w) :
    ∃ lexeme rest, '<' :: cs = lexeme ++ rest ∧ lexeme.length = w ∧ v.Spells lexeme := by
  let stops : Char → Bool := fun c => c ≠ '>' && c ≠ '\n'
  let body := cs.takeWhile stops
  have hcs : cs = body ++ cs.drop body.length := (prefix_iff_eq_append.mp <| takeWhile_prefix _).symm
  have hbody : ∀ c ∈ body, c ≠ '>' ∧ c ≠ '\n' := by
    intro c hc
    simpa [stops] using mem_takeWhile_imp hc
  simp only [path] at h
  split at h
  · rename_i rest heq
    change cs.drop body.length = _ at heq
    cases h
    obtain ⟨left, right, htrim, hl, hr, ht⟩ := trimBlanks_split body
    refine ⟨'<' :: body ++ ['>'], rest, ?_, by simp [body, stops], ?_⟩
    · rw [heq] at hcs
      simpa using hcs
    · have := Token.Spells.path hl hr ht (by rwa [← htrim])
      rwa [← htrim] at this
  · cases h

lemma directive_eq_token (h : directive cs = token v w) :
    ∃ lexeme rest, '@' :: cs = lexeme ++ rest ∧ lexeme.length = w ∧ v.Spells lexeme := by
  have hcs : '@' :: cs = ('@' :: cs.takeWhile isWordChar) ++ cs.dropWhile isWordChar := by
    rw [cons_append, takeWhile_append_dropWhile]
  simp only [directive] at h
  split_ifs at h with hnil hmain
  · cases h
    rw [hmain] at hcs
    exact ⟨_, _, hcs, rfl, .mainDirective⟩
  · cases h
    exact ⟨_, _, hcs, by simp, .directive (isRun_takeWhile hnil) hmain⟩

lemma unitAt?_split (cs : List Char) : ∃ rest, cs = suffixChars (unitAt? cs) ++ rest := by
  cases h : unitAt? cs with
  | none => exact ⟨cs, rfl⟩
  | some u =>
    refine ⟨cs.dropWhile isWordChar, ?_⟩
    have hu : u.suffix = String.ofList (cs.takeWhile isWordChar) := by
      cases cs with
      | nil => cases h
      | cons c cs =>
        simp only [unitAt?] at h
        split_ifs at h
        exact PhysicalUnit.ofSuffix?_eq_some h
    rw [suffixChars, hu, String.toList_ofList, takeWhile_append_dropWhile]

lemma withUnit_eq_token {value} {rest} (h : withUnit value digits.length rest = token v w) :
    ∃ n rest', value = .ok n ∧ v = .number n (unitAt? rest) ∧
      digits ++ rest = digits ++ suffixChars (unitAt? rest) ++ rest' ∧
      (digits ++ suffixChars (unitAt? rest)).length = w := by
  cases value with
  | error e => cases h
  | ok n =>
    obtain ⟨rest', hrest⟩ := unitAt?_split rest
    simp only [withUnit, token.injEq] at h
    obtain ⟨rfl, rfl⟩ := h
    refine ⟨n, rest', rfl, rfl, ?_, ?_⟩
    · rw [append_assoc, ← hrest]
    · cases unitAt? rest <;> simp [suffixChars, String.length_toList]

lemma intValue_eq_ok {base} {n} (h : intValue base digits = .ok n) :
    n = .int (natOfDigits base digits) ∧ natOfDigits base digits ≤ Number.maxInt := by
  simp only [intValue] at h
  split_ifs at h with hle
  cases h
  exact ⟨rfl, hle⟩

lemma hexDigits?_eq_some (h : hexDigits? cs = some digits) : ∃ x rest, cs = '0' :: x ::
    digits ++ rest ∧ (x = 'x' ∨ x = 'X') ∧ IsRun isHexDigit digits := by
  unfold hexDigits? at h
  split at h
  · rename_i x cs
    dsimp only at h
    split_ifs at h with hc
    cases h
    simp only [Bool.and_eq_true, Bool.or_eq_true, decide_eq_true_eq] at hc
    refine ⟨x, cs.dropWhile isHexDigit, ?_, hc.1, isRun_takeWhile hc.2⟩
    rw [cons_append, cons_append, takeWhile_append_dropWhile]
  · cases h

lemma fraction?_eq_some (h : fraction? cs = some digits) : ∃ rest, cs = '.' ::
    digits ++ rest ∧ IsRun Char.isDigit digits := by
  unfold fraction? at h
  split at h
  · rename_i cs
    dsimp only at h
    split_ifs at h with hc
    cases h
    refine ⟨cs.dropWhile Char.isDigit, ?_, isRun_takeWhile hc⟩
    rw [cons_append, takeWhile_append_dropWhile]
  · cases h

lemma number_eq_withUnit (hc : c.isDigit) (cs : List Char) : ∃ value digits rest, c ::
    cs = digits ++ rest ∧ number (c :: cs) = withUnit value digits.length rest ∧ '\n' ∉ digits ∧ ∀ n unit, value = .ok
    n → (Token.number n unit).Spells (digits ++ suffixChars unit) := by
  unfold number
  cases hx : hexDigits? (c :: cs) with
  | some digits =>
    obtain ⟨x, rest, hcs, hx, hd⟩ := hexDigits?_eq_some hx
    have hlen : 2 + digits.length = ('0' :: x :: digits).length := by simp; omega
    refine ⟨intValue 16 digits, _, rest, hcs, by simp only [hcs, hlen, drop_left], ?_, fun n unit hn => ?_⟩
    · have := not_mem_of_isRun hd (c := '\n') (by decide)
      rcases hx with rfl | rfl <;> simpa using this
    · obtain ⟨rfl, hle⟩ := intValue_eq_ok hn
      exact .hexadecimal _ hx hd hle
  | none =>
    have hwhole : IsRun Char.isDigit ((c :: cs).takeWhile Char.isDigit) := isRun_takeWhile (by simp [hc])
    have hcs := (prefix_iff_eq_append.mp <| takeWhile_prefix Char.isDigit (l := c :: cs)).symm
    dsimp only
    generalize (c :: cs).takeWhile Char.isDigit = whole at hwhole hcs ⊢
    generalize (c :: cs).drop whole.length = rest at hcs ⊢
    have hline := not_mem_of_isRun hwhole (c := '\n') (by decide)
    rw [hcs]
    cases hf : fraction? rest with
    | some digits =>
      obtain ⟨rest, rfl, hd⟩ := fraction?_eq_some hf
      have hlen : whole.length + 1 + digits.length = (whole ++ '.' :: digits).length := by simp; omega
      have happ : whole ++ ('.' :: digits ++ rest) = (whole ++ '.' :: digits) ++ rest := by simp
      refine ⟨.ok (.float (floatOfDigits whole digits)), _, rest, happ, by simp only [happ, hlen, drop_left], ?_,
        fun n unit hn => ?_⟩
      · simp [hline, not_mem_of_isRun hd (c := '\n') (by decide)]
      · cases hn
        exact .float _ hwhole hd
    | none =>
      refine ⟨_, _, rest, rfl, rfl, hline, fun n unit hn => ?_⟩
      obtain ⟨rfl, hle⟩ := intValue_eq_ok hn
      exact .decimal _ hwhole hle

lemma number_eq_token (hc : c.isDigit) (h : number (c :: cs) = token v w) : ∃ lexeme rest, c ::
    cs = lexeme ++ rest ∧ lexeme.length = w ∧ v.Spells lexeme := by
  obtain ⟨value, digits, rest, hcs, hnumber, -, hspells⟩ := number_eq_withUnit hc cs
  rw [hnumber] at h
  obtain ⟨n, rest', hn, rfl, hsplit, hw⟩ := withUnit_eq_token h
  exact ⟨_, rest', hcs.trans hsplit, hw, hspells n _ hn⟩

lemma read_eq_token (h : read afterLoad c cs = token v w) : ∃ lexeme rest, c ::
    cs = lexeme ++ rest ∧ lexeme.length = w ∧ v.Spells lexeme := by
  unfold read at h
  by_cases hload : afterLoad && c = '<'
  · rw [if_pos hload] at h
    simp only [Bool.and_eq_true, decide_eq_true_eq] at hload
    rw [hload.2]
    exact path_eq_token h
  rw [if_neg hload] at h
  cases hp : Punct.longest? (c :: cs) with
  | some p =>
    simp only [hp, token.injEq] at h
    obtain ⟨rfl, rfl⟩ := h
    obtain ⟨rest, hrest⟩ := Punct.prefix_of_longest? hp
    exact ⟨p.chars, rest, hrest.symm, rfl, .punct p⟩
  | none =>
    simp only [hp] at h
    split_ifs at h with hat hhash hquote hword hdigit
    · rw [hat]
      exact directive_eq_token h
    · obtain ⟨raw, value, rest, rfl, hu, rfl, rfl⟩ := string_eq_token h
      rw [hquote]
      exact ⟨'"' :: raw ++ ['"'], rest, by simp, by simp; omega, .str hu⟩
    · cases h
      refine ⟨c :: cs.takeWhile isWordChar, cs.dropWhile isWordChar, ?_, rfl, ?_⟩
      · rw [cons_append, takeWhile_append_dropWhile]
      · exact spells_ofWord ⟨c, _, rfl, hword, fun x => mem_takeWhile_imp⟩
    · exact number_eq_token hdigit h

end Lexeme

def Token.IsSpelled (v : Token) : Prop := ∃ lexeme, v.Spells lexeme

lemma Token.IsSpelled.isWord {name : String} (h : (id name).IsSpelled) : IsWord name.toList := by
  obtain ⟨_, h⟩ := h
  cases h with
  | id hw => simpa using hw

namespace SourceText

variable {t : SourceText} {v : Located Token}

lemma isSpelled_of_mem_scan {n} {p} (h : .ok v ∈ t.scan n afterLoad p cs) : v.value.IsSpelled := by
  induction cs generalizing n afterLoad p with
  | nil => cases h
  | cons c cs ih =>
    cases n with
    | succ n => exact ih h
    | zero =>
      rw [scan] at h
      split at h
      case h_1 => exact ih h
      case h_2 v' w hr =>
        rcases mem_cons.mp h with hv | h
        · cases hv
          obtain ⟨lexeme, _, -, -, hs⟩ := Lexeme.read_eq_token hr
          exact ⟨lexeme, hs⟩
        · exact ih h
      case h_3 =>
        rcases mem_cons.mp h with hv | h
        · cases hv
        · exact ih h

lemma isSpelled_of_tokenize {tokens} (h : t.tokenize = .ok tokens) (hv : v ∈ tokens) : v.value.IsSpelled := by
  unfold tokenize at h
  dsimp only at h
  split at h
  · cases h
    obtain ⟨x, hx, hs⟩ := mem_filterMap.mp hv
    split at hs
    · cases hs
      exact isSpelled_of_mem_scan hx
    · cases hs
  · cases h

end SourceText

end SketchCompiler
