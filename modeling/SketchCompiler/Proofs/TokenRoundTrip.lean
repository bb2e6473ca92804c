import Mathlib
import SketchCompiler.Proofs.TokenSplit
import SketchCompiler.Sketch.Expr

namespace SketchCompiler

open List

variable {kind : Char → Bool} {n : Nat} {cs : List Char} {b c : Char}

namespace Token

/-- The plain spelling: decimal digits, escapes only where a string needs them, no blanks around a path. -/
def spelling : Token → String
  | id name => name
  | keyword word => word.text
  | number value unit => value.text ++ String.ofList (suffixChars unit)
  | str value => (Literal.str value).code
  | path value => "<" ++ value ++ ">"
  | mainDirective => "@main"
  | directive name => "@" ++ name
  | punct mark => mark.text

/-- The tokens that a text can hold, floating point numbers apart. -/
def IsPlain : Token → Prop
  | id name => IsWord name.toList ∧ ∀ k : Keyword, k.text ≠ name
  | number (.int n) _ => 0 ≤ n ∧ n ≤ Number.maxInt
  | number (.float _) _ => False
  | path value => Trimmed value.toList ∧ ∀ c ∈ value.toList, c ≠ '>' ∧ c ≠ '\r' ∧ c ≠ '\n'
  | directive name => IsRun isWordChar name.toList ∧ name ≠ "main"
  | keyword _ | str _ | mainDirective | punct _ => True

def isPath : Token → Bool
  | path _ => true
  | _ => false

/-- A path stands only behind the word `load`, and there nothing else begins with `<`. -/
def Follows (t : Token) (afterLoad : Bool) : Prop :=
  (t.isPath → afterLoad) ∧ (afterLoad → t.spelling.toList.head? = some '<' → t.isPath)

end Token

/-- Every token follows the one before it. -/
def WellPlaced (tokens : List Token) : Prop :=
  ∀ before t after, tokens = before ++ t :: after → t.Follows (before.getLast?.any (·.isKeyword .loadKw))

def spelled (tokens : List Token) : String := " ".intercalate (tokens.map Token.spelling)

/-- What may stand right behind a token. -/
def IsGap (c : Char) : Prop := c = ' ' ∨ c = '\n'

lemma takeWhile_run {rest} (hcs : ∀ c ∈ cs, kind c)
    (hb : kind b = false) : (cs ++ b :: rest).takeWhile kind = cs := by
  rw [takeWhile_append_of_pos hcs, takeWhile_cons_of_neg (by simp [hb]), append_nil]

lemma IsGap.not_isWordChar (h : IsGap b) : isWordChar b = false := by
  rcases h with rfl | rfl <;> decide

lemma Keyword.ofText?_text (k : Keyword) : ofText? k.text = some k := by
  cases k <;> rfl

lemma PhysicalUnit.ofSuffix?_suffix (u : PhysicalUnit) : ofSuffix? u.suffix = some u := by
  cases u <;> rfl

namespace Punct

lemma longest?_chars (p : Punct) (rest : List Char) (hb : IsGap b) : longest? (p.chars ++ b :: rest) = some p := by
  rcases hb with rfl | rfl <;> cases p <;> rfl

/-- No mark begins with a character of the class. -/
def Avoids (kind : Char → Bool) : Prop := ∀ p : Punct, ∀ c ∈ p.chars.head?, kind c = false

lemma longest?_eq_none (hk : Avoids kind) (hc : kind c) (cs : List Char) :
    longest? (c :: cs) = none := by
  refine find?_eq_none.mpr fun p _ hp => ?_
  obtain ⟨rest, hrest⟩ := isPrefixOf_iff_prefix.mp hp
  cases hp : p.chars with
  | nil => cases p <;> cases hp
  | cons d ds =>
    have hd := hk p d (by rw [hp]; rfl)
    rw [hp, cons_append, cons.injEq] at hrest
    rw [hrest.1, hc] at hd
    cases hd

lemma avoids_isWordChar : Avoids isWordChar := by
  intro p
  cases p <;>
  · rintro c ⟨⟩
    rfl

end Punct

lemma natOfDigits_toDigits (n : Nat) : natOfDigits 10 (Nat.toDigits 10 n) = n := by
  have hdigits : ∀ c ∈ Nat.toDigits 10 n, c.isDigit := fun c => Nat.isDigit_of_mem_toDigits (by decide) (by decide)
  have hfold (cs : List Char) (hcs : ∀ c ∈ cs, c.isDigit) (m : Nat) :
      cs.foldl (fun n c => n * 10 + digitValue c) m = Nat.ofDigitChars 10 cs m := by
    induction cs generalizing m with
    | nil => rfl
    | cons c cs ih =>
      have hc : digitValue c = c.toNat - '0'.toNat := by rw [digitValue, if_pos (hcs c mem_cons_self)]
      rw [foldl_cons, ih fun c hc => hcs c (mem_cons_of_mem _ hc), hc, Nat.mul_comm]
      rfl
  rw [natOfDigits, hfold _ hdigits, Nat.ofDigitChars_toDigits (by decide) (by decide)]

lemma trimBlanks_eq_self (h : Trimmed cs) : trimBlanks cs = cs := by
  have hleft : cs.dropWhile isBlank = cs := by
    cases cs with
    | nil => rfl
    | cons c cs => exact dropWhile_cons_of_neg (h.1 c rfl)
  have hright : cs.reverse.dropWhile isBlank = cs.reverse := by
    cases hr : cs.reverse with
    | nil => rfl
    | cons c rest =>
      refine dropWhile_cons_of_neg (h.2 c ?_)
      rw [getLast?_eq_head?_reverse, hr]
      rfl
  rw [trimBlanks, hleft, hright, reverse_reverse]

lemma escapeTargetChar_cases (c : Char) : (∃ x, escapeTargetChar c = ['\\', x] ∧ Lexeme.unescape? x = some c) ∨
      (escapeTargetChar c = [c] ∧ c ≠ '"' ∧ c ≠ '\\' ∧ c ≠ '\n' ∧ c ≠ '\r') := by
  unfold escapeTargetChar
  split
  case h_7 hq hs hn hr _ _ => exact .inr ⟨rfl, hq, hs, hn, hr⟩
  all_goals exact .inl ⟨_, rfl, rfl⟩

namespace Lexeme

variable (rest : List Char)

lemma string_escape {body} {x e} (h : unescape? x = some e) :
    string n body ('\\' :: x :: cs) = string (n + 2) (e :: body) cs := by
  simp [string, h]

lemma string_plain {body} (hq : c ≠ '"') (hs : c ≠ '\\') (hn : c ≠ '\n') :
    string n body (c :: cs) = string (n + 1) (c :: body) cs := by
  rw [string]
  · exact hq
  · exact hn
  · exact fun h => absurd h hs
  · exact fun _ _ h => absurd h hs

lemma string_escaped (n : Nat) (body value : List Char) :
    string n body (value.flatMap escapeTargetChar ++ '"' :: rest) =
      token (.str (String.ofList (body.reverse ++ value))) (n + (value.flatMap escapeTargetChar).length + 1) := by
  induction value generalizing n body with
  | nil => simp [string]
  | cons c value ih =>
    rcases escapeTargetChar_cases c with ⟨x, hc, hx⟩ | ⟨hc, hq, hs, hn, -⟩
    · simp only [flatMap_cons, hc, cons_append, nil_append]
      rw [string_escape hx, ih]
      simp
      omega
    · simp only [flatMap_cons, hc, cons_append, nil_append]
      rw [string_plain hq hs hn, ih]
      simp
      omega

lemma path_plain {value : List Char} (ht : Trimmed value) (hv : ∀ c ∈ value, c ≠ '>' ∧ c ≠ '\n') :
    path (value ++ '>' :: rest) = token (.path (String.ofList value)) (value.length + 2) := by
  have hbody : (value ++ '>' :: rest).takeWhile (fun c => c ≠ '>' && c ≠ '\n') = value :=
    takeWhile_run (fun c hc => by simpa using hv c hc) (by decide)
  simp only [path, hbody, drop_left, trimBlanks_eq_self ht]

lemma directive_plain {name : List Char} (hn : IsRun isWordChar name) (hb : IsGap b) : directive (name ++ b :: rest) =
      if name = ['m', 'a', 'i', 'n'] then token .mainDirective 5
      else token (.directive (String.ofList name)) (name.length + 1) := by
  simp only [directive, takeWhile_run hn.2 hb.not_isWordChar, if_neg hn.1]

/-- A character that ends the digits of a number, and belongs to no base and no fraction. -/
def EndsDigits (c : Char) : Prop := c.isDigit = false ∧ c ≠ '.' ∧ c ≠ 'x' ∧ c ≠ 'X'

lemma suffix_eq_cons (u : PhysicalUnit) : ∃ c cs, u.suffix.toList = c :: cs ∧ c.isAlpha ∧ EndsDigits c ∧
    ∀ d ∈ c :: cs, isWordChar d := by
  cases u <;> exact ⟨_, _, rfl, by decide, by unfold EndsDigits; decide, all_eq_true.mp (by decide)⟩

lemma unitAt?_suffix (unit : Option PhysicalUnit) (hb : IsGap b) : unitAt? (suffixChars unit ++ b :: rest) = unit := by
  cases unit with
  | none => rcases hb with rfl | rfl <;> rfl
  | some u =>
    obtain ⟨c, cs, hu, hc, -, hword⟩ := suffix_eq_cons u
    simp only [suffixChars, hu, cons_append, unitAt?, hc, if_true]
    rw [← cons_append, takeWhile_run hword hb.not_isWordChar, ← hu, String.ofList_toList, PhysicalUnit.ofSuffix?_suffix]

lemma suffixChars_eq_cons (unit : Option PhysicalUnit) (hb : IsGap b) :
    ∃ c cs, suffixChars unit ++ b :: rest = c :: cs ∧ EndsDigits c := by
  cases unit with
  | none => rcases hb with rfl | rfl <;> exact ⟨_, _, rfl, by unfold EndsDigits; decide⟩
  | some u =>
    obtain ⟨c, cs, hu, -, hc, -⟩ := suffix_eq_cons u
    exact ⟨c, cs ++ b :: rest, by rw [suffixChars, hu, cons_append], hc⟩

lemma hexDigits?_eq_none {digits} (hd : IsRun Char.isDigit digits)
    (hc : c ≠ 'x' ∧ c ≠ 'X') : hexDigits? (digits ++ c :: cs) = none := by
  obtain ⟨d, ds, rfl⟩ := exists_cons_of_ne_nil hd.1
  have hx {x : Char} (h : x.isDigit) : x ≠ 'x' ∧ x ≠ 'X' := by
    constructor <;> rintro rfl <;> cases h
  by_cases h0 : d = '0'
  · subst h0
    -- The second character is another digit or the one behind the digits.
    cases ds with
    | nil => simp [hexDigits?, hc]
    | cons e ds => simp [hexDigits?, hx (hd.2 e (by simp))]
  · simp [hexDigits?, h0]

lemma number_plain (n : Nat) (unit : Option PhysicalUnit) (hn : (n : Int) ≤ Number.maxInt) (hb : IsGap b) :
    number (Nat.toDigits 10 n ++ suffixChars unit ++ b :: rest) =
      token (.number (.int n) unit) (Nat.toDigits 10 n ++ suffixChars unit).length := by
  have hd : IsRun Char.isDigit (Nat.toDigits 10 n) :=
    ⟨Nat.toDigits_ne_nil, fun c => Nat.isDigit_of_mem_toDigits (by decide) (by decide)⟩
  obtain ⟨c, cs, hcs, hc⟩ := suffixChars_eq_cons rest unit hb
  have hfraction : fraction? (c :: cs) = none := by simp [fraction?, hc.2.1]
  have hunit : unitAt? (c :: cs) = unit := by rw [← hcs, unitAt?_suffix rest unit hb]
  have hvalue : intValue 10 (Nat.toDigits 10 n) = .ok (.int n) := by
    simp only [intValue, natOfDigits_toDigits, if_pos hn]
  rw [append_assoc, hcs]
  simp only [number, hexDigits?_eq_none hd hc.2.2, takeWhile_run hd.2 hc.1, drop_left, hfraction, hvalue, withUnit,
    hunit, length_append]
  cases unit <;> simp [suffixChars, String.length_toList]

variable {afterLoad : Bool}

lemma read_word {word : List Char} (hw : IsWord word) (hb : isWordChar b = false) (h : word ++ b :: rest = c :: cs) :
    read afterLoad c cs = token (ofWord word) word.length := by
  obtain ⟨d, ds, rfl, hd, hds⟩ := hw
  obtain ⟨rfl, rfl⟩ := cons.inj h
  have hmark := Punct.longest?_eq_none Punct.avoids_isWordChar (isWordChar_of_isWordStart hd) (ds ++ b :: rest)
  have hne : d ≠ '<' ∧ d ≠ '@' ∧ d ≠ '#' ∧ d ≠ '"' := by
    refine ⟨?_, ?_, ?_, ?_⟩ <;> rintro rfl <;> cases hd
  simp [read, hmark, hne, hd, takeWhile_run hds hb]

lemma read_digit (hc : c.isDigit) : read afterLoad c cs = number (c :: cs) := by
  have hword : isWordChar c := by simp [isWordChar, Char.isAlphanum, hc]
  have hmark := Punct.longest?_eq_none Punct.avoids_isWordChar hword cs
  have hne : c ≠ '<' ∧ c ≠ '@' ∧ c ≠ '#' ∧ c ≠ '"' := by
    refine ⟨?_, ?_, ?_, ?_⟩ <;> rintro rfl <;> cases hc
  simp [read, hmark, hne, not_isWordStart_of_isDigit hc, hc]

lemma read_quote : read afterLoad '"' cs = string 1 [] cs := by
  cases afterLoad <;> rfl

lemma read_at : read afterLoad '@' cs = directive cs := by
  cases afterLoad <;> rfl

lemma read_mark {p : Punct} (hb : IsGap b) (hf : (Token.punct p).Follows afterLoad)
    (h : p.chars ++ b :: rest = c :: cs) : read afterLoad c cs = token (.punct p) p.chars.length := by
  have hload : ¬ (afterLoad && c = '<') := by
    rintro hload
    simp only [Bool.and_eq_true, decide_eq_true_eq] at hload
    have hhead : (Token.punct p).spelling.toList.head? = some '<' := by
      obtain ⟨d, ds, hp⟩ := exists_cons_of_ne_nil (Token.Spells.punct p).ne_nil
      rw [hp, cons_append, cons.injEq] at h
      rw [Token.spelling, Punct.text, String.toList_ofList, hp, h.1, hload.2]
      rfl
    cases hf.2 hload.1 hhead
  rw [read, if_neg hload, ← h, Punct.longest?_chars p rest hb]

end Lexeme

namespace Token

lemma isWord_keyword (k : Keyword) : IsWord k.text.toList := by
  cases k <;> exact ⟨_, _, rfl, by decide, all_eq_true.mp (by decide)⟩

lemma toList_text_int (n : Nat) : (Number.text (.int n)).toList = Nat.toDigits 10 n := by
  have h : Number.text (.int n) = String.ofList (Nat.toDigits 10 n) := rfl
  rw [h, String.toList_ofList]

lemma read_spelling {t : Token} {afterLoad : Bool} {rest} (ht : t.IsPlain)
    (hf : t.Follows afterLoad) (hb : IsGap b) (h : t.spelling.toList ++ b :: rest = c :: cs) :
    Lexeme.read afterLoad c cs = .token t t.spelling.toList.length := by
  cases t with
  | id name =>
    have hnone : Keyword.ofText? name = none := by
      simpa [Keyword.ofText?, Keyword.mem_all] using ht.2
    rw [Lexeme.read_word rest ht.1 hb.not_isWordChar h, spelling, Lexeme.ofWord, String.ofList_toList]
    simp only [hnone]
  | keyword k =>
    rw [Lexeme.read_word rest (isWord_keyword k) hb.not_isWordChar h, spelling, Lexeme.ofWord, String.ofList_toList]
    simp only [Keyword.ofText?_text]
  | number value unit =>
    cases value with
    | float x => exact ht.elim
    | int n =>
      obtain ⟨m, rfl⟩ := Int.eq_ofNat_of_zero_le ht.1
      have hs : (spelling (.number (.int m) unit)).toList = Nat.toDigits 10 m ++ suffixChars unit := by
        rw [spelling, String.toList_append, toList_text_int, String.toList_ofList]
      rw [hs] at h ⊢
      have hc : c.isDigit := by
        obtain ⟨d, ds, hd⟩ := exists_cons_of_ne_nil (Nat.toDigits_ne_nil (b := 10) (n := m))
        have hmem : d ∈ Nat.toDigits 10 m := by simp [hd]
        rw [hd, cons_append, cons_append, cons.injEq] at h
        rw [← h.1]
        exact Nat.isDigit_of_mem_toDigits (by decide) (by decide) hmem
      rw [Lexeme.read_digit hc, ← h, Lexeme.number_plain rest m unit ht.2 hb]
  | str value =>
    have hs : (spelling (.str value)).toList = '"' :: value.toList.flatMap escapeTargetChar ++ ['"'] := by
      rw [spelling, Literal.code, String.toList_ofList]
    rw [hs, append_assoc, cons_append, cons.injEq] at h
    obtain ⟨rfl, rfl⟩ := h
    rw [Lexeme.read_quote, singleton_append, Lexeme.string_escaped, hs]
    simp
    omega
  | path value =>
    have hs : (spelling (.path value)).toList = '<' :: value.toList ++ ['>'] := by simp [spelling]
    rw [hs, append_assoc, cons_append, cons.injEq] at h
    obtain ⟨rfl, rfl⟩ := h
    have hload : afterLoad = true := hf.1 rfl
    have hread (cs : List Char) : Lexeme.read true '<' cs = Lexeme.path cs := rfl
    have hvalue : ∀ c ∈ value.toList, c ≠ '>' ∧ c ≠ '\n' := fun c hc => ⟨(ht.2 c hc).1, (ht.2 c hc).2.2⟩
    rw [hload, hread, singleton_append, Lexeme.path_plain _ ht.1 hvalue, hs, String.ofList_toList]
    simp
  | mainDirective =>
    obtain ⟨rfl, rfl⟩ := cons.inj h
    exact (Lexeme.read_at).trans (Lexeme.directive_plain rest ⟨by decide, all_eq_true.mp (by decide)⟩ hb)
  | directive name =>
    have hs : (spelling (.directive name)).toList = '@' :: name.toList := by simp [spelling]
    rw [hs, cons_append, cons.injEq] at h
    obtain ⟨rfl, rfl⟩ := h
    have hmain : name.toList ≠ ['m', 'a', 'i', 'n'] := by
      intro h
      exact ht.2 (String.toList_inj.mp h)
    rw [Lexeme.read_at, Lexeme.directive_plain rest ht.1 hb, if_neg hmain, hs, String.ofList_toList, length_cons]
  | punct p =>
    have hs : (spelling (.punct p)).toList = p.chars := by rw [spelling, Punct.text, String.toList_ofList]
    rw [hs] at h ⊢
    exact Lexeme.read_mark rest hb hf h

lemma spelling_ne_nil {t : Token} (ht : t.IsPlain) : t.spelling.toList ≠ [] := by
  cases t with
  | id name =>
    obtain ⟨c, r, h, -⟩ := ht.1
    simp [spelling, h]
  | keyword k => exact (Spells.keyword k).ne_nil
  | number value unit =>
    cases value with
    | float x => exact ht.elim
    | int n =>
      obtain ⟨m, rfl⟩ := Int.eq_ofNat_of_zero_le ht.1
      rw [spelling, String.toList_append, toList_text_int]
      exact append_ne_nil_of_left_ne_nil Nat.toDigits_ne_nil _
  | punct p =>
    rw [spelling, Punct.text, String.toList_ofList]
    exact (Spells.punct p).ne_nil
  | _ => simp [spelling, Literal.code]

lemma return_not_mem_spelling {t : Token} (ht : t.IsPlain) : '\r' ∉ t.spelling.toList := by
  cases t with
  | id name =>
    obtain ⟨c, r, h, hc, hr⟩ := ht.1
    rw [spelling, h]
    exact not_mem_of_isRun ⟨cons_ne_nil c r, by
      simpa using ⟨isWordChar_of_isWordStart hc, hr⟩⟩ (by decide)
  | keyword k => cases k <;> decide
  | number value unit =>
    cases value with
    | float x => exact ht.elim
    | int n =>
      obtain ⟨m, rfl⟩ := Int.eq_ofNat_of_zero_le ht.1
      have hdigits : '\r' ∉ Nat.toDigits 10 m := by
        intro h
        cases Nat.isDigit_of_mem_toDigits (by decide) (by decide) h
      have hunit : '\r' ∉ suffixChars unit := by
        cases unit with
        | none => exact not_mem_nil
        | some u => cases u <;> decide
      rw [spelling, String.toList_append, toList_text_int, String.toList_ofList]
      simp [hdigits, hunit]
  | str value =>
    have hvalue : '\r' ∉ value.toList.flatMap escapeTargetChar := by
      intro h
      obtain ⟨c, -, hc⟩ := mem_flatMap.mp h
      rcases escapeTargetChar_cases c with ⟨x, he, hx⟩ | ⟨he, -, -, -, hr⟩
      · rw [he] at hc
        simp only [mem_cons, not_mem_nil, or_false] at hc
        rcases hc with hc | rfl
        · cases hc
        · cases hx
      · rw [he, mem_singleton] at hc
        exact hr hc.symm
    rw [spelling, Literal.code, String.toList_ofList]
    simp [hvalue]
  | path value =>
    have hvalue : '\r' ∉ value.toList := fun h => (ht.2 _ h).2.1 rfl
    simp [spelling, hvalue]
  | mainDirective => decide
  | directive name =>
    have hname : '\r' ∉ name.toList := not_mem_of_isRun ht.1 (by decide)
    simp [spelling, hname]
  | punct p =>
    rw [spelling, Punct.text, String.toList_ofList]
    cases p <;> decide

end Token

namespace SourceText

open Token

variable {t : SourceText} {afterLoad : Bool} {p : Position} {tokens : List Token}

lemma toList_spelled_cons (t u : Token) (ts : List Token) :
    (spelled (t :: u :: ts)).toList = t.spelling.toList ++ ' ' :: (spelled (u :: ts)).toList := by
  simp [spelled, String.toList_intercalate]

lemma scan_gap (cs : List Char) : t.scan 0 afterLoad p (' ' :: cs) = t.scan 0 afterLoad (p.after ' ') cs :=
  scan_blank_one (by cases afterLoad <;> rfl)

lemma scan_spelling {v : Token} (t : SourceText) (p : Position) (rest : List Char) (hv : v.IsPlain)
    (hf : v.Follows afterLoad) (hb : IsGap b) : ∃ loc q, t.scan 0 afterLoad p (v.spelling.toList ++ b :: rest) =
      .ok ⟨v, loc⟩ :: t.scan 0 (v.isKeyword .loadKw) q (b :: rest) := by
  obtain ⟨c, cs, h⟩ := exists_cons_of_ne_nil (append_ne_nil_of_left_ne_nil (spelling_ne_nil hv) (b :: rest))
  have hscan := scan_token (t := t) (p := p) h.symm (spelling_ne_nil hv) (read_spelling hv hf hb h)
  rw [← h] at hscan
  exact ⟨_, _, hscan⟩

lemma scan_spelled (ht : ∀ v ∈ tokens, v.IsPlain) (hf : ∀ before v after, tokens = before ++ v ::
    after → v.Follows ((before.getLast?.map (·.isKeyword .loadKw)).getD afterLoad)) :
    ∃ located : List (Located Token), t.scan 0 afterLoad p ((spelled tokens).toList ++ ['\n']) = located.map .ok ∧
      located.map (·.value) = tokens := by
  induction tokens generalizing afterLoad p with
  | nil => exact ⟨[], scan_blank_one (Lexeme.read_newline _ _), rfl⟩
  | cons v ts ih =>
    have hv : v.Follows afterLoad := hf [] v ts rfl
    have hfts (before : List Token) (w : Token) (after : List Token) (h : ts = before ++ w :: after) :
        w.Follows ((before.getLast?.map (·.isKeyword .loadKw)).getD (v.isKeyword .loadKw)) := by
      have := hf (v :: before) w after (by rw [h, cons_append])
      rw [getLast?_cons] at this
      cases hl : before.getLast? <;> simpa [hl] using this
    have hts (q : Position) := ih (p := q) (fun w hw => ht w (mem_cons_of_mem _ hw)) hfts
    cases ts with
    | nil =>
      have hs : (spelled [v]).toList = v.spelling.toList := by simp [spelled]
      obtain ⟨loc, q, hscan⟩ := scan_spelling t p [] (ht v mem_cons_self) hv (.inr rfl)
      obtain ⟨located, hlocated, hvalues⟩ := hts q
      refine ⟨⟨v, loc⟩ :: located, ?_, by simp [hvalues]⟩
      rw [hs, hscan, map_cons, ← hlocated]
      rfl
    | cons w ts =>
      obtain ⟨loc, q, hscan⟩ := scan_spelling t p ((spelled (w :: ts)).toList ++ ['\n']) (ht v mem_cons_self) hv
        (.inl rfl)
      obtain ⟨located, hlocated, hvalues⟩ := hts (q.after ' ')
      refine ⟨⟨v, loc⟩ :: located, ?_, by simp [hvalues]⟩
      rw [toList_spelled_cons, append_assoc, cons_append, hscan, scan_gap, hlocated, map_cons]

lemma return_not_mem_spelled (ht : ∀ v ∈ tokens, v.IsPlain) : '\r' ∉ (spelled tokens).toList := by
  induction tokens with
  | nil => simp [spelled]
  | cons v ts ih =>
    have hv := return_not_mem_spelling (ht v mem_cons_self)
    cases ts with
    | nil => simpa [spelled] using hv
    | cons w ts =>
      have hts := ih fun w hw => ht w (mem_cons_of_mem _ hw)
      rw [toList_spelled_cons]
      simp [hv, hts]

/-- The lexer reads back every sequence of plain tokens that stand where they may. -/
theorem tokenize_spelled {tokens : List Token} (ht : ∀ v ∈ tokens, v.IsPlain) (hp : WellPlaced tokens)
    (name : String) : ∃ located : List (Located Token),
      (ofString (spelled tokens) name).tokenize = .ok located ∧ located.map (·.value) = tokens := by
  have hchars : (ofString (spelled tokens) name).chars = (spelled tokens).toList ++ ['\n'] := by
    have hreturn := return_not_mem_spelled ht
    simp only [ofString, append_cancel_right_eq, filter_eq_self, decide_eq_true_eq]
    rintro c hc rfl
    exact hreturn hc
  have hf (before : List Token) (v : Token) (after : List Token) (h : tokens = before ++ v :: after) :
      v.Follows ((before.getLast?.map (·.isKeyword .loadKw)).getD false) := by
    have := hp before v after h
    cases hl : before.getLast? <;> simpa [hl] using this
  obtain ⟨located, hscan, hvalues⟩ := scan_spelled (t := ofString (spelled tokens) name) (p := {}) ht hf
  refine ⟨located, tokenize_eq_ok_iff.mpr ?_, hvalues⟩
  rw [scanned, hchars]
  exact hscan

end SourceText

namespace Sample

def loadTokens : List Token :=
  [.keyword .loadKw, .path "lib", .str "\"a\r", .number (.int 500) (some .milliseconds), .punct .less]

lemma loadTokens_isPlain : ∀ v ∈ loadTokens, v.IsPlain := by
  have hpath : (Token.path "lib").IsPlain := by
    refine ⟨⟨?_, ?_⟩, ?_⟩
    · rintro c ⟨⟩
      decide
    · rintro c ⟨⟩
      decide
    · simp
  have hnumber : (Token.number (.int 500) (some .milliseconds)).IsPlain := ⟨by decide, by decide⟩
  simp only [loadTokens, forall_mem_cons]
  exact ⟨trivial, hpath, trivial, hnumber, trivial, forall_mem_nil _⟩

lemma loadTokens_wellPlaced : WellPlaced loadTokens := by
  have hfollows : (Token.keyword .loadKw).Follows false ∧ (Token.path "lib").Follows true ∧
      (Token.str "\"a\r").Follows false ∧ (Token.number (.int 500) (some .milliseconds)).Follows false ∧
      (Token.punct .less).Follows false := by
    unfold Token.Follows
    decide
  obtain ⟨h0, h1, h2, h3, h4⟩ := hfollows
  rintro before t after h
  rcases before with _ | ⟨a, _ | ⟨b, _ | ⟨c, _ | ⟨d, _ | ⟨e, before⟩⟩⟩⟩⟩ <;>
    simp only [loadTokens, nil_append, cons_append, cons.injEq] at h
  · rw [← h.1]
    exact h0
  · rw [← h.1, ← h.2.1]
    exact h1
  · rw [← h.2.1, ← h.2.2.1]
    exact h2
  · rw [← h.2.2.1, ← h.2.2.2.1]
    exact h3
  · rw [← h.2.2.2.1, ← h.2.2.2.2.1]
    exact h4
  · simp at h

theorem loadTokens_read_back : (∀ v ∈ loadTokens, v.IsPlain) ∧ WellPlaced loadTokens ∧
    spelled loadTokens = "load <lib> \"\\\"a\\r\" 500ms <" ∧
    ∃ located : List (Located Token),
      (SourceText.ofString (spelled loadTokens) "main").tokenize = .ok located ∧ located.map (·.value) = loadTokens :=
  ⟨loadTokens_isPlain, loadTokens_wellPlaced, by decide +kernel,
    SourceText.tokenize_spelled loadTokens_isPlain loadTokens_wellPlaced "main"⟩

end Sample

end SketchCompiler
