import Mathlib
import SketchCompiler.Sketch.Expr

namespace SketchCompiler

open List

variable {s : List Char}

namespace TargetString

def isOctal (c : Char) : Bool := '0' ≤ c && c ≤ '7'

def octalDigits (cs : List Char) : List Char := (cs.take 3).takeWhile isOctal

def octalValue (ds : List Char) : Nat := ds.foldl (fun n c => 8 * n + (c.toNat - '0'.toNat)) 0

def simpleEscape? : Char → Option Char
  | '\\' => some '\\'
  | '"' => some '"'
  | 'n' => some '\n'
  | 'r' => some '\r'
  | 't' => some '\t'
  | _ => none

/-- The character that the text behind a backslash stands for, and the length of that text. -/
def escape? (cs : List Char) : Option (Char × Nat) :=
  match octalDigits cs with
  | [] => (cs.head?.bind simpleEscape?).map (·, 1)
  | ds => some (Char.ofNat (octalValue ds), ds.length)

/-- The characters up to the quote at the end of the text, behind the next `skip` ones. -/
def body? : (skip : Nat) → List Char → Option (List Char)
  | _, [] => none
  | skip + 1, _ :: cs => body? skip cs
  | 0, c :: cs =>
    if c = '"' then if cs = [] then some [] else none
    else if c = '\n' then none
    else if c = '\\' then (escape? cs).bind fun x => (body? x.2 cs).map (x.1 :: ·)
    else (body? 0 cs).map (c :: ·)

def decode? (literal : String) : Option String :=
  match literal.toList with
  | '"' :: cs => (body? 0 cs).map String.ofList
  | _ => none

/-- A character zero stands right before an octal digit. -/
def ZeroMeetsDigit (s : List Char) : Prop := ∃ d, isOctal d ∧ ['\x00', d] <:+: s

lemma zeroMeetsDigit_cons {c} : ZeroMeetsDigit (c :: s) ↔ (c = '\x00' ∧ s.head?.any isOctal) ∨ ZeroMeetsDigit s := by
  simp only [ZeroMeetsDigit, infix_cons_iff, cons_prefix_cons, and_or_left, exists_or]
  refine or_congr_left ?_
  cases s with
  | nil => simp
  | cons x s =>
    simp only [cons_prefix_cons, nil_prefix, and_true, head?_cons, Option.any_some]
    constructor
    · rintro ⟨d, hd, rfl, rfl⟩
      exact ⟨rfl, hd⟩
    · rintro ⟨rfl, hx⟩
      exact ⟨x, hx, rfl, rfl⟩

def written (s : List Char) : List Char := s.flatMap escapeTargetChar ++ ['"']

lemma written_cons (c : Char) (s : List Char) : written (c :: s) = escapeTargetChar c ++ written s := by
  simp [written]

lemma body?_written_of_ne {c} (hc : c ≠ '\x00') (s : List Char) :
    body? 0 (written (c :: s)) = (body? 0 (written s)).map (c :: ·) := by
  rw [written_cons]
  unfold escapeTargetChar
  split
  case h_6 => exact absurd rfl hc
  case h_7 hquote hslash hline _ _ _ => rw [singleton_append, body?, if_neg hquote, if_neg hline, if_neg hslash]
  all_goals rfl

lemma escapeTargetChar_of_isOctal {d} (hd : isOctal d) : escapeTargetChar d = [d] := by
  unfold escapeTargetChar
  split
  case h_7 => rfl
  all_goals exact absurd hd (by decide)

/-- The octal digits that the escape of a zero goes on with. -/
def merged (s : List Char) : List Char := (s.take 2).takeWhile isOctal

lemma merged_written (s : List Char) : merged (written s) = merged s := by
  have hstep (n : Nat) (s : List Char) : ((written s).take n).takeWhile isOctal = (s.take n).takeWhile isOctal := by
    induction n generalizing s with
    | zero => rfl
    | succ n ih =>
      cases s with
      | nil => simp [written, isOctal]
      | cons c s =>
        by_cases hc : isOctal c
        · simp [written_cons, escapeTargetChar_of_isOctal hc, hc, ih]
        · have hfirst : ((escapeTargetChar c).head?.any isOctal) = false ∧ escapeTargetChar c ≠ [] := by
            unfold escapeTargetChar
            split <;> simp_all [isOctal]
          obtain ⟨x, xs, hx⟩ := exists_cons_of_ne_nil hfirst.2
          have hx' : isOctal x = false := by simpa [hx] using hfirst.1
          simp [written_cons, hx, hx', hc]
  exact hstep 2 s

lemma body?_skip {n : Nat} (hn : n ≤ s.length) (hs : ∀ d ∈ s.take n, isOctal d) :
    body? n (written s) = body? 0 (written (s.drop n)) := by
  induction n generalizing s with
  | zero => rfl
  | succ n ih =>
    cases s with
    | nil => simp at hn
    | cons d s =>
      rw [take_succ_cons] at hs
      rw [written_cons, escapeTargetChar_of_isOctal (hs d mem_cons_self), singleton_append, body?, drop_succ_cons]
      exact ih (by simpa using hn) fun x hx => hs x (mem_cons_of_mem _ hx)

lemma length_merged_le (s : List Char) : (merged s).length ≤ s.length :=
  ((IsPrefix.length_le <| takeWhile_prefix _).trans (length_take_le' 2 s))

lemma isOctal_of_mem_take_merged {d} (hd : d ∈ s.take (merged s).length) : isOctal d := by
  have hpre : merged s <+: s := (IsPrefix.trans <| takeWhile_prefix _) <| take_prefix 2 s
  rw [← prefix_iff_eq_take.mp hpre] at hd
  exact mem_takeWhile_imp hd

lemma body?_written_zero (s : List Char) : body? 0 (written ('\x00' :: s)) =
    (body? 0 (written (s.drop (merged s).length))).map (Char.ofNat (octalValue (merged s)) :: ·) := by
  have hdigits : octalDigits ('0' :: written s) = '0' :: merged s := by
    rw [← merged_written s]
    rfl
  have hescape : escape? ('0' :: written s) =
      some (Char.ofNat (octalValue (merged s)), (merged s).length + 1) := by
    rw [escape?, hdigits]
    rfl
  have hskip := body?_skip (length_merged_le s) fun d hd => isOctal_of_mem_take_merged hd
  calc body? 0 (written ('\x00' :: s))
    _ = (escape? ('0' :: written s)).bind fun x => (body? x.2 ('0' :: written s)).map (x.1 :: ·) := rfl
    _ = (body? (merged s).length (written s)).map (Char.ofNat (octalValue (merged s)) :: ·) := by
      rw [hescape]
      rfl
    _ = _ := by rw [hskip]

lemma merged_eq_nil_iff (s : List Char) : merged s = [] ↔ s.head?.any isOctal = false := by
  cases s with
  | nil => simp [merged]
  | cons c s => by_cases hc : isOctal c <;> simp [merged, hc]

lemma exists_body?_written (s : List Char) : ∃ v, body? 0 (written s) = some v ∧ v.length ≤ s.length ∧
    (ZeroMeetsDigit s → v.length < s.length) ∧ (¬ ZeroMeetsDigit s → v = s) := by
  induction hlen : s.length using Nat.strongRecOn generalizing s with
  | ind n ih =>
    cases s with
    | nil => exact ⟨[], rfl, Nat.zero_le _, by simp [ZeroMeetsDigit], fun _ => rfl⟩
    | cons c s =>
      rw [length_cons] at hlen
      by_cases hc : c = '\x00'
      · subst hc
        obtain ⟨v, hv, hle, hlt, heq⟩ := ih _ (by simp; omega) (s.drop (merged s).length) rfl
        rw [length_drop] at hle hlt
        have hmerged := length_merged_le s
        refine ⟨_, by rw [body?_written_zero, hv]; rfl, by simp; omega, fun hmeets => ?_, fun hnot => ?_⟩
        · rw [length_cons]
          by_cases hnil : merged s = []
          · rw [hnil, length_nil, drop_zero] at hlt
            have hrest := (zeroMeetsDigit_cons.mp hmeets).resolve_left
              fun h => by simp [(merged_eq_nil_iff s).mp hnil] at h
            have := hlt hrest
            omega
          · have := length_pos_iff.mpr hnil
            omega
        · obtain ⟨hhead, hrest⟩ := not_or.mp (zeroMeetsDigit_cons.not.mp hnot)
          have hnil : merged s = [] := (merged_eq_nil_iff s).mpr (by simpa using hhead)
          rw [hnil, length_nil, drop_zero] at heq
          rw [heq hrest, hnil]
          rfl
      · obtain ⟨v, hv, hle, hlt, heq⟩ := ih s.length (by omega) s rfl
        have hmeets : ZeroMeetsDigit (c :: s) ↔ ZeroMeetsDigit s := by simp [zeroMeetsDigit_cons, hc]
        refine ⟨c :: v, by rw [body?_written_of_ne hc, hv]; rfl, by simp; omega, fun h => ?_, fun h => ?_⟩
        · have := hlt (hmeets.mp h)
          simp
          omega
        · rw [heq (hmeets.not.mp h)]

end TargetString

open TargetString in
/-- A string is written as one literal, which has the value of the string exactly if no zero meets an octal digit. -/
theorem Literal.decode?_str_code (s : String) :
    ∃ v, decode? (Literal.str s).code = some v ∧ (v = s ↔ ¬ ZeroMeetsDigit s.toList) := by
  obtain ⟨v, hv, -, hlt, heq⟩ := exists_body?_written s.toList
  have hcode : (Literal.str s).code.toList = '"' :: written s.toList := by
    rw [Literal.code, String.toList_ofList]
    rfl
  refine ⟨String.ofList v, ?_, ?_⟩
  · rw [decode?, hcode]
    simp [hv]
  · constructor
    · rintro rfl hmeets
      rw [String.toList_ofList] at hlt hmeets
      exact absurd (hlt hmeets) (lt_irrefl _)
    · intro hnot
      rw [heq hnot, String.ofList_toList]

namespace Sample

/-- A zero and the digit one become the one character with code 1. -/
theorem zero_meets_one : (Literal.str "\x001").code = "\"\\01\"" ∧
    ∃ v, TargetString.decode? "\"\\01\"" = some v ∧ v ≠ "\x001" := by
  have hcode : (Literal.str "\x001").code = "\"\\01\"" := by decide
  obtain ⟨v, hv, hiff⟩ := Literal.decode?_str_code "\x001"
  rw [hcode] at hv
  refine ⟨hcode, v, hv, fun hsame => hiff.mp hsame ⟨'1', by decide, ?_⟩⟩
  exact infix_rfl

end Sample

end SketchCompiler
