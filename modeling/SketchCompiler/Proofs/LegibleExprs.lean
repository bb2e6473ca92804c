import SketchCompiler.Proofs.PinKeys
import SketchCompiler.Proofs.TargetForms

namespace SketchCompiler

open List Node

lemma toBits_ofBits_lt {u : UInt64} (h : u.toNat < 2 ^ 63) : (Float.ofBits u).toBits.toNat < 2 ^ 63 := by
  have hbits : (Float.ofBits u).toBits.toBitVec = Float.Model.UnpackedFloat.pack Float.Model.Format.binary64
      (Float.Model.UnpackedFloat.unpack Float.Model.Format.binary64 u.toBitVec) := rfl
  have hpack := @Float.Model.UnpackedFloat.pack_unpack Float.Model.Format.binary64 u.toBitVec (by decide)
  rw [← UInt64.toNat_toBitVec, hbits, hpack]
  split
  · decide
  · exact h

lemma nearestBits_lt (n d : Nat) : Binary.nearestBits n d < 2 ^ 63 := by
  unfold Binary.nearestBits
  split
  · decide
  · exact (Nat.min_le_right _ _).trans_lt (by decide)

lemma not_negative_floatOfDigits (whole fraction : List Char) :
    (Binary.ofFloat (floatOfDigits whole fraction)).negative = false := by
  have hbits := nearestBits_lt (natOfDigits 10 (whole ++ fraction)) (pow10 fraction.length)
  have hword : (Binary.nearestBits (natOfDigits 10 (whole ++ fraction))
      (pow10 fraction.length)).toUInt64.toNat < 2 ^ 63 := by
    rw [Nat.toUInt64, UInt64.toNat_ofNat']
    exact (Nat.mod_le _ _).trans_lt hbits
  exact decide_eq_false (Nat.not_le.mpr (toBits_ofBits_lt hword))

lemma isNumeral_digits {digits rest} (hd : IsRun Char.isDigit digits)
    (hr : ∀ c ∈ rest, c.isDigit ∨ c = '.') : IsNumeral (String.ofList (digits ++ rest)) := by
  obtain ⟨hne, hd⟩ := hd
  obtain ⟨c, digits, rfl⟩ := exists_cons_of_ne_nil hne
  have hword {x : Char} (hx : x.isDigit) : isWordChar x := by simp [isWordChar, Char.isAlphanum, hx]
  obtain ⟨hc, hd⟩ := forall_mem_cons.mp hd
  refine ⟨c, digits ++ rest, by simp, hc, fun x hx => ?_⟩
  rcases mem_append.mp hx with hx | hx
  · exact .inl (hword (hd x hx))
  · exact (hr x hx).imp_left hword

lemma isRun_toDigits (n : Nat) : IsRun Char.isDigit (Nat.toDigits 10 n) :=
  ⟨Nat.toDigits_ne_nil, fun _ => Nat.isDigit_of_mem_toDigits (by decide) (by decide)⟩

lemma isNumeral_whole (n : Nat) : IsNumeral (toString n ++ ".0") := by
  have htext : toString n ++ ".0" = String.ofList (Nat.toDigits 10 n ++ ['.', '0']) := by
    apply String.toList_injective
    rw [String.toList_append, show toString n = n.repr from rfl, Nat.toList_repr]
    exact String.toList_ofList.symm
  rw [htext]
  exact isNumeral_digits (isRun_toDigits n) (by simp)

lemma isNumeral_positional (n places : Nat) : IsNumeral (positional n places) := by
  unfold positional
  extract_lets short digits
  have hdigits : ∀ c ∈ digits, c.isDigit := by
    intro c hc
    rcases mem_append.mp hc with hc | hc
    · rw [eq_of_mem_replicate hc]
      decide
    · exact (isRun_toDigits n).2 c hc
  have hlength : places + 1 ≤ digits.length := by
    simp only [digits, length_append, length_replicate]
    omega
  refine isNumeral_digits ⟨?_, fun c hc => hdigits c (mem_of_mem_take hc)⟩ ?_
  · rw [ne_eq, take_eq_nil_iff]
    rintro (h | h)
    · omega
    · simp [h] at hlength
  · exact forall_mem_cons.mpr ⟨.inr rfl, fun c hc => .inl (hdigits c (mem_of_mem_drop hc))⟩

lemma Rounding.isNumeral_shortest (r : Rounding) (left places : Nat) : IsNumeral (r.shortest left places) := by
  induction left generalizing places with
  | zero => exact isNumeral_positional _ _
  | succ left ih =>
    rw [shortest]
    split
    · exact isNumeral_positional _ _
    · exact ih _

lemma floatText_of_not_negative {x} (h : (Binary.ofFloat x).negative = false) :
    IsNumeral (floatText x) ∨ IsWord (floatText x).toList := by
  unfold floatText
  split
  · exact .inr ⟨'N', ['a', 'N'], rfl, rfl, all_eq_true.mp (by decide)⟩
  · simp only [h, Bool.false_eq_true, if_false, String.empty_append]
    split
    · exact .inr ⟨'i', ['n', 'f'], rfl, rfl, all_eq_true.mp (by decide)⟩
    · left
      split
      · exact isNumeral_whole _
      · split
        · exact isNumeral_whole _
        · exact Rounding.isNumeral_shortest _ _ _

lemma Token.IsSpelled.number_text {v : Number} {unit} (h : (Token.number v unit).IsSpelled) :
    IsNumeral v.text ∨ IsWord v.text.toList := by
  have hint (m : Nat) : IsNumeral (Number.int m).text := by
    have hm := isNumeral_digits (isRun_toDigits m) (forall_mem_nil _)
    rw [append_nil] at hm
    have htext : (Number.int m).text = String.ofList (Nat.toDigits 10 m) := by
      rw [← toList_text_int, String.ofList_toList]
    rwa [htext]
  obtain ⟨lexeme, h⟩ := h
  cases h with
  | decimal _ hd hn => exact .inl (hint _)
  | hexadecimal _ _ hd hn => exact .inl (hint _)
  | float _ hw hf => exact floatText_of_not_negative (not_negative_floatOfDigits _ _)

mutual

/-- Literals, names, operations, calls, members, subscripts and conversions, and no calls that are lowered. -/
def Expr.operational (k : Scene) : Expr → Bool
  | .literal .. | .name .. => true
  | .binary _ a _ b => a.operational k && b.operational k
  | .unary _ _ e => e.operational k
  | .call _ callee args => callee.operational k && !k.isDeviceCall callee && operationalExprs k args
  | .member _ object _ _ => object.operational k
  | .subscript _ a i => a.operational k && i.operational k
  | .convert _ e _ => e.operational k
  | _ => false

def operationalExprs (k : Scene) : List Expr → Bool
  | [] => true
  | e :: es => e.operational k && operationalExprs k es

end

/-- What the node holds can be written, what it stands for has a path, and it is a path itself if that has members. -/
structure Node.IsLegible (k : Scene) (n : Node) : Prop where
  words : ∀ x ∈ n.words, IsWord x.toList
  number : ∀ v, n.number? = some v → IsNumeral v.text ∨ IsWord v.text.toList
  path : ∀ e id, n = .expr e → e.symbol? = some id → IsPath (k.table.qualifiedName id "::")
  owner : ∀ e id, n = .expr e → e.symbol? = some id → (k.table.kind id).hasMembers → e.isPath k

section Paths

lemma IsPath.append {s w : String} (hs : IsPath s) (hw : IsWord w.toList) : IsPath (s ++ "::" ++ w) := by
  obtain ⟨words, hne, hwords, rfl⟩ := hs
  refine ⟨words ++ [w], by simp, forall_mem_append.mpr ⟨hwords, by simpa using hw⟩, ?_⟩
  obtain ⟨x, words, rfl⟩ := exists_cons_of_ne_nil hne
  apply String.toList_inj.mp
  rw [cons_append, String.toList_append, String.toList_append, toList_intercalate_cons, toList_intercalate_cons]
  simp

open TargetReader

lemma TypeName.isPath_code {t : TypeName} (h : ∀ x ∈ t.path, IsWord x.toList) : IsPath t.code := by
  unfold code
  split
  · exact isPath_of_isWord ⟨'u', "int8_t".toList, rfl, rfl, all_eq_true.mp (by decide)⟩
  · split
    · exact isPath_of_isWord ⟨'S', "tring".toList, rfl, rfl, all_eq_true.mp (by decide)⟩
    · exact ⟨t.path, by simp [path], h, rfl⟩

variable {k : Scene}

lemma Scene.exists_owner {o : Expr} {symbol} (h : k.isQualified o symbol) :
    ∃ id, o.symbol? = some id ∧ (k.table.kind id).hasMembers := by
  unfold isQualified at h
  split at h
  case h_1 hk =>
    obtain ⟨id, hid, hkind⟩ := Option.map_eq_some_iff.mp hk
    exact ⟨id, hid, by rw [hkind]; rfl⟩
  case h_2 hk =>
    obtain ⟨id, hid, hkind⟩ := Option.map_eq_some_iff.mp hk
    exact ⟨id, hid, by rw [hkind]; rfl⟩
  case h_3 => cases h

lemma Node.IsLegible.isPath_reference {l} {r} (h : (expr (.name l r)).IsLegible k) : IsPath (k.reference r) := by
  have hword : IsPath r.name.text := isPath_of_isWord (h.words _ (mem_singleton_self _))
  unfold Scene.reference
  split
  case h_1 id hid =>
    split
    · exact h.path _ id rfl hid
    · exact hword
  case h_2 => exact hword

lemma Expr.isPath_code : ∀ {e : Expr}, e.isPath k → (∀ n ∈ (expr e).nodes, n.IsLegible k) → IsPath (e.code k)
  | .name l r, _, h => (h _ mem_nodes_self).isPath_reference
  | .member l o field symbol, hp, h => by
    have hself := h _ mem_nodes_self
    have ho (n : Node) (hn : n ∈ (expr o).nodes) : n.IsLegible k :=
      h n (mem_nodes_iff.mpr (.inr ⟨_, mem_singleton_self _, hn⟩))
    simp only [isPath, Bool.and_eq_true] at hp
    have hcode := isPath_code hp.2 ho
    rw [code]
    unfold Scene.member
    split
    · cases hp.2
    · split
      case h_1 id _ => exact hself.path _ id rfl rfl
      case h_2 => exact hcode.append (hself.words _ (mem_singleton_self _))
      case h_3 hmodule henum =>
        obtain ⟨hq, -⟩ := hp
        simp_all [Scene.isQualified]

end Paths

section Legible

variable {k : Scene}

mutual

lemma Expr.legible_of_nodes (e : Expr) (he : e.operational k) (h : ∀ n ∈ (expr e).nodes, n.IsLegible k) :
    e.Legible k := by
  have hself := h _ mem_nodes_self
  have below {c : Node} (hc : c ∈ (expr e).children) (n : Node) (hn : n ∈ c.nodes) : n.IsLegible k :=
    h n (mem_nodes_iff.mpr (.inr ⟨c, hc, hn⟩))
  cases e with
  | literal l v =>
    cases v with
    | number n u => exact .number (hself.number n rfl)
    | bool b => exact .bool
    | str s => exact .str
  | name l r => exact .name (hself.words _ (mem_singleton_self _)) hself.isPath_reference
  | binary l a op b =>
    simp only [Expr.operational, Bool.and_eq_true] at he
    exact .binary (a.legible_of_nodes he.1 (below (by simp [children])))
      (b.legible_of_nodes he.2 (below (by simp [children])))
  | unary l op e => exact .unary (e.legible_of_nodes he (below (mem_singleton_self _)))
  | call l callee args =>
    simp only [Expr.operational, Bool.and_eq_true, Bool.not_eq_true'] at he
    refine .call (callee.legible_of_nodes he.1.1 (below mem_cons_self)) he.1.2 ?_
    exact legible_exprs args he.2 fun e he => below (mem_cons_of_mem _ (mem_map_of_mem he))
  | member l o field symbol =>
    have ho := below (mem_singleton_self _)
    by_cases hq : k.isQualified o symbol
    · obtain ⟨id, hid, hmem⟩ := Scene.exists_owner hq
      have hpath := (ho _ mem_nodes_self).owner o id rfl hid hmem
      exact .qualified hq hpath (Expr.isPath_code (by simp [Expr.isPath, hq, hpath]) h)
    · exact .member (o.legible_of_nodes he ho) (by simpa using hq) (hself.words _ (mem_singleton_self _))
  | subscript l a i =>
    simp only [Expr.operational, Bool.and_eq_true] at he
    exact .subscript (a.legible_of_nodes he.1 (below (by simp [children])))
      (i.legible_of_nodes he.2 (below (by simp [children])))
  | convert l e type =>
    exact .convert (e.legible_of_nodes he (below (mem_singleton_self _))) (TypeName.isPath_code hself.words)
  | _ => cases he

lemma legible_exprs (es : List Expr) (he : operationalExprs k es)
    (h : ∀ e ∈ es, ∀ n ∈ (expr e).nodes, n.IsLegible k) : ∀ e ∈ es, e.Legible k := by
  cases es with
  | nil => exact forall_mem_nil _
  | cons e es =>
    simp only [operationalExprs, Bool.and_eq_true] at he
    obtain ⟨hhead, htail⟩ := forall_mem_cons.mp h
    exact forall_mem_cons.mpr ⟨e.legible_of_nodes he.1 hhead, legible_exprs es he.2 htail⟩

end

end Legible

lemma Node.IsFresh.symbol?_eq_none {e : Expr} (h : (expr e).IsFresh) : e.symbol? = none := by
  cases e with
  | name l r => exact h.1 _ (mem_singleton_self _)
  | member l o field symbol => exact h.2.2.2.2.2
  | _ => rfl

namespace Program

variable {p q : Program} {k : Scene} {n : Node}

lemma Read.isLegible (hp : p.Read) (hn : n ∈ (unit p).nodes) : n.IsLegible k := by
  have hfresh := hp.fresh n hn
  obtain ⟨-, -, -, hwords, hnumber, -⟩ := id hfresh
  have hnone (e : Expr) (he : n = .expr e) : e.symbol? = none := Node.IsFresh.symbol?_eq_none (he ▸ hfresh)
  refine ⟨hwords, fun v hv => ?_, fun e id he hid => ?_, fun e id he hid => ?_⟩
  · obtain ⟨unit, hv⟩ := hnumber v hv
    exact hv.number_text
  · cases (hnone e he).symm.trans hid
  · cases (hnone e he).symm.trans hid

lemma Read.isPath_of_hasMembers (hp : p.Read) (h : p.resolveNames = (q, .ok k.table)) (e : Expr) {id}
    (he : .expr e ∈ (unit q).nodes) (hid : e.symbol? = some id) (hm : (k.table.kind id).hasMembers) : e.isPath k := by
  cases e with
  | name l r => rfl
  | member l o field symbol =>
    cases hid
    obtain ⟨a, ha⟩ := mem_nodes.mp he
    obtain ⟨-, i, hmem, hi⟩ := hp.member_found h ha
    -- The scope of the member is that of the members of a module, and so its object is the module.
    have hmodule : k.table.kind i = .moduleAlias := by
      have hscope := (membersScoped h i _ hmem).2
      rw [SymbolKind.membersScope] at hscope
      split at hscope
      · assumption
      · exact absurd hscope (outerOpen h id (SymbolKind.isOuter_of_hasMembers hm)).2
    have ho : o.symbol? = some i := by
      rcases hi with hclass | hi
      · cases hmodule.symm.trans hclass
      · exact hi
    have hq : k.isQualified o (some id) := by simp [Scene.isQualified, ho, hmodule]
    have hnode := mem_nodes_of_mem_children he (mem_singleton_self (expr o))
    rw [Expr.isPath, hq, hp.isPath_of_hasMembers h o hnode ho (by rw [hmodule]; rfl)]
    rfl
  | _ => cases hid

lemma Read.isLegible_resolved (hp : p.Read) (h : p.resolveNames = (q, .ok k.table)) (hn : n ∈ (unit q).nodes) :
    n.IsLegible k := by
  refine ⟨fun x hx => hp.isWord_of_mem h hn hx, fun v hv => ?_, fun e id he hid => ?_, fun e id he hid hm => ?_⟩
  · obtain ⟨unit, hv⟩ := hp.isSpelled_of_number h hn hv
    exact hv.number_text
  · subst he
    refine ⟨k.table.qualifiedPath id, by simp [SymbolTable.qualifiedPath], ?_, rfl⟩
    rw [SymbolTable.qualifiedPath, forall_mem_append, forall_mem_singleton]
    exact ⟨hp.wordPaths h _, hp.isWord_symbol h hn hid⟩
  · subst he
    exact hp.isPath_of_hasMembers h e hn hid hm

lemma Read.legible {e : Expr} (hp : p.Read) (hq : q = p ∨ p.resolveNames = (q, .ok k.table))
    (he : .expr e ∈ (unit q).nodes) (ho : e.operational k) : e.Legible k := by
  refine e.legible_of_nodes ho fun n hn => ?_
  rcases hq with rfl | h
  · exact hp.isLegible (mem_nodes_trans he hn)
  · exact hp.isLegible_resolved h (mem_nodes_trans he hn)

end Program

end SketchCompiler
