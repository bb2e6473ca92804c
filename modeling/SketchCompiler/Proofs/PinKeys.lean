import SketchCompiler.Proofs.DeviceCalls
import SketchCompiler.Proofs.FoundMembers

namespace SketchCompiler

open List Node

/-- What a pin is known by. -/
inductive PinKey where
  | number (n : Int)
  | declared (path : List String)
  | own (device : Device) (id : SymbolId)

namespace PinKey

def text : PinKey → String
  | number n => toString n
  | declared path => String.intercalate "." path
  | own device id => s!"{device.name}#{id}"

def Spelled : PinKey → Prop
  | declared path => path ≠ [] ∧ ∀ x ∈ path, IsWord x.toList
  | _ => True

section Texts

variable {s c : Char} {xs path : List String}

lemma intercalate_inj {ys} (hx : xs ≠ []) (hy : ys ≠ []) (hxs : ∀ x ∈ xs, s ∉ x.toList)
    (hys : ∀ y ∈ ys, s ∉ y.toList) (h : (String.singleton s).intercalate xs = (String.singleton s).intercalate ys) :
    xs = ys := by
  have hl := congrArg String.toList h
  rw [String.toList_intercalate, String.toList_intercalate, String.toList_singleton] at hl
  have hs := congrArg (List.splitOn s) hl
  rw [splitOn_intercalate s (by simpa using hxs) (by simpa using hx),
    splitOn_intercalate s (by simpa using hys) (by simpa using hy)] at hs
  exact map_injective_iff.mpr (fun _ _ => String.toList_injective) hs

lemma mem_intercalate (h : c ∈ ((String.singleton s).intercalate xs).toList) : c = s ∨ ∃ x ∈ xs, c ∈ x.toList := by
  rw [String.toList_intercalate, String.toList_singleton] at h
  induction xs with
  | nil => cases h
  | cons x xs ih =>
    cases xs with
    | nil => exact .inr ⟨x, mem_singleton_self x, by simpa using h⟩
    | cons y xs =>
      simp only [map_cons, intercalate_cons_cons, append_assoc, mem_append, mem_singleton] at h
      rcases h with h | h | h
      · exact .inr ⟨x, mem_cons_self, h⟩
      · exact .inl h
      · exact (ih h).imp_right (Exists.imp fun z hz => ⟨mem_cons_of_mem _ hz.1, hz.2⟩)

lemma isWordChar_of_mem {cs} (h : IsWord cs) {c} (hc : c ∈ cs) : isWordChar c := by
  obtain ⟨d, r, rfl, hd, hr⟩ := h
  rcases mem_cons.mp hc with rfl | hc
  · exact isWordChar_of_isWordStart hd
  · exact hr c hc

lemma mem_text_number {n : Int} {c : Char} (h : c ∈ (number n).text.toList) : c = '-' ∨ c.isDigit := by
  have hn {m : Nat} (hc : c ∈ m.repr.toList) : c.isDigit := by
    rw [Nat.toList_repr] at hc
    exact Nat.isDigit_of_mem_toDigits (by decide) (by decide) hc
  cases n with
  | ofNat m => exact .inr (hn h)
  | negSucc m =>
    have hc : c ∈ ("-" ++ (m + 1).repr).toList := h
    rw [String.toList_append, mem_append] at hc
    rcases hc with hc | hc
    · exact .inl (by simpa using hc)
    · exact .inr (hn hc)

lemma mem_text_declared (hp : (declared path).Spelled) (h : c ∈ (declared path).text.toList) :
    c = '.' ∨ isWordChar c := by
  rcases mem_intercalate (s := '.') h with rfl | ⟨x, hx, hc⟩
  · exact .inl rfl
  · exact .inr (isWordChar_of_mem (hp.2 x hx) hc)

lemma text_own (device : Device) (id : SymbolId) :
    (own device id).text = (String.singleton '#').intercalate [device.name, toString id] := by
  have hname : toString device.name = device.name := rfl
  have hmark : toString "#" = "#" := rfl
  apply String.toList_injective
  simp [text, hname, hmark]

lemma exists_head_declared (hp : (declared path).Spelled) :
    ∃ c, (declared path).text.toList.head? = some c ∧ isWordStart c := by
  obtain ⟨hne, hw⟩ := hp
  cases path with
  | nil => exact absurd rfl hne
  | cons x xs =>
    obtain ⟨c, r, hx, hc, -⟩ := hw x mem_cons_self
    refine ⟨c, ?_, hc⟩
    rw [text, String.toList_intercalate]
    cases xs with
    | nil => simp [hx]
    | cons y ys => simp [intercalate_cons_cons, hx]

lemma hash_mem_own (device : Device) (id : SymbolId) : '#' ∈ (own device id).text.toList := by
  rw [text_own]
  simp

lemma hash_not_mem_number (n : Int) : '#' ∉ (number n).text.toList := by
  intro h
  have hd := mem_text_number h
  revert hd
  decide

end Texts

section Apart

variable {n : Int} {path : List String} (hp : (declared path).Spelled) (device : Device) (id : SymbolId)

lemma text_number_ne_own : (number n).text ≠ (own device id).text := by
  intro he
  exact hash_not_mem_number n (he ▸ hash_mem_own device id)

include hp

lemma text_number_ne_declared : (number n).text ≠ (declared path).text := by
  intro he
  obtain ⟨c, hc, hw⟩ := exists_head_declared hp
  rw [← he] at hc
  rcases mem_text_number (mem_of_head? hc) with rfl | hd
  · cases hw
  · cases (not_isWordStart_of_isDigit hd).symm.trans hw

lemma text_declared_ne_own : (declared path).text ≠ (own device id).text := by
  intro he
  have hm := hash_mem_own device id
  rw [← he] at hm
  have hd := mem_text_declared hp hm
  revert hd
  decide

lemma dot_not_mem_declared : ∀ x ∈ path, '.' ∉ x.toList := by
  intro x hx hm
  cases isWordChar_of_mem (hp.2 x hx) hm

end Apart

lemma text_own_inj {device device'} {id id'} (h : (own device id).text = (own device' id').text) :
    own device id = own device' id' := by
  have free (d : Device) (i : SymbolId) : ∀ x ∈ [d.name, toString i], '#' ∉ x.toList := by
    simp only [mem_cons, not_mem_nil, or_false, forall_eq_or_imp, forall_eq]
    exact ⟨by cases d <;> decide, hash_not_mem_number i⟩
  rw [text_own, text_own] at h
  have hl := intercalate_inj (by simp) (by simp) (free device id) (free device' id') h
  simp only [List.cons.injEq, and_true] at hl
  obtain ⟨hname, hid⟩ := hl
  have hd : device = device' := by
    revert hname
    cases device <;> cases device' <;> decide
  rw [hd, Nat.repr_inj.mp hid]

lemma text_inj {k k' : PinKey} (hk : k.Spelled) (hk' : k'.Spelled) (h : k.text = k'.text) : k = k' := by
  cases k with
  | number n =>
    cases k' with
    | number n' => exact congrArg number (Int.repr_injective h)
    | declared path' => exact absurd h (text_number_ne_declared hk')
    | own device' id' => exact absurd h (text_number_ne_own device' id')
  | declared path =>
    cases k' with
    | number n' => exact absurd h.symm (text_number_ne_declared hk)
    | declared path' =>
      exact congrArg declared
        (intercalate_inj hk.1 hk'.1 (dot_not_mem_declared hk) (dot_not_mem_declared hk') h)
    | own device' id' => exact absurd h (text_declared_ne_own hk device' id')
  | own device id =>
    cases k' with
    | number n' => exact absurd h.symm (text_number_ne_own device id)
    | declared path' => exact absurd h.symm (text_declared_ne_own hk' device id)
    | own device' id' => exact text_own_inj h

end PinKey

def Expr.integer? : Expr → Option Int
  | literal _ (.number (.int n) _) => some n
  | _ => none

lemma Expr.pinKey?_eq (t : SymbolTable) (e : Expr) :
    e.pinKey? t = (e.integer?.map toString).or (e.symbol?.map (t.qualifiedName · ".")) := by
  cases e with
  | literal l v =>
    cases v with
    | number n u => cases n <;> rfl
    | _ => rfl
  | name l r => cases r.symbol <;> rfl
  | member l o n s => cases s <;> rfl
  | _ => rfl

def Instance.pinKey (i : Instance) (t : SymbolTable) (id : SymbolId) : PinKey :=
  match i.pin.integer?, i.pin.symbol? with
  | some n, _ => .number n
  | none, some declared => .declared (t.qualifiedPath declared)
  | none, none => .own i.device id

lemma Instance.text_pinKey {i : Instance} {t} {id}
    (h : i.key = (i.pin.pinKey? t).getD s!"{i.device.name}#{id}") : (i.pinKey t id).text = i.key := by
  rw [h, Expr.pinKey?_eq, pinKey]
  split
  case h_1 n hn => rw [hn]; rfl
  case h_2 d hn hd => rw [hn, hd]; rfl
  case h_3 hn hd => rw [hn, hd]; rfl

section Words

open SymbolTable

/-- The aliases of modules are words. -/
def SymbolTable.WordPaths (t : SymbolTable) : Prop := ∀ s, ∀ x ∈ (t.scope s).path, IsWord x.toList

lemma SymbolTable.WordPaths.push {t : SymbolTable} (h : t.WordPaths) (x : Scope)
    (hx : ∀ y ∈ x.path, IsWord y.toList) : SymbolTable.WordPaths { t with scopes := t.scopes.push x } := by
  intro s y hy
  rw [scope_push] at hy
  split at hy
  · exact hx y hy
  · exact h s y hy

lemma stepsKeep_wordPaths : StepsKeep (fun x => IsWord x.toList) WordPaths where
  declare {t u name kind type s id} hd _ h := by
    intro s' x hx
    rw [(scope_of_declare hd).2] at hx
    split at hx
    · exact h s' x hx
    · exact h s' x hx
  enter t s kind h := h.push _ (h s)
  module t s name hname h := by
    refine h.push _ fun y hy => ?_
    rcases mem_append.mp hy with hy | hy
    · exact h s y hy
    · exact mem_singleton.mp hy ▸ hname
  setMembers t id m _ _ h := h

end Words

namespace Expr

variable {e : Expr} {l : Location} {type : Located TypeName} {args : List Expr}

lemma eq_new_of_clampTo {ranges} {symbol} (h : e.clampTo ranges symbol = .new l type args) : e = .new l type args := by
  unfold clampTo at h
  split at h
  · cases h
  · exact h

lemma eq_new_of_transform {f} (h : e.transform f = .new l type args) :
    ∃ args0, e = .new l type args0 ∧ args = args0.map (Expr.transform f) := by
  cases e with
  | new l' type' args0 =>
    simp only [transform, new.injEq, transformExprs_eq] at h
    obtain ⟨rfl, rfl, rfl⟩ := h
    exact ⟨args0, rfl, rfl⟩
  | _ => simp [transform] at h

end Expr

namespace Program

variable {p q r : Program} {t : SymbolTable} {ranges : RangeTable} {id : SymbolId} {e : Expr} {d : VarDecl}
  {device : Device} {l : Location} {args : List Expr}

lemma Read.wordPaths (hp : p.Read) (h : p.resolveNames = (q, .ok t)) : t.WordPaths := by
  refine stepsKeep_wordPaths.resolveNames ?_ h ?_
  · intro m hm name hname
    refine hp.isWord_of_mem h hm ?_
    unfold alias? at hname
    split at hname
    · cases hname
      exact mem_singleton_self _
    · cases hname
  · intro s x hx
    cases s with
    | zero => cases hx
    | succ s =>
      have hnone : SymbolTable.empty.scope (s + 1) = default := by simp [SymbolTable.scope, SymbolTable.empty]
      rw [hnone] at hx
      cases hx

lemma Read.isWord_symbol (hp : p.Read) (h : p.resolveNames = (q, .ok t)) (he : .expr e ∈ (unit q).nodes)
    (hid : e.symbol? = some id) : IsWord (t.get id).name.toList := by
  obtain ⟨a, ha⟩ := mem_nodes.mp he
  cases e with
  | name l ref =>
    obtain ⟨F, blockOf, -, hq, hF⟩ := unitBlocks h
    rw [(hp.name_found h hq hF ha hid).1]
    exact hp.isWord_of_mem h he (mem_singleton_self _)
  | member l o name symbol =>
    cases hid
    rw [(hp.member_found h ha).1]
    exact hp.isWord_of_mem h he (mem_singleton_self _)
  | _ => cases hid

lemma mem_nodes_of_device (hd : d ∈ q.vars) (hdev : d.device? = some (device, l, args)) (he : e ∈ args) :
    .expr e ∈ (unit q).nodes := by
  obtain ⟨type, hi, -⟩ := VarDecl.device?_eq_some hdev
  have hnew : expr (.new l type args) ∈ (var d).children := by simp [children, hi, ofExpr?]
  have harg : expr e ∈ (expr (.new l type args)).children := by simpa [children] using he
  have hv := (mem_vars (n := .unit q)).mp hd
  exact mem_nodes_of_mem_children (mem_nodes_of_mem_children hv hnew) harg

section

variable (hp : p.Read) (h : p.resolveNames = (q, .ok t)) (hr : r = q ∨ ∃ ranges, q.clampRanges = (r, .ok ranges))

include hp h hr

lemma Read.exists_pin {pin : Expr} (hd : d ∈ r.vars) (hdev : d.device? = some (device, l, args)) (hpin : pin ∈ args) :
    ∃ e, .expr e ∈ (unit q).nodes ∧ e.symbol? = pin.symbol? := by
  rcases hr with rfl | ⟨ranges, hr⟩
  · exact ⟨pin, mem_nodes_of_device hd hdev hpin, rfl⟩
  · obtain ⟨⟨qualifier, type, name, initializer, range, symbol⟩, he, rfl⟩ := hp.var_of_clamped h hr hd
    obtain ⟨type', hi, hdevice⟩ := VarDecl.device?_eq_some hdev
    cases initializer with
    | none => cases hi
    | some value =>
      obtain ⟨args1, hvalue, rfl⟩ := Expr.eq_new_of_transform (Expr.eq_new_of_clampTo (Option.some.inj hi))
      obtain ⟨args0, rfl, rfl⟩ := Expr.eq_new_of_transform (f := commonUnits) (e := value) hvalue
      rw [map_map] at hpin
      obtain ⟨e, hmem, rfl⟩ := mem_map.mp hpin
      have hdev0 : VarDecl.device? ⟨qualifier, type, name, some (.new l type' args0), range, symbol⟩ =
          some (device, l, args0) := by
        simp [VarDecl.device?, hdevice]
      refine ⟨e, mem_nodes_of_device he hdev0 hmem, ?_⟩
      rw [Function.comp_apply, symbol?_transform, symbol?_transform]

lemma Read.pinKey_of_instance {c} {plan : HardwarePlan} {i : Instance}
    (hplan : r.planHardware t c = .ok plan) (hi : plan.instance? id = some i) :
    (i.pinKey t id).text = i.key ∧ (i.pinKey t id).Spelled := by
  obtain ⟨he, rfl⟩ := planHardware_eq_ok_iff.mp hplan
  have hlatest := ((follows_start ⟨t, c.board⟩).afterAll r.deviceUses).instances id
  rw [hi] at hlatest
  obtain ⟨b, d, device, l, pin, hb, hd, hdev, -, hw⟩ := exists_var_of_latest (n := .unit r) hlatest.symm
  obtain ⟨device', pin', key, channel⟩ := i
  obtain ⟨rfl, rfl, rfl⟩ : device' = device ∧ pin' = pin ∧ _ := by
    simpa [Instance.withoutChannel] using hw
  refine ⟨Instance.text_pinKey rfl, ?_⟩
  obtain ⟨e, hmem, hsymbol⟩ := hp.exists_pin h hr (mem_vars_iff.mpr ⟨b, hb⟩) hdev (mem_singleton_self _)
  unfold Instance.pinKey
  split
  · trivial
  case h_2 declared _ hdeclared =>
    refine ⟨by simp [SymbolTable.qualifiedPath], fun x hx => ?_⟩
    rcases mem_append.mp hx with hx | hx
    · exact hp.wordPaths h _ x hx
    · rw [mem_singleton.mp hx]
      exact hp.isWord_symbol h hmem (hsymbol.trans hdeclared)
  · trivial

end

end Program

/-- The pins of two instances are the same number, or stand for declarations of one name in one unit. -/
def SamePin (t : SymbolTable) (pin pin' : Expr) : Prop :=
  (∃ n, pin.integer? = some n ∧ pin'.integer? = some n) ∨
    ∃ i j, pin.symbol? = some i ∧ pin'.symbol? = some j ∧ t.qualifiedPath i = t.qualifiedPath j

section SamePins

variable {t : SymbolTable} {id id' : SymbolId} {i i' : Instance}

lemma SamePin.pinKey_eq (h : SamePin t i.pin i'.pin) : i.pinKey t id = i'.pinKey t id' := by
  unfold Instance.pinKey
  rcases h with ⟨n, hn, hn'⟩ | ⟨j, j', hj, hj', hpath⟩
  · rw [hn, hn']
  · have none_of {e : Expr} {j : SymbolId} (he : e.symbol? = some j) : e.integer? = none := by
      cases e <;> first | rfl | cases he
    rw [none_of hj, none_of hj', hj, hj']
    exact congrArg PinKey.declared hpath

lemma SamePin.of_pinKey_eq (h : i.pinKey t id = i'.pinKey t id') : SamePin t i.pin i'.pin ∨ id = id' := by
  unfold Instance.pinKey at h
  split at h
  case h_1 n hn =>
    split at h
    case h_1 n' hn' => exact .inl (.inl ⟨n, hn, hn'.trans (congrArg some (PinKey.number.inj h).symm)⟩)
    all_goals cases h
  case h_2 j hn hj =>
    split at h
    case h_2 j' hn' hj' => exact .inl (.inr ⟨j, j', hj, hj', PinKey.declared.inj h⟩)
    all_goals cases h
  case h_3 =>
    split at h
    case h_3 => exact .inr (PinKey.own.inj h).2
    all_goals cases h

end SamePins

lemma HardwarePlan.Serves.channel_eq_iff {plan : HardwarePlan} {board} {t}
    {us} {x y : SymbolId × Instance} {m n : Nat} (h : plan.Serves board t us)
    (hx : x ∈ plan.instances) (hy : y ∈ plan.instances) (hm : x.2.channel = some m) (hn : y.2.channel = some n) :
    m = n ↔ x.2.key = y.2.key := by
  have hxm := h.ownChannel x hx m hm
  have hyn := h.ownChannel y hy n hn
  constructor
  · rintro rfl
    rw [hxm] at hyn
    exact congrArg Prod.fst (Option.some.inj hyn)
  · intro hk
    have hlt : m < (plan.channels.map (·.1)).length := by
      rw [length_map]
      exact lt_of_getElem? hxm
    refine (getElem?_inj hlt h.distinct).mp ?_
    rw [getElem?_map, getElem?_map, hxm, hyn, Option.map_some, Option.map_some, hk]

namespace Program

variable {p q r : Program} {t : SymbolTable}

/-- Two devices share a channel if and only if their pins are the same number, or declarations of one name in one unit,
whichever these are. -/
theorem planHardware_shares_channel_iff {c : BoardConfig} {plan : HardwarePlan} {x y : SymbolId × Instance} {m n : Nat}
    (hp : p.Read) (h : p.resolveNames = (q, .ok t)) (hr : r = q ∨ ∃ ranges, q.clampRanges = (r, .ok ranges))
    (hplan : r.planHardware t c = .ok plan) (hx : x ∈ plan.instances) (hy : y ∈ plan.instances)
    (hm : x.2.channel = some m) (hn : y.2.channel = some n) : m = n ↔ SamePin t x.2.pin y.2.pin ∨ x = y := by
  obtain ⟨he, hs⟩ := planHardware_eq_ok_iff.mp hplan
  have hfollows := (follows_start ⟨t, c.board⟩).afterAll r.deviceUses
  have hserves := hfollows.serves he
  have hlisted := hfollows.holds.listed
  rw [hs] at hserves hlisted
  obtain ⟨hxk, hxs⟩ := hp.pinKey_of_instance h hr hplan (hlisted x hx)
  obtain ⟨hyk, hys⟩ := hp.pinKey_of_instance h hr hplan (hlisted y hy)
  rw [hserves.channel_eq_iff hx hy hm hn, ← hxk, ← hyk]
  constructor
  · intro htext
    rcases SamePin.of_pinKey_eq (PinKey.text_inj hxs hys htext) with hsame | hid
    · exact .inl hsame
    · -- There is one instance for each number.
      have hxy : some x.2 = some y.2 := by rw [← hlisted x hx, ← hlisted y hy, hid]
      exact .inr (Prod.ext hid (Option.some.inj hxy))
  · rintro (hsame | rfl)
    · exact congrArg PinKey.text hsame.pinKey_eq
    · rfl

end Program

namespace Sample

def namesakeText : String :=
  "config \x7b board: esp32 \x7d\nfn f() \x7b\n    const int pin = 4\n    mut Pwm a = pin\n\x7d
fn g() \x7b\n    const int pin = 7\n    mut Pwm b = pin\n\x7d\nmut Pwm fan = 9"

/-- The two fans on different pins share a channel, and the third one has its own. -/
theorem namesakes_share_channel : ∃ q t r ranges plan x y z i j, (ofText namesakeText).Read ∧
    (ofText namesakeText).resolveNames = (q, .ok t) ∧ q.clampRanges = (r, .ok ranges) ∧
    r.planHardware t { board := .esp32 } = .ok plan ∧ plan.instances = [x, y, z] ∧
    x.2.channel = some 0 ∧ y.2.channel = some 0 ∧ z.2.channel = some 1 ∧
    x.2.pin.symbol? = some i ∧ y.2.pin.symbol? = some j ∧ i ≠ j ∧
    SamePin t x.2.pin y.2.pin ∧ ¬ SamePin t x.2.pin z.2.pin := by
  have hall : passes namesakeText = true ∧
      ((ofText namesakeText).resolveNames.1.clampRanges.1.planHardware (tableOf (ofText namesakeText))
        { board := .esp32 }).toOption.map (fun plan =>
          plan.instances.map fun x => (x.2.channel, x.2.pin.symbol?)) =
        some [(some 0, some 31), (some 0, some 33), (some 1, none)] := by decide +kernel
  obtain ⟨hpasses, hplan⟩ := hall
  obtain ⟨hp, h, hr⟩ := of_passes namesakeText hpasses
  obtain ⟨plan, hplan, hmap⟩ := Option.map_eq_some_iff.mp hplan
  have hok := eq_ok_of_toOption hplan
  obtain ⟨x, xs, hxs, hx, hmap⟩ := map_eq_cons_iff.mp hmap
  obtain ⟨y, ys, rfl, hy, hmap⟩ := map_eq_cons_iff.mp hmap
  obtain ⟨z, zs, rfl, hz, hmap⟩ := map_eq_cons_iff.mp hmap
  obtain rfl := map_eq_nil_iff.mp hmap
  obtain ⟨hxc, hxi⟩ := Prod.mk.inj hx
  obtain ⟨hyc, hyj⟩ := Prod.mk.inj hy
  obtain ⟨hzc, hzn⟩ := Prod.mk.inj hz
  have hxm : x ∈ plan.instances := by simp [hxs]
  have hym : y ∈ plan.instances := by simp [hxs]
  have hzm : z ∈ plan.instances := by simp [hxs]
  refine ⟨_, _, _, _, plan, x, y, z, 31, 33, hp, h, hr, hok, hxs, hxc, hyc, hzc, hxi, hyj, by decide, ?_, ?_⟩
  · have hshare := (Program.planHardware_shares_channel_iff hp h (.inr ⟨_, hr⟩) hok hxm hym hxc hyc).mp rfl
    refine hshare.resolve_right fun he => ?_
    rw [he, hyj] at hxi
    cases hxi
  · intro hsame
    have hne := (Program.planHardware_shares_channel_iff hp h (.inr ⟨_, hr⟩) hok hxm hzm hxc hzc).mpr (.inl hsame)
    cases hne

end Sample

end SketchCompiler
