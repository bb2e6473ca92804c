import Mathlib.Data.List.Induction
import SketchCompiler.Proofs.DeviceUses
import SketchCompiler.Proofs.Sample
import SketchCompiler.Proofs.TableGrowth

namespace SketchCompiler

open List

variable {loc : Location} {d : Device} {method : String} {found : Nat} {k : Target} {us : List DeviceUse}

/-- The methods that write a duty cycle, with their arguments. -/
def Device.writesDuty (d : Device) (method : String) (found : Nat) : Bool :=
  (d, method, found) ∈ [(.led, "set", 1), (.pwm, "write", 1), (.pwm, "off", 0)]

lemma Device.writesDuty_eq {m} (h : d.method? method = some (m, found)) : d.writesDuty method found = d.usesPwm m := by
  have hall : ∀ x ∈ d.methods, d.writesDuty x.1.name x.2 = d.usesPwm x.1 := by cases d <;> decide
  have hn : m.name = method := by simpa using find?_some h
  rw [← hn]
  exact hall (m, found) (mem_of_find?_eq_some h)

lemma Device.method?_of_writesDuty (h : d.writesDuty method found) : ∃ m, d.method? method = some (m, found) := by
  simp only [writesDuty, decide_eq_true_eq, mem_cons, Prod.mk.injEq, not_mem_nil, or_false] at h
  rcases h with ⟨rfl, rfl, rfl⟩ | ⟨rfl, rfl, rfl⟩ | ⟨rfl, rfl, rfl⟩
  · exact ⟨.set, by decide⟩
  · exact ⟨.write, by decide⟩
  · exact ⟨.off, by decide⟩

namespace DeviceUse

section Needs

variable (t : SymbolTable)

/-- The instance that a use declares, as long as it has no channel: a variable, not a field, on exactly one pin. -/
def declared? : DeviceUse → Option (SymbolId × Instance)
  | declare (some id) device _ [pin] =>
    if (t.scope (t.get id).scope).kind = .members then none
    else some (id, { device, pin, key := (pin.pinKey? t).getD s!"{device.name}#{id}" })
  | _ => none

/-- The last declaration of an instance. -/
def latest (us : List DeviceUse) (id : SymbolId) : Option Instance := (us.filterMap (declared? t)).reverse.lookup id

/-- The instance that an object stands for. -/
def instanceOf? (earlier : List DeviceUse) (object : Expr) : Option Instance := object.symbol?.bind (latest t earlier)

/-- The key for which the next use needs a duty cycle. -/
def need? (earlier : List DeviceUse) : DeviceUse → Option String
  | call _ object method found => do
    let i ← instanceOf? t earlier object
    if i.device.writesDuty method.text found then some i.key else none
  | u => do
    let (_, i) ← u.declared? t
    if i.device = .pwm then some i.key else none

def needsAfter (earlier : List DeviceUse) : List DeviceUse → List String
  | [] => []
  | u :: us => (u.need? t earlier).toList ++ needsAfter (earlier ++ [u]) us

def needs (us : List DeviceUse) : List String := needsAfter t [] us

/-- Whether the next use is well made: a declaration that declares an instance, or a call with all arguments of a method
that the device has. -/
def Suits (earlier : List DeviceUse) : DeviceUse → Prop
  | call _ object method found => ∀ i, instanceOf? t earlier object = some i →
      ∃ m, i.device.method? method.text = some (m, found)
  | u => (u.declared? t).isSome

def AllSuit (us : List DeviceUse) : Prop := ∀ earlier u later, us = earlier ++ u :: later → u.Suits t earlier

variable {t} {us : List DeviceUse} {u : DeviceUse} {id : SymbolId}

lemma latest_concat_of_none (h : u.declared? t = none) : latest t (us ++ [u]) id = latest t us id := by
  simp [latest, h]

lemma latest_concat_of_some {id'} {i} (h : u.declared? t = some (id', i)) :
    latest t (us ++ [u]) id = if id = id' then some i else latest t us id := by
  simp only [latest, filterMap_append, filterMap_cons, h, filterMap_nil, reverse_append,
    reverse_cons, reverse_nil, nil_append, cons_append, lookup_cons]
  by_cases hi : id = id'
  · simp [hi]
  · simp [hi, beq_eq_false_iff_ne.mpr hi]

lemma needsAfter_append (earlier vs : List DeviceUse) :
    needsAfter t earlier (us ++ vs) = needsAfter t earlier us ++ needsAfter t (earlier ++ us) vs := by
  induction us generalizing earlier with
  | nil => simp [needsAfter]
  | cons u us ih => simp [needsAfter, ih]

lemma needs_concat : needs t (us ++ [u]) = needs t us ++ (u.need? t us).toList := by
  rw [needs, needsAfter_append]
  simp [needs, needsAfter]

lemma allSuit_concat : AllSuit t (us ++ [u]) ↔ AllSuit t us ∧ u.Suits t us := by
  constructor
  · intro h
    refine ⟨fun earlier v later he => h earlier v (later ++ [u]) (by simp [he]), h us u [] rfl⟩
  · rintro ⟨h, hu⟩ earlier v later he
    rcases eq_nil_or_concat later with rfl | ⟨later, w, rfl⟩
    · obtain ⟨rfl, hv⟩ := append_inj' he rfl
      obtain rfl : u = v := singleton_inj.mp hv
      exact hu
    · refine h earlier v later ?_
      have he' : us ++ [u] = (earlier ++ v :: later) ++ [w] := by simpa using he
      exact (append_inj' he' rfl).1

end Needs

end DeviceUse

namespace HardwarePlan

variable {p : HardwarePlan} {id : SymbolId} {i : Instance}

lemma instance?_insert (p : HardwarePlan) (id id' : SymbolId) (i : Instance) :
    (p.insert id i).instance? id' = if id' = id then some i else p.instance? id' :=
  lookup_replaced

lemma instanceOf?_eq_some_iff {object : Expr} :
    p.instanceOf? object = some (id, i) ↔ object.symbol? = some id ∧ p.instance? id = some i := by
  simp only [instanceOf?, Option.bind_eq_bind, Option.bind_eq_some_iff, Option.pure_def, Option.some.injEq,
    Prod.mk.injEq]
  grind

def assign (p : HardwarePlan) (id : SymbolId) (i : Instance) (c : Nat) : HardwarePlan :=
  p.insert id { i with channel := some c }

def addChannel (p : HardwarePlan) (key : String) : HardwarePlan :=
  { p with channels := p.channels ++ [(key, p.channels.length)] }

lemma mem_insert {x : SymbolId × Instance} :
    x ∈ (p.insert id i).instances ↔ x ∈ p.instances ∧ x.1 ≠ id ∨ x = (id, i) := by
  simp [insert]

end HardwarePlan

/-- The number of channels that there are for keys. -/
def Target.limit (k : Target) : Nat := k.board.pwmChannels?.getD 255

namespace Plan

variable {device : Device} {symbol : Option SymbolId} {args : List Expr}

def after (x : Plan Unit) (s : Planning) : Planning := (x.run s).run.2

attribute [local simp] after allocate report declareDevice Option.filter

variable {k : Target} {s : Planning} {id : SymbolId} {i : Instance}

lemma allocate_cases (loc : Location) (hf : s.plan.family = .espChannel) (hi : s.plan.instance? id = some i) :
    (∃ c, i.channel = some c ∧ (allocate k id loc).after s = s) ∨
    (∃ c, i.channel = none ∧ s.plan.channels.lookup i.key = some c ∧ (allocate k id loc).after s =
      { s with plan := s.plan.assign id i c }) ∨
    (i.channel = none ∧ s.plan.channels.lookup i.key = none ∧ k.limit ≤ s.plan.channels.length ∧
      (allocate k id loc).after s = { s with errors := s.errors.push ⟨.outOfChannels k.board k.limit, loc⟩ }) ∨
    (i.channel = none ∧ s.plan.channels.lookup i.key = none ∧ s.plan.channels.length < k.limit ∧
      (allocate k id loc).after s =
        { s with plan := (s.plan.addChannel i.key).assign id i s.plan.channels.length }) := by
  cases hc : i.channel with
  | some c =>
    refine .inl ⟨c, rfl, ?_⟩
    simp [hf, hi, hc]
  | none =>
    cases hl : s.plan.channels.lookup i.key with
    | some c =>
      refine .inr (.inl ⟨c, rfl, rfl, ?_⟩)
      simp [channelFor, hf, hi, hc, hl, HardwarePlan.assign]
    | none =>
      by_cases hle : k.limit ≤ s.plan.channels.length
      · refine .inr (.inr (.inl ⟨rfl, rfl, hle, ?_⟩))
        rw [Target.limit] at hle
        simp [channelFor, hf, hi, hc, hl, hle, Target.limit]
      · refine .inr (.inr (.inr ⟨rfl, rfl, not_le.mp hle, ?_⟩))
        rw [Target.limit] at hle
        simp [channelFor, hf, hi, hc, hl, hle, HardwarePlan.assign, HardwarePlan.addChannel]

lemma useMethod_of_not {method : Name} {found} (h : ¬ ∃ m, device.method? method.text = some (m, found)) :
    ∃ e, (useMethod k id device method found loc).after s = { s with errors := s.errors.push e } := by
  cases hm : device.method? method.text with
  | none => exact ⟨⟨.unknownMethod device method.text, method.loc⟩, by simp [useMethod, hm]⟩
  | some x =>
    obtain ⟨m, expected⟩ := x
    have hne : expected ≠ found := by
      rintro rfl
      exact h ⟨m, hm⟩
    exact ⟨⟨.arity device method.text expected found, loc⟩, by simp [useMethod, hm, hne]⟩

lemma declareDevice_of_none (h : (DeviceUse.declare symbol device loc args).declared? k.table = none) :
    ∃ e, (declareDevice k symbol device loc args).after s = { s with errors := s.errors.push e } := by
  rcases symbol with _ | id
  · exact ⟨⟨.instantiation device, loc⟩, rfl⟩
  · by_cases hk : (k.table.scope (k.table.get id).scope).kind = .members
    · exact ⟨⟨.instantiation device, loc⟩, by simp [hk]⟩
    · refine ⟨⟨.pinArity device args.length, loc⟩, ?_⟩
      rcases args with _ | ⟨pin, _ | ⟨_, _⟩⟩
      · simp [hk]
      · simp [DeviceUse.declared?, hk] at h
      · simp [hk]

lemma declareDevice_of_some (h : (DeviceUse.declare symbol device loc args).declared? k.table = some (id, i)) :
    i.channel = none ∧ (declareDevice k symbol device loc args).after s =
      if i.device = .pwm then (allocate k id i.pin.loc).after { s with plan := s.plan.insert id i }
      else { s with plan := s.plan.insert id i } := by
  rcases symbol with _ | id'
  · cases h
  · rcases args with _ | ⟨pin, _ | ⟨_, _⟩⟩
    · cases h
    · by_cases hk : (k.table.scope (k.table.get id').scope).kind = .members
      · simp [DeviceUse.declared?, hk] at h
      · obtain ⟨rfl, rfl⟩ : id' = id ∧ _ = i := by simpa [DeviceUse.declared?, hk] using h
        refine ⟨rfl, ?_⟩
        by_cases hp : device = .pwm <;> simp [hk, addInstance, hp]
    · cases h

lemma allocate_of_ne (hf : s.plan.family ≠ .espChannel) : (allocate k id loc).after s = s := by
  cases hf' : s.plan.family with
  | espChannel => exact absurd hf' hf
  | _ => simp [hf']

end Plan

/-- What planning keeps: the first keys have their numbers, as many as there are channels, and an instance with a
channel has that of its key. There is no error just as long as the uses suit and the keys are not too many. -/
structure Planning.Holds (k : Target) (suits : Prop) (keys : List String) (s : Planning) : Prop where
  family : s.plan.family = k.board.family
  listed : ∀ x ∈ s.plan.instances, s.plan.instance? x.1 = some x.2
  distinct : keys.Nodup
  channels : s.plan.channels = (keys.take k.limit).zipIdx
  own : ∀ id i c, s.plan.instance? id = some i → i.channel = some c → (keys.take k.limit)[c]? = some i.key
  errors : s.errors = #[] ↔ suits ∧ keys.length ≤ k.limit

namespace Planning.Holds

open HardwarePlan

variable {k : Target} {suits : Prop} {keys : List String} {s : Planning} {id : SymbolId} {i : Instance} {key : String}

variable (h : s.Holds k suits keys)

include h

lemma insert (id : SymbolId) (hi : ∀ c, i.channel = some c → (keys.take k.limit)[c]? = some i.key) :
    Holds k suits keys { s with plan := s.plan.insert id i } where
  family := h.family
  listed := by
    intro x hx
    rw [instance?_insert]
    rcases mem_insert.mp hx with ⟨hx, hne⟩ | rfl
    · rw [if_neg hne]
      exact h.listed x hx
    · rw [if_pos rfl]
  distinct := h.distinct
  channels := h.channels
  own := by
    intro id' i' c hi' hc
    rw [instance?_insert] at hi'
    split at hi'
    · cases hi'
      exact hi c hc
    · exact h.own id' i' c hi' hc
  errors := h.errors

lemma report (e : Located HardwareError) : Holds k False keys { s with errors := s.errors.push e } where
  family := h.family
  listed := h.listed
  distinct := h.distinct
  channels := h.channels
  own := h.own
  errors := by simp

lemma exceed (hk : key ∉ keys) (hle : k.limit ≤ keys.length) (e : Located HardwareError) :
    Holds k suits (keys ++ [key]) { s with errors := s.errors.push e } where
  family := h.family
  listed := h.listed
  distinct := nodup_append.mpr ⟨h.distinct, nodup_singleton _, by grind⟩
  channels := by rw [take_append_of_le_length hle, ← h.channels]
  own := by
    rw [take_append_of_le_length hle]
    exact h.own
  errors := by
    have hlt : k.limit < (keys ++ [key]).length := by
      rw [length_append, length_singleton]
      exact Nat.lt_succ_of_le hle
    simp [-length_append, hlt]

lemma addChannel (hk : key ∉ keys) (hlt : keys.length < k.limit) :
    Holds k suits (keys ++ [key]) { s with plan := s.plan.addChannel key } where
  family := h.family
  listed := h.listed
  distinct := nodup_append.mpr ⟨h.distinct, nodup_singleton _, by grind⟩
  channels := by
    have hc : s.plan.channels = keys.zipIdx := by rw [h.channels, take_of_length_le hlt.le]
    rw [take_of_length_le (by simpa using Nat.succ_le_of_lt hlt), HardwarePlan.addChannel, hc, zipIdx_append]
    simp
  own := by
    intro id i c hi hc
    have ho := h.own id i c hi hc
    rw [take_of_length_le hlt.le] at ho
    rw [take_of_length_le (by simpa using Nat.succ_le_of_lt hlt),
      getElem?_append_left (lt_of_getElem? ho)]
    exact ho
  errors := by
    rw [h.errors]
    simp [hlt.le, Nat.succ_le_of_lt hlt]

lemma lookup_eq_some_iff {c} : s.plan.channels.lookup key = some c ↔ (keys.take k.limit)[c]? = some key := by
  have hd : (keys.take k.limit).Nodup := h.distinct.sublist (take_sublist _ _)
  rw [h.channels, SymbolTable.lookup_eq_some_iff (by rwa [zipIdx_map_fst]), mem_zipIdx_iff_getElem?]

lemma length_channels : s.plan.channels.length = min k.limit keys.length := by
  rw [h.channels, length_zipIdx, length_take]

lemma not_mem_take (hl : s.plan.channels.lookup key = none) : key ∉ keys.take k.limit := by
  intro hm
  obtain ⟨c, hc⟩ := mem_iff_getElem?.mp hm
  rw [h.lookup_eq_some_iff.mpr hc] at hl
  cases hl

lemma allocate (loc : Location) (hf : k.board.family = .espChannel) (hi : s.plan.instance? id = some i) :
    Holds k suits (if i.key ∈ keys then keys else keys ++ [i.key]) ((Plan.allocate k id loc).after s) ∧
      (∀ id', id' ≠ id → ((Plan.allocate k id loc).after s).plan.instance? id' = s.plan.instance? id') ∧
      ∃ c, ((Plan.allocate k id loc).after s).plan.instance? id = some { i with channel := c } ∧
        (((Plan.allocate k id loc).after s).errors = #[] → c.isSome) := by
  rcases Plan.allocate_cases (k := k) loc (h.family.trans hf) hi with ⟨c, hc, he⟩ | ⟨c, hc, hl, he⟩ |
    ⟨hc, hl, hle, he⟩ | ⟨hc, hl, hlt, he⟩ <;> rw [he]
  · have hm : i.key ∈ keys := mem_of_mem_take (mem_of_getElem? (h.own id i c hi hc))
    rw [if_pos hm]
    exact ⟨h, fun _ _ => rfl, some c, by rw [hi, ← hc], fun _ => rfl⟩
  · have ho := h.lookup_eq_some_iff.mp hl
    rw [if_pos (mem_of_mem_take (mem_of_getElem? ho))]
    refine ⟨h.insert id ?_, ?_, some c, ?_, fun _ => rfl⟩
    · rintro _ ⟨⟩
      exact ho
    · intro id' hne
      exact (instance?_insert ..).trans (if_neg hne)
    · exact (instance?_insert ..).trans (if_pos rfl)
  · have hm := h.not_mem_take hl
    rw [h.length_channels] at hle
    have hle' : k.limit ≤ keys.length := by omega
    refine ⟨?_, fun _ _ => rfl, none, by rw [hi, ← hc], by simp⟩
    split
    case isTrue hk =>
      -- The key is beyond the last channel, so there are too many keys already.
      have hlt : k.limit < keys.length := by
        by_contra hn
        exact hm (by rwa [take_of_length_le (not_lt.mp hn)])
      have hr := h.report ⟨.outOfChannels k.board k.limit, loc⟩
      exact { hr with errors := by simp [hlt] }
    case isFalse hk => exact h.exceed hk hle' _
  · have hm := h.not_mem_take hl
    have hlen := h.length_channels
    have hlt' : keys.length < k.limit := by omega
    rw [take_of_length_le hlt'.le] at hm
    have hc' : s.plan.channels.length = keys.length := by omega
    rw [if_neg hm, hc']
    refine ⟨(h.addChannel hm hlt').insert id ?_, ?_, some keys.length, ?_, fun _ => rfl⟩
    · rintro _ ⟨⟩
      rw [take_of_length_le (by simpa using Nat.succ_le_of_lt hlt')]
      simp
    · intro id' hne
      exact (instance?_insert ..).trans (if_neg hne)
    · exact (instance?_insert ..).trans (if_pos rfl)

end Planning.Holds

section FirstNeeds

variable {α : Type} [BEq α] [LawfulBEq α]

lemma eraseDups_concat (xs : List α) (x : α) :
    (xs ++ [x]).eraseDups = if x ∈ xs.eraseDups then xs.eraseDups else xs.eraseDups ++ [x] := by
  rw [eraseDups_append, List.removeAll]
  by_cases hx : x ∈ xs
  · simp [hx, mem_eraseDups]
  · simp [hx, mem_eraseDups, eraseDups_cons]

end FirstNeeds

/-- The keys that get channels, in the order in which they are first needed. -/
def Target.keys (k : Target) (us : List DeviceUse) : List String :=
  if k.board.family = .espChannel then (DeviceUse.needs k.table us).eraseDups else []

namespace Target

variable {k : Target} {us : List DeviceUse} {u : DeviceUse} {key : String}

lemma keys_of_ne (hf : k.board.family ≠ .espChannel) : k.keys us = [] := if_neg hf

lemma keys_concat_of_none (hu : u.need? k.table us = none) : k.keys (us ++ [u]) = k.keys us := by
  rw [keys, keys, DeviceUse.needs_concat, hu, Option.toList_none, append_nil]

lemma keys_concat_of_some (hf : k.board.family = .espChannel) (hu : u.need? k.table us = some key) :
    k.keys (us ++ [u]) = if key ∈ k.keys us then k.keys us else k.keys us ++ [key] := by
  simp only [keys, if_pos hf, DeviceUse.needs_concat, hu, Option.toList_some, eraseDups_concat]

end Target

def Instance.withoutChannel (i : Instance) : Instance := { i with channel := none }

structure Planning.Follows (k : Target) (us : List DeviceUse) (s : Planning) : Prop where
  holds : s.Holds k (DeviceUse.AllSuit k.table us) (k.keys us)
  instances : ∀ id, (s.plan.instance? id).map (·.withoutChannel) = DeviceUse.latest k.table us id
  served : s.errors = #[] → k.board.family = .espChannel → ∀ id i, s.plan.instance? id = some i → i.device = .pwm →
    i.channel.isSome

namespace Planning.Follows

open DeviceUse HardwarePlan

variable {k : Target} {us : List DeviceUse} {s : Planning} {u : DeviceUse}

lemma idle (h : s.Follows k us) (hd : u.declared? k.table = none) (hn : u.need? k.table us = none)
    (hs : u.Suits k.table us) : s.Follows k (us ++ [u]) where
  holds := by
    rw [Target.keys_concat_of_none hn]
    have he := h.holds.errors
    exact { h.holds with errors := by rw [he, allSuit_concat, and_iff_left hs] }
  instances := by
    intro id
    rw [latest_concat_of_none hd]
    exact h.instances id
  served := h.served

lemma report (h : s.Follows k us) (hd : u.declared? k.table = none) (hn : u.need? k.table us = none)
    (hs : ¬ u.Suits k.table us) (e : Located HardwareError) :
    Follows k (us ++ [u]) { s with errors := s.errors.push e } where
  holds := by
    rw [Target.keys_concat_of_none hn]
    have hr := h.holds.report e
    exact { hr with errors := by simp [allSuit_concat, hs] }
  instances := by
    intro id
    rw [latest_concat_of_none hd]
    exact h.instances id
  served := by simp

lemma allocate {id} {i : Instance}
    (h : s.Holds k (DeviceUse.AllSuit k.table us) (k.keys us)) (hi : s.plan.instance? id = some i)
    (hs : u.Suits k.table us) (hn : u.need? k.table us = some i.key)
    (hd : ∀ id, (s.plan.instance? id).map (·.withoutChannel) = DeviceUse.latest k.table (us ++ [u]) id)
    (hp : s.errors = #[] → k.board.family = .espChannel → ∀ id' i, s.plan.instance? id' = some i → id' ≠ id →
      i.device = .pwm → i.channel.isSome) : Follows k (us ++ [u]) ((Plan.allocate k id loc).after s) := by
  by_cases hf : k.board.family = .espChannel
  · obtain ⟨ha, hother, c, hown, hc⟩ := h.allocate loc hf hi
    have herr : ((Plan.allocate k id loc).after s).errors = #[] → s.errors = #[] := by
      rw [ha.errors, h.errors]
      rintro ⟨hall, hle⟩
      refine ⟨hall, le_trans ?_ hle⟩
      split <;> simp
    refine ⟨?_, ?_, ?_⟩
    · rw [Target.keys_concat_of_some hf hn]
      exact { ha with errors := by rw [ha.errors, allSuit_concat, and_iff_left hs] }
    · intro id'
      rw [← hd id']
      by_cases he : id' = id
      · rw [he, hown, hi]
        rfl
      · rw [hother id' he]
    · intro he _ id' i' hi' hpwm
      by_cases hid : id' = id
      · rw [hid, hown] at hi'
        cases hi'
        exact hc he
      · rw [hother id' hid] at hi'
        exact hp (herr he) hf id' i' hi' hid hpwm
  · have ha : (Plan.allocate k id loc).after s = s := Plan.allocate_of_ne (h.family ▸ hf)
    rw [ha]
    refine ⟨?_, hd, fun _ hf' => absurd hf' hf⟩
    rw [Target.keys_of_ne hf] at h ⊢
    exact { h with errors := by rw [h.errors, allSuit_concat, and_iff_left hs] }

lemma instanceOf?_eq (h : s.Follows k us) (object : Expr) :
    (s.plan.instanceOf? object).map (·.2.withoutChannel) = DeviceUse.instanceOf? k.table us object := by
  rw [DeviceUse.instanceOf?, HardwarePlan.instanceOf?]
  cases object.symbol? with
  | none => rfl
  | some id =>
    simp only [Option.bind_eq_bind, Option.bind_some, ← h.instances id]
    cases s.plan.instance? id <;> rfl

lemma called {object} {method} {found} (h : s.Follows k us) : Follows k (us ++ [.call loc object method found])
      ((Plan.useCallee k found (.member loc object method none)).after s) := by
  have hd : (DeviceUse.call loc object method found).declared? k.table = none := rfl
  have hl := h.instanceOf?_eq object
  cases hi : s.plan.instanceOf? object with
  | none =>
    rw [hi, Option.map_none] at hl
    have ha : (Plan.useCallee k found (.member loc object method none)).after s = s := by
      simp [Plan.after, Plan.useCallee, hi]
    rw [ha]
    exact h.idle hd (by simp [need?, ← hl]) (by simp [Suits, ← hl])
  | some x =>
    obtain ⟨id, i⟩ := x
    rw [hi, Option.map_some] at hl
    have ha : (Plan.useCallee k found (.member loc object method none)).after s =
        (Plan.useMethod k id i.device method found loc).after s := by
      simp [Plan.after, Plan.useCallee, hi]
    have hn : (DeviceUse.call loc object method found).need? k.table us =
        if i.device.writesDuty method.text found then some i.key else none := by
      simp [need?, ← hl, Instance.withoutChannel]
    have hs : (DeviceUse.call loc object method found).Suits k.table us ↔
        ∃ m, i.device.method? method.text = some (m, found) := by
      simp [Suits, ← hl, Instance.withoutChannel]
    rw [ha]
    by_cases hm : ∃ m, i.device.method? method.text = some (m, found)
    · obtain ⟨m, hm'⟩ := hm
      rw [Device.writesDuty_eq hm'] at hn
      cases hp : i.device.usesPwm m with
      | true =>
        have hu : (Plan.useMethod k id i.device method found loc).after s = (Plan.allocate k id loc).after s := by
          simp [Plan.useMethod, hm', hp]
        rw [hu]
        have hi' := (instanceOf?_eq_some_iff.mp hi).2
        refine allocate h.holds hi' (hs.mpr ⟨m, hm'⟩) (by simp [hn, hp]) ?_ ?_
        · intro id'
          rw [latest_concat_of_none hd]
          exact h.instances id'
        · intro he hf id' i' hi' _
          exact h.served he hf id' i' hi'
      | false =>
        have hu : (Plan.useMethod k id i.device method found loc).after s = s := by
          simp [Plan.after, Plan.useMethod, hm', hp]
        rw [hu]
        exact h.idle hd (by simp [hn, hp]) (hs.mpr ⟨m, hm'⟩)
    · have hw : i.device.writesDuty method.text found = false := by
        by_contra hw
        exact hm (Device.method?_of_writesDuty (by simpa using hw))
      obtain ⟨e, hu⟩ : ∃ e, (Plan.useMethod k id i.device method found loc).after s =
          { s with errors := s.errors.push e } := Plan.useMethod_of_not hm
      rw [hu]
      exact h.report hd (by simp [hn, hw]) (fun hs' => hm (hs.mp hs')) e

lemma declared {symbol} {device} {args} (h : s.Follows k us) : Follows k (us ++ [.declare symbol device loc args])
      ((Plan.declareDevice k symbol device loc args).after s) := by
  cases hd : (DeviceUse.declare symbol device loc args).declared? k.table with
  | none =>
    obtain ⟨e, hu⟩ := Plan.declareDevice_of_none (s := s) hd
    rw [hu]
    exact h.report hd (by simp [need?, hd]) (by simp [Suits, hd]) e
  | some x =>
    obtain ⟨id, i⟩ := x
    obtain ⟨hc, hu⟩ := Plan.declareDevice_of_some (s := s) hd
    have hs : (DeviceUse.declare symbol device loc args).Suits k.table us := by simp [Suits, hd]
    have hn : (DeviceUse.declare symbol device loc args).need? k.table us =
        if i.device = .pwm then some i.key else none := by
      simp [need?, hd]
    have hins : ∀ id', ((s.plan.insert id i).instance? id').map (·.withoutChannel) =
        DeviceUse.latest k.table (us ++ [.declare symbol device loc args]) id' := by
      intro id'
      rw [latest_concat_of_some hd, instance?_insert, ← h.instances id']
      split
      · rw [Option.map_some, Instance.withoutChannel, ← hc]
      · rfl
    have hh := h.holds.insert id (i := i) (by simp [hc])
    rw [hu]
    split
    case isTrue hp =>
      refine allocate hh ?_ hs (by rw [hn, if_pos hp]) hins ?_
      · rw [instance?_insert, if_pos rfl]
      · intro he hf id' i' hi' hne
        rw [instance?_insert, if_neg hne] at hi'
        exact h.served he hf id' i' hi'
    case isFalse hp =>
      refine ⟨?_, hins, ?_⟩
      · rw [Target.keys_concat_of_none (by rw [hn, if_neg hp])]
        exact { hh with errors := by rw [hh.errors, allSuit_concat, and_iff_left hs] }
      · intro he hf id' i' hi' hpwm
        rw [instance?_insert] at hi'
        split at hi'
        · cases hi'
          exact absurd hpwm hp
        · exact h.served he hf id' i' hi' hpwm

lemma step (h : s.Follows k us) (u : DeviceUse) : Follows k (us ++ [u]) ((u.run k).after s) := by
  cases u with
  | declare symbol device loc args => exact h.declared
  | call loc object method found => exact h.called
  | misplace device loc => exact h.report rfl rfl (by simp [Suits, DeviceUse.declared?]) _

lemma run (h : s.Follows k us) (vs : List DeviceUse) :
    Follows k (us ++ vs) ((forM vs (DeviceUse.run k) : Plan Unit).after s) := by
  induction vs generalizing us s with
  | nil => simpa [Plan.after] using h
  | cons v vs ih =>
    have hv := ih (h.step v)
    rw [append_assoc, singleton_append] at hv
    simpa [Plan.after] using hv

end Planning.Follows

/-- The channels for the uses of devices: numbered from zero on, one for each key that needs a duty cycle and in the
order of first need, and not more than the board has. -/
structure HardwarePlan.Serves (plan : HardwarePlan) (board : Board) (t : SymbolTable) (us : List DeviceUse) : Prop where
  numbered : ∀ (i : Nat) (x : String × Nat), plan.channels[i]? = some x → x.2 = i
  distinct : (plan.channels.map (·.1)).Nodup
  inOrder : board.family = .espChannel → plan.channels.map (·.1) = (DeviceUse.needs t us).eraseDups
  withinLimit : ∀ limit, board.pwmChannels? = some limit → plan.channels.length ≤ limit
  instances : ∀ id, (plan.instance? id).map (·.withoutChannel) = DeviceUse.latest t us id
  ownChannel : ∀ x ∈ plan.instances, ∀ c, x.2.channel = some c → plan.channels[c]? = some (x.2.key, c)
  served : board.family = .espChannel → ∀ x ∈ plan.instances, x.2.device = .pwm → ∃ c, x.2.channel = some c
  direct : board.family ≠ .espChannel → plan.channels = [] ∧ ∀ x ∈ plan.instances, x.2.channel = none

lemma Planning.Follows.serves {s : Planning} (h : s.Follows k us) (he : s.errors = #[]) :
    s.plan.Serves k.board k.table us := by
  obtain ⟨-, hle⟩ := h.holds.errors.mp he
  have hc : s.plan.channels = (k.keys us).zipIdx := by rw [h.holds.channels, take_of_length_le hle]
  have hk : s.plan.channels.map (·.1) = k.keys us := by rw [hc, zipIdx_map_fst]
  have hown : ∀ x ∈ s.plan.instances, ∀ c, x.2.channel = some c → s.plan.channels[c]? = some (x.2.key, c) := by
    intro x hx c hxc
    have ho := h.holds.own x.1 x.2 c (h.holds.listed x hx) hxc
    rw [h.holds.channels, getElem?_zipIdx, ho]
    simp
  refine ⟨?_, ?_, ?_, ?_, h.instances, hown, ?_, ?_⟩
  · intro i x hx
    rw [hc, getElem?_zipIdx] at hx
    obtain ⟨key, -, rfl⟩ := Option.map_eq_some_iff.mp hx
    exact Nat.zero_add i
  · rw [hk]
    exact h.holds.distinct
  · intro hf
    rw [hk, Target.keys, if_pos hf]
  · intro limit hl
    rw [hc, length_zipIdx]
    rwa [Target.limit, hl, Option.getD_some] at hle
  · intro hf x hx hp
    exact Option.isSome_iff_exists.mp (h.served he hf x.1 x.2 (h.holds.listed x hx) hp)
  · intro hf
    have hnil : s.plan.channels = [] := by rw [hc, Target.keys_of_ne hf, zipIdx_nil]
    refine ⟨hnil, fun x hx => ?_⟩
    cases hxc : x.2.channel with
    | none => rfl
    | some c =>
      have ho := hown x hx c hxc
      rw [hnil] at ho
      cases ho

lemma Target.length_keys_le_iff : ¬ (k.keys us).length ≤ k.limit ↔ ∃ limit, k.board.pwmChannels? = some limit ∧
    limit < (DeviceUse.needs k.table us).eraseDups.length := by
  have hs := k.board.pwmChannels?_isSome
  cases hl : k.board.pwmChannels? with
  | none =>
    have hf : k.board.family ≠ .espChannel := by simpa [hl] using hs
    simp [keys_of_ne hf]
  | some limit =>
    have hf : k.board.family = .espChannel := by simpa [hl] using hs
    simp [keys, hf, Target.limit, hl]

namespace Program

def deviceUses (p : Program) : List DeviceUse := (Node.unit p).uses

def planningStart (board : Board) : Planning := { plan := { family := board.family } }

attribute [local simp] planningStart Target.keys DeviceUse.needs DeviceUse.needsAfter HardwarePlan.instance?

lemma follows_start (k : Target) : (planningStart k.board).Follows k [] where
  holds := {
    family := rfl
    listed := by simp
    distinct := by simp
    channels := by simp
    own := by simp
    errors := by simp [DeviceUse.AllSuit] }
  instances := by simp [DeviceUse.latest]
  served := by simp

lemma follows_plan (p : Program) (k : Target) : ((p.plan k).after (planningStart k.board)).Follows k p.deviceUses := by
  have h := (follows_start k).run p.deviceUses
  rwa [nil_append, deviceUses, ← Node.plan_eq_uses] at h

lemma planHardware_eq (p : Program) (t : SymbolTable) (c : BoardConfig) : p.planHardware t c =
    let s := (p.plan ⟨t, c.board⟩).after (planningStart c.board)
    if s.errors.isEmpty then .ok s.plan else .error s.errors.toList := rfl

/-- Channels are given in the order of first need, and planning fails only for uses that do not suit, or for more keys
than channels. -/
theorem planHardware_serves_needs (p : Program) (t : SymbolTable) (c : BoardConfig) :
    (∀ plan, p.planHardware t c = .ok plan → plan.Serves c.board t p.deviceUses) ∧
    ((∃ errors, p.planHardware t c = .error errors) ↔ ¬ DeviceUse.AllSuit t p.deviceUses ∨
      ∃ limit, c.board.pwmChannels? = some limit ∧
        limit < (DeviceUse.needs t p.deviceUses).eraseDups.length) := by
  have h := p.follows_plan ⟨t, c.board⟩
  rw [planHardware_eq]
  refine ⟨?_, ?_⟩
  · intro plan hp
    simp only at hp
    split at hp
    case isTrue he =>
      cases hp
      exact h.serves (Array.isEmpty_iff.mp he)
    case isFalse => cases hp
  · rw [← Target.length_keys_le_iff (k := ⟨t, c.board⟩), ← not_and_or, ← h.holds.errors, ← Array.isEmpty_iff]
    simp only
    split <;> simp_all

end Program

namespace Sample

def deviceOn (device text : String) (pin : Int) : Item :=
  .var default { mutableVar device text with
    initializer := some (.new default (type device) [.literal default (.number (.int pin) none)]) }

def dimming : Program := unit [
  deviceOn "Led" "lamp" 2, deviceOn "Pwm" "a" 3, deviceOn "Pwm" "b" 4, deviceOn "Pwm" "c" 5, deviceOn "Pwm" "d" 3,
  deviceOn "Pwm" "e" 6, deviceOn "Pwm" "f" 7, deviceOn "Pwm" "g" 8,
  .event default .start [.expr default
    (.call default (.member default (use "lamp") (name "set") none) [.literal default (.number (.int 10) none)])]]

def dimmingOn (board : Board) : Except (List (Located HardwareError)) HardwarePlan :=
  dimming.resolveNames.1.planHardware (tableOf dimming) { board }

lemma dimmingOn_channels : (dimmingOn .esp32).toOption.map (·.channels) =
    some [("3", 0), ("4", 1), ("5", 2), ("6", 3), ("7", 4), ("8", 5), ("2", 6)] := by decide +kernel

lemma dimmingOn_small : (dimmingOn .esp32c3).toOption.isNone := by decide +kernel

/-- The pin of the lamp comes last, though it is declared first, and is one too many for a small board. -/
theorem dimming_served : ∃ plan errors, dimmingOn .esp32 = .ok plan ∧ dimmingOn .esp32c3 = .error errors ∧
    plan.Serves .esp32 (tableOf dimming) dimming.resolveNames.1.deviceUses ∧
    DeviceUse.AllSuit (tableOf dimming) dimming.resolveNames.1.deviceUses ∧
    6 < (DeviceUse.needs (tableOf dimming) dimming.resolveNames.1.deviceUses).eraseDups.length := by
  have hlarge := dimmingOn_channels
  have hsmall := dimmingOn_small
  cases hp : dimmingOn .esp32 with
  | error e => simp [hp, Except.toOption] at hlarge
  | ok plan =>
    cases he : dimmingOn .esp32c3 with
    | ok plan => simp [he, Except.toOption] at hsmall
    | error errors =>
      have hl := Program.planHardware_serves_needs dimming.resolveNames.1 (tableOf dimming) { board := .esp32 }
      have hs := Program.planHardware_serves_needs dimming.resolveNames.1 (tableOf dimming) { board := .esp32c3 }
      -- What can be planned on one board suits on all.
      have hsuit : DeviceUse.AllSuit (tableOf dimming) dimming.resolveNames.1.deviceUses := by
        by_contra hn
        obtain ⟨errors, hf⟩ := hl.2.mpr (.inl hn)
        cases hp.symm.trans hf
      rcases hs.2.mp ⟨errors, he⟩ with hn | ⟨limit, hlimit, hlt⟩
      · exact absurd hsuit hn
      · cases hlimit
        exact ⟨plan, errors, rfl, rfl, hl.1 plan hp, hsuit, hlt⟩

end Sample

end SketchCompiler
