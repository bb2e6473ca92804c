import SketchCompiler.Proofs.Channels
import SketchCompiler.Proofs.FieldStores
import SketchCompiler.Proofs.UseOrder

namespace SketchCompiler

open List Node

namespace DeviceUse

variable {t : SymbolTable} {us vs : List DeviceUse} {u : DeviceUse} {id : SymbolId} {i : Instance}

lemma eq_declare_of_declared? (h : u.declared? t = some (id, i)) : ∃ device l pin,
    u = .declare (some id) device l [pin] ∧ (t.scope (t.get id).scope).kind ≠ .members ∧
      i = { device, pin, key := (pin.pinKey? t).getD s!"{device.name}#{id}" } := by
  unfold declared? at h
  split at h
  · split at h
    · cases h
    · rename_i hk
      cases h
      exact ⟨_, _, _, rfl, hk, rfl⟩
  · cases h

lemma latest_append_of_not (h : ∀ u ∈ vs, ∀ i, u.declared? t ≠ some (id, i)) :
    latest t (us ++ vs) id = latest t us id := by
  induction vs using reverseRecOn with
  | nil => rw [append_nil]
  | append_singleton vs v ih =>
    rw [← append_assoc, ← ih fun u hu => h u (mem_append_left _ hu)]
    cases hv : v.declared? t with
    | none => exact latest_concat_of_none hv
    | some x =>
      obtain ⟨id', i⟩ := x
      have hne : id ≠ id' := by
        rintro rfl
        exact h v (by simp) i hv
      rw [latest_concat_of_some hv, if_neg hne]

lemma exists_of_latest (h : latest t us id = some i) : ∃ u ∈ us, u.declared? t = some (id, i) := by
  obtain ⟨before, after, hl, -⟩ := lookup_eq_some_iff.mp h
  have hm : (id, i) ∈ us.filterMap (declared? t) := by
    rw [← mem_reverse, hl]
    simp
  exact mem_filterMap.mp hm

end DeviceUse

lemma Target.length_keys_le (k : Target) (us vs : List DeviceUse) :
    (k.keys us).length ≤ (k.keys (us ++ vs)).length := by
  by_cases hf : k.board.family = .espChannel
  · induction vs using reverseRecOn with
    | nil => rw [append_nil]
    | append_singleton vs v ih =>
      rw [← append_assoc]
      refine ih.trans ?_
      cases hv : v.need? k.table (us ++ vs) with
      | none => rw [keys_concat_of_none hv]
      | some key =>
        rw [keys_concat_of_some hf hv]
        split <;> simp
  · rw [keys_of_ne hf]
    exact Nat.zero_le _

namespace Plan

variable {k : Target} {s : Planning} {id id' : SymbolId} {i : Instance} {c : Nat} {loc : Location}

attribute [local simp] after DeviceUse.run useCallee

lemma instance?_allocate (h : s.plan.instance? id = some i) (hc : i.channel = some c) :
    ((allocate k id' loc).after s).plan.instance? id = some i := by
  by_cases hf : s.plan.family = .espChannel
  · cases hi : s.plan.instance? id' with
    | none => simpa [allocate, hf, hi] using h
    | some j =>
      have hne (hj : j.channel = none) : id ≠ id' := by
        rintro rfl
        cases h.symm.trans hi
        cases hc.symm.trans hj
      rcases allocate_cases (k := k) loc hf hi with ⟨_, -, he⟩ | ⟨_, hj, -, he⟩ | ⟨-, -, -, he⟩ | ⟨hj, -, -, he⟩
      · rwa [he]
      · rw [he]
        exact (HardwarePlan.instance?_insert ..).trans ((if_neg (hne hj)).trans h)
      · rwa [he]
      · rw [he]
        exact (HardwarePlan.instance?_insert ..).trans ((if_neg (hne hj)).trans h)
  · rwa [allocate_of_ne hf]

lemma instance?_run {u : DeviceUse} (h : s.plan.instance? id = some i) (hc : i.channel = some c)
    (hu : ∀ j, u.declared? k.table ≠ some (id, j)) : ((u.run k).after s).plan.instance? id = some i := by
  cases u with
  | declare symbol device l args =>
    cases hd : (DeviceUse.declare symbol device l args).declared? k.table with
    | none =>
      obtain ⟨e, he⟩ := declareDevice_of_none (s := s) hd
      rw [DeviceUse.run, he]
      exact h
    | some x =>
      obtain ⟨id', j⟩ := x
      obtain ⟨-, he⟩ := declareDevice_of_some (s := s) hd
      have hne : id ≠ id' := by
        rintro rfl
        exact hu j hd
      have hi : (s.plan.insert id' j).instance? id = some i := by
        rw [HardwarePlan.instance?_insert, if_neg hne, h]
      rw [DeviceUse.run, he]
      split
      · exact instance?_allocate hi hc
      · exact hi
  | call l object method found =>
    cases ho : s.plan.instanceOf? object with
    | none =>
      have he : ((DeviceUse.call l object method found).run k).after s = s := by
        simp [ho]
      rwa [he]
    | some x =>
      obtain ⟨id', j⟩ := x
      have he : ((DeviceUse.call l object method found).run k).after s =
          (useMethod k id' j.device method found l).after s := by
        simp [ho]
      rw [he]
      by_cases hm : ∃ m, j.device.method? method.text = some (m, found)
      · obtain ⟨m, hm⟩ := hm
        cases hp : j.device.usesPwm m with
        | true =>
          have hu : (useMethod k id' j.device method found l).after s = (allocate k id' l).after s := by
            simp [useMethod, hm, hp]
          rw [hu]
          exact instance?_allocate h hc
        | false =>
          have hu : (useMethod k id' j.device method found l).after s = s := by
            simp [useMethod, hm, hp]
          rwa [hu]
      · obtain ⟨e, he⟩ := useMethod_of_not (k := k) (s := s) hm
        rw [he]
        exact h
  | misplace device l => exact h

def afterAll (k : Target) (us : List DeviceUse) (s : Planning) : Planning :=
  (forM us (DeviceUse.run k) : Plan Unit).after s

lemma afterAll_append (us vs : List DeviceUse) : afterAll k (us ++ vs) s = afterAll k vs (afterAll k us s) := by
  simp [afterAll]

lemma afterAll_cons (u : DeviceUse) (us : List DeviceUse) :
    afterAll k (u :: us) s = afterAll k us ((u.run k).after s) := by
  simp [afterAll]

lemma instance?_afterAll {us} (h : s.plan.instance? id = some i) (hc : i.channel = some c)
    (hu : ∀ u ∈ us, ∀ j, u.declared? k.table ≠ some (id, j)) : (afterAll k us s).plan.instance? id = some i := by
  induction us generalizing s with
  | nil => simpa [afterAll] using h
  | cons u us ih =>
    rw [afterAll_cons]
    refine ih (instance?_run h hc (hu u mem_cons_self)) fun v hv => hu v (mem_cons_of_mem _ hv)

end Plan

namespace Planning.Follows

open Plan

variable {k : Target} {us vs earlier later : List DeviceUse} {s s' : Planning} {id : SymbolId} {i : Instance}
  {l : Location} {object : Expr} {method : Name} {found : Nat}

lemma afterAll (h : s.Follows k us) (vs : List DeviceUse) : (afterAll k vs s).Follows k (us ++ vs) := h.run vs

lemma errors_of_append (h : s.Follows k us) (h' : s'.Follows k (us ++ vs)) (he : s'.errors = #[]) : s.errors = #[] := by
  obtain ⟨hs, hle⟩ := h'.holds.errors.mp he
  refine h.holds.errors.mpr ⟨fun earlier u later hu => hs earlier u (later ++ vs) ?_, ?_⟩
  · rw [hu, append_assoc, cons_append]
  · exact (k.length_keys_le us vs).trans hle

section

variable (h : s.Follows k []) (he : (Plan.afterAll k (earlier ++ .call l object method found :: later) s).errors = #[])
  (hi : (Plan.afterAll k (earlier ++ .call l object method found :: later) s).plan.instanceOf? object = some (id, i))
  (hd : ∀ u ∈ later, ∀ j, u.declared? k.table ≠ some (id, j))

include h hi hd

lemma latest_at_call : object.symbol? = some id ∧ DeviceUse.latest k.table earlier id = some i.withoutChannel := by
  obtain ⟨hid, hi⟩ := HardwarePlan.instanceOf?_eq_some_iff.mp hi
  refine ⟨hid, ?_⟩
  have hf := (h.afterAll (earlier ++ .call l object method found :: later)).instances id
  rw [hi, nil_append, DeviceUse.latest_append_of_not] at hf
  · exact hf.symm
  · intro u hu j
    rcases mem_cons.mp hu with rfl | hu
    · exact nofun
    · exact hd u hu j

include he

lemma method_of_call : ∃ m, i.device.method? method.text = some (m, found) := by
  obtain ⟨hid, hl⟩ := h.latest_at_call hi hd
  have hs := ((h.afterAll _).holds.errors.mp he).1 earlier _ later rfl
  refine hs i.withoutChannel ?_
  rw [DeviceUse.instanceOf?, hid]
  exact hl

lemma channel_of_call {m} (hf : k.board.family = .espChannel)
    (hm : i.device.method? method.text = some (m, found)) (hp : i.device.usesPwm m) : ∃ c, i.channel = some c := by
  obtain ⟨hid, hl⟩ := h.latest_at_call hi hd
  have hearlier := h.afterAll earlier
  generalize hs : Plan.afterAll k earlier s = s1 at hearlier
  rw [nil_append] at hearlier
  rw [← hearlier.instances id] at hl
  obtain ⟨j, hj, hji⟩ := Option.map_eq_some_iff.mp hl
  have hdev : j.device = i.device := by
    change j.withoutChannel.device = i.withoutChannel.device
    rw [hji]
  have hrun : ((DeviceUse.call l object method found).run k).after s1 = (Plan.allocate k id l).after s1 := by
    have ho := HardwarePlan.instanceOf?_eq_some_iff.mpr ⟨hid, hj⟩
    simp [DeviceUse.run, Plan.after, useCallee, ho, useMethod, hdev, hm, hp]
  rw [afterAll_append, afterAll_cons, hs, hrun] at hi he
  have hcall := hearlier.step (.call l object method found)
  rw [hrun] at hcall
  obtain ⟨-, -, c, hown, hc⟩ := hearlier.holds.allocate l hf hj
  obtain ⟨c, rfl⟩ := Option.isSome_iff_exists.mp (hc (hcall.errors_of_append (hcall.afterAll later) he))
  have hfinal := instance?_afterAll hown rfl hd
  rw [(HardwarePlan.instanceOf?_eq_some_iff.mp hi).2] at hfinal
  cases hfinal
  exact ⟨c, rfl⟩

end

lemma call_ignored (h : s.Follows k []) (hid : object.symbol? = some id)
    (hd : ∀ u ∈ earlier, ∀ j, u.declared? k.table ≠ some (id, j)) :
    Plan.afterAll k (earlier ++ .call l object method found :: later) s = Plan.afterAll k (earlier ++ later) s := by
  have hearlier := h.afterAll earlier
  have hnone : (Plan.afterAll k earlier s).plan.instanceOf? object = none := by
    have hi := hearlier.instanceOf?_eq object
    rw [DeviceUse.instanceOf?, hid, Option.bind_some, DeviceUse.latest_append_of_not hd] at hi
    exact Option.map_eq_none_iff.mp hi
  rw [afterAll_append, afterAll_append, afterAll_cons]
  congr 1
  simp [DeviceUse.run, Plan.after, useCallee, hnone]

end Planning.Follows

namespace Node

variable {f : Transform} {n : Node}

lemma exists_var_of_latest {t : SymbolTable} {id} {i}
    (h : DeviceUse.latest t n.uses id = some i) : ∃ b d device l pin, n.at? b = some (var d) ∧ d.symbol = some id ∧
      d.device? = some (device, l, [pin]) ∧ (t.scope (t.get id).scope).kind ≠ .members ∧
      i = { device, pin, key := (pin.pinKey? t).getD s!"{device.name}#{id}" } := by
  obtain ⟨u, hu, hd⟩ := DeviceUse.exists_of_latest h
  obtain ⟨device, l, pin, rfl, hk, hi⟩ := DeviceUse.eq_declare_of_declared? hd
  rw [← map_placedUses] at hu
  obtain ⟨⟨a, u⟩, hu, rfl⟩ := mem_map.mp hu
  obtain ⟨b, d, hb, hs, hdev, -⟩ := exists_of_declare_mem hu
  exact ⟨b, d, device, l, pin, hb, hs, hdev, hk, hi⟩

def varNumbers (n : Node) : List SymbolId := n.vars.filterMap (·.symbol)

lemma varNumbers_eq (n : Node) : n.varNumbers = (n.var?.bind (·.symbol)).toList ++ n.children.flatMap varNumbers := by
  rw [varNumbers, vars_eq, filterMap_append, filterMap_flatMap]
  congr 1
  cases n.var? with
  | none => rfl
  | some d => cases hd : d.symbol <;> simp [hd]

lemma varNumbers_transform (hf : ∀ symbol e, (expr (f.stored symbol e)).varNumbers = (expr e).varNumbers)
    (n : Node) : (n.transform f).varNumbers = n.varNumbers := by
  induction n using induct with
  | h n ih =>
    have hv : (n.transform f).var?.bind (·.symbol) = n.var?.bind (·.symbol) := by
      cases n with
      | var d => exact d.symbol_transform f
      | _ => rfl
    have below {cs : List Node} (hcs : ∀ c ∈ cs, c ∈ n.children) :
        (cs.map (transform f)).flatMap varNumbers = cs.flatMap varNumbers := by
      rw [flatMap_map]
      exact flatMap_congr fun c hc => ih c (hcs c hc)
    rw [varNumbers_eq, varNumbers_eq, hv]
    congr 1
    cases hs : n.store? with
    | none =>
      rw [children_transform f hs]
      exact below fun _ hc => hc
    | some x =>
      obtain ⟨symbol, e⟩ := x
      obtain ⟨cs, hc, ht⟩ := children_store f hs
      rw [hc] at ih below ⊢
      rw [ht, flatMap_append, flatMap_append, below fun c hm => mem_append_left _ hm]
      congr 1
      have he : (expr (e.transform f)).varNumbers = (expr e).varNumbers := ih (expr e) (by simp)
      simpa [hf] using he

lemma Plain.varNumbers_eq_nil (h : n.Plain) : n.varNumbers = [] := by
  rw [varNumbers, filterMap_eq_nil_iff]
  intro d hd
  obtain ⟨e, he⟩ := h _ (mem_vars.mp hd)
  cases he

lemma Plain.transform_keep (h : n.Plain) (hf : ∀ symbol e, f.stored symbol e = e) : (n.transform f).Plain := by
  intro m hm
  obtain ⟨a, ha⟩ := mem_nodes.mp hm
  rw [at?_keep hf] at ha
  obtain ⟨k, hk, rfl⟩ := Option.map_eq_some_iff.mp ha
  obtain ⟨e, rfl⟩ := h k (mem_nodes.mpr ⟨a, hk⟩)
  exact ⟨_, rfl⟩

lemma varNumbers_clampTo {ranges : RangeTable} (hr : ∀ id r, ranges.lookup id = some r → (expr r.min).Plain ∧
    (expr r.max).Plain) (symbol : Option SymbolId) (e : Expr) :
    (expr (e.clampTo ranges symbol)).varNumbers = (expr e).varNumbers := by
  unfold Expr.clampTo
  split
  case h_1 r h =>
    obtain ⟨id, -, hl⟩ := Option.bind_eq_some_iff.mp h
    obtain ⟨hmin, hmax⟩ := hr id r hl
    rw [varNumbers_eq]
    simp [var?, children, hmin.varNumbers_eq_nil, hmax.varNumbers_eq_nil]
  case h_2 => rfl

end Node

namespace Program

variable {p q r : Program} {t : SymbolTable} {ranges : RangeTable} {a b : List Nat} {id : SymbolId}

lemma planHardware_eq_ok_iff {c : BoardConfig} {plan} : p.planHardware t c = .ok plan ↔
    (Plan.afterAll ⟨t, c.board⟩ p.deviceUses (planningStart c.board)).errors = #[] ∧
      (Plan.afterAll ⟨t, c.board⟩ p.deviceUses (planningStart c.board)).plan = plan := by
  have huses : (p.plan ⟨t, c.board⟩).after (planningStart c.board) =
      Plan.afterAll ⟨t, c.board⟩ p.deviceUses (planningStart c.board) :=
    congrArg (fun m => m.after (planningStart c.board)) ((unit p).plan_eq_uses ⟨t, c.board⟩)
  rw [planHardware_eq, huses]
  simp only
  split
  case isTrue he => simp [Array.isEmpty_iff.mp he]
  case isFalse he => simp [mt Array.isEmpty_iff.mpr he]

section

variable (hp : p.Read) (h : p.resolveNames = (q, .ok t)) (hr : q.clampRanges = (r, .ok ranges))

include hp h hr

lemma Read.plain_ranges
    {range : Range} (hl : ranges.lookup id = some range) : (expr range.min).Plain ∧ (expr range.max).Plain := by
  obtain ⟨d, hd, -, hrange⟩ := (hp.lookup_ranges_iff h hr).mp hl
  obtain ⟨⟨min, max⟩, hdr, rfl⟩ := Option.map_eq_some_iff.mp hrange
  have hn := (mem_vars (n := .unit q)).mp hd
  have hs {e : Expr} (he : .expr e ∈ ofRange? d.range) : (expr (e.transform commonUnits)).Plain :=
    Plain.transform_keep (f := commonUnits) (n := .expr e) (hp.plain_settings h hn he) fun _ _ => rfl
  rw [hdr] at hs
  exact ⟨hs (by simp [ofRange?]), hs (by simp [ofRange?])⟩

lemma Read.numberedOnce_clamped : r.NumberedOnce := by
  have hc : (unit r).varNumbers = (unit q).varNumbers := by
    have hr' : unit r = ((unit q).transform commonUnits).transform (clamps ranges) := congrArg unit (eq_insertClamps hr)
    rw [hr', varNumbers_transform, varNumbers_transform]
    · exact fun _ _ => rfl
    · exact varNumbers_clampTo fun _ _ hl => hp.plain_ranges h hr hl
  have hq := hp.numberedOnce h
  change (unit r).varNumbers.Nodup
  rw [hc]
  exact hq

lemma Read.of_clamped {m : Node} (hm : m ∈ (unit r).nodes) (he : ∀ e, m ≠ expr e) :
    ∃ n ∈ (unit q).nodes, m = (n.transform commonUnits).transform (clamps ranges) := by
  rcases node_of_clamped hp h hr hm with hn | hclamp | ⟨d, hd, x, hx, n, hn, rfl⟩
  · exact hn
  · cases m with
    | expr e => exact absurd rfl (he e)
    | _ => cases hclamp
  · -- Bounds have nothing but expressions in them.
    obtain ⟨e, rfl⟩ := hp.plain_settings h ((mem_vars (n := .unit q)).mp hd) hx n hn
    exact absurd rfl (he _)

lemma Read.var_of_clamped
    {d} (hd : d ∈ r.vars) : ∃ e ∈ q.vars, (e.transform commonUnits).transform (clamps ranges) = d := by
  obtain ⟨n, hn, hnd⟩ := hp.of_clamped h hr ((mem_vars (n := .unit r)).mp hd) nofun
  cases n with
  | var e =>
    cases hnd
    exact ⟨e, (mem_vars (n := .unit q)).mpr hn, rfl⟩
  | _ => cases hnd

end

lemma NumberedOnce.place_eq {d d' : VarDecl} (hp : p.NumberedOnce) (hb : (unit p).at? a = some (.var d))
    (hb' : (unit p).at? b = some (.var d')) (hd : d.symbol = some id) (hd' : d'.symbol = some id) : a = b := by
  have hn : ((unit p).places.filterMap fun x => x.2.var?.bind (·.symbol)).Nodup := by
    have hv : p.vars = (unit p).nodes.filterMap var? := (unit p).vars_eq_nodes
    rw [NumberedOnce, hv, nodes, filterMap_map, filterMap_filterMap] at hp
    exact hp
  rw [Nodup, pairwise_filterMap] at hn
  have : Std.Symm fun x y : List Nat × Node => ∀ i, x.2.var?.bind (·.symbol) = some i →
      ∀ j, y.2.var?.bind (·.symbol) = some j → i ≠ j :=
    ⟨fun x y hne i hi j hj => (hne j hj i hi).symm⟩
  by_contra hne
  refine hn.forall (mem_places.mpr hb) (mem_places.mpr hb') ?_ id hd id hd' rfl
  exact fun he => hne (congrArg Prod.fst he)

end Program

end SketchCompiler
