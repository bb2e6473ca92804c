import SketchCompiler.Proofs.CopiedBounds
import SketchCompiler.Proofs.DeviceCalls
import SketchCompiler.Proofs.FoundMembers

namespace SketchCompiler

open List Node

variable {a : List Nat}

structure MethodCall where
  loc : Location
  memberLoc : Location
  object : Expr
  method : Name
  symbol : Option SymbolId
  args : List Expr

def MethodCall.expr (c : MethodCall) : Expr := .call c.loc (.member c.memberLoc c.object c.method c.symbol) c.args

def MethodCall.use (c : MethodCall) : DeviceUse := .call c.memberLoc c.object c.method c.args.length

/-- The call has become code for the device as its method wants it. -/
structure HardwarePlan.Lowers (plan : HardwarePlan) (i : Instance) (c : MethodCall) (m : Method) : Prop where
  method : i.device.method? c.method.text = some (m, c.args.length)
  args : m = .set ∨ m = .write → ∃ e, c.args = [e]
  code (k : Scene) : k.plan = plan → c.expr.code k = plan.call i (c.object.code k) m (exprCodes k c.args)
  duty : plan.family = .espChannel → i.device.writesDuty c.method.text c.args.length →
    ∃ channel, i.channel = some channel ∧ plan.channels[channel]? = some (i.key, channel) ∧
      ∀ k : Scene, k.plan = plan → ∃ duty, c.expr.code k = Pwm.writer channel ++ "(" ++ duty ++ ")" ∧
        (exprCodes k c.args = [duty] ∨ m = .off ∧ duty = "0")

namespace Device

variable {d : Device} {name : String} {m : Method} {found : Nat}

lemma arity_of_method? (h : d.method? name = some (m, found)) : found = if m = .set ∨ m = .write then 1 else 0 := by
  have hall : ∀ x ∈ d.methods, x.2 = if x.1 = .set ∨ x.1 = .write then 1 else 0 := by cases d <;> decide
  exact hall (m, found) (mem_of_find?_eq_some h)

lemma call_of_usesPwm (hp : d.usesPwm m) (hm : d.method? name = some (m, found)) (p : Pwm) (channel : Option Nat)
    (pin : String) {args : List String} (ha : args.length = found) :
    ∃ duty, d.call p channel pin m args = p.write pin channel duty ∧ (args = [duty] ∨ m = .off ∧ duty = "0") := by
  have hlen := arity_of_method? hm
  have hone (hf : found = 1) : ∃ duty, args = [duty] := length_eq_one_iff.mp (ha.trans hf)
  cases d <;> cases m <;> try cases hp
  all_goals first
    | exact ⟨"0", rfl, .inr ⟨rfl, rfl⟩⟩
    | obtain ⟨duty, rfl⟩ := hone hlen
      exact ⟨duty, rfl, .inl rfl⟩

end Device

lemma length_exprCodes (k : Scene) (es : List Expr) : (exprCodes k es).length = es.length := by
  induction es with
  | nil => rfl
  | cons e es ih => simp [exprCodes, ih]

lemma HardwarePlan.lowers {plan : HardwarePlan} {id} {i : Instance} {c : MethodCall} {m}
    (hi : plan.instanceOf? c.object = some (id, i)) (hm : i.device.method? c.method.text = some (m, c.args.length))
    (hc : plan.family = .espChannel → i.device.usesPwm m → ∃ channel, i.channel = some channel ∧
      plan.channels[channel]? = some (i.key, channel)) : plan.Lowers i c m := by
  have hcode (k : Scene) (hk : k.plan = plan) :
      c.expr.code k = plan.call i (c.object.code k) m (exprCodes k c.args) := by
    have hd : k.deviceMethod? c.object c.method.text = some (i, m) := by
      simp [Scene.deviceMethod?, hk, hi, hm]
    simp only [MethodCall.expr, Expr.code, hd, hk]
  refine ⟨hm, ?_, hcode, ?_⟩
  · intro hw
    have hlen := Device.arity_of_method? hm
    rw [if_pos hw] at hlen
    exact length_eq_one_iff.mp hlen
  · intro hf hd
    rw [Device.writesDuty_eq hm] at hd
    obtain ⟨channel, hch, hown⟩ := hc hf hd
    refine ⟨channel, hch, hown, fun k hk => ?_⟩
    obtain ⟨duty, hcall, hduty⟩ := Device.call_of_usesPwm hd hm plan.family.pwm i.channel (c.object.code k)
      (length_exprCodes k c.args)
    refine ⟨duty, ?_, hduty⟩
    rw [hcode k hk, HardwarePlan.call, hcall, hch, hf]
    rfl

lemma Node.EndsBefore.of_object {b} (h : EndsBefore b (a ++ [0, 0])) : EndsBefore b a := by
  obtain ⟨hlt, hp⟩ := h
  refine ⟨?_, fun hb => hp (hb.trans (prefix_append a _))⟩
  induction a generalizing b with
  | nil =>
    -- Only prefixes of the place come before it.
    match b with
    | [] => exact absurd nil_prefix hp
    | [x] => simp_all [cons_lt_cons_iff]
    | x :: y :: b => simp_all [cons_lt_cons_iff]
  | cons i a ih =>
    cases b with
    | nil => exact nil_lt_cons i a
    | cons x b =>
      rw [cons_append, cons_lt_cons_iff] at hlt
      rcases hlt with hlt | ⟨rfl, hlt⟩
      · exact cons_lt_cons_iff.mpr (.inl hlt)
      · refine cons_lt_cons_iff.mpr (.inr ⟨rfl, ih hlt fun hb => hp ?_⟩)
        exact cons_prefix_cons.mpr ⟨rfl, hb⟩

namespace Program

variable {p q r : Program} {t : SymbolTable} {ranges : RangeTable} {b : List Nat} {id : SymbolId} {d : VarDecl}
  {c : BoardConfig} {plan : HardwarePlan}

section

variable (hp : p.Read) (h : p.resolveNames = (q, .ok t))

include hp h

lemma Read.declares_of_var
    (hb : (unit q).at? b = some (.var d)) (hid : d.symbol = some id) (hk : (t.scope (t.get id).scope).kind ≠ .members) :
    ∃ c B, b = c ++ [0] ∧ q.Declares B (some c) d.binder := by
  obtain ⟨F, -, -, hq⟩ := unitsResolved h
  have hu := hp.unnumbered
  rcases eq_nil_or_concat b with rfl | ⟨c, i, rfl⟩
  · cases hb
  rw [concat_eq_append] at hb ⊢
  have hb' := hb
  rw [at?_concat] at hb'
  obtain ⟨n, hn, hi⟩ := Option.bind_eq_some_iff.mp hb'
  have hmem := mem_of_getElem? hi
  -- The statement or item of the variable is read, as the variable has a number.
  have declares (hz : n.binder? = some d.binder) (hx : ∀ u, n ≠ .unit u) : ∃ B, q.Declares B (some c) d.binder := by
    rcases meets_or_unread hn with ⟨x, env, hm, hr, rfl⟩ | hunread
    · have hown : x.own ≠ [] := by
        cases x with
        | node n => exact ne_nil_of_mem (Option.mem_toList.mpr hz)
        | unread => cases hr
        | _ => cases hz
      obtain ⟨e, he, -, -⟩ := (hm.resolvedHere hq).own hown
      refine ⟨e.1, .behind hn hz ?_⟩
      rw [← hm.blocks_of_ne_unit hr hx, Env.blocks, head?_map, he]
      rfl
    · have hnone := (unnumbered_of_unread hu h hunread hn).2 (.var d)
        (mem_nodes_iff.mpr (.inr ⟨_, hmem, mem_nodes_self⟩)) _
        (mem_singleton_self d.symbol)
      cases hid.symm.trans hnone
  have first (hc : n.children = [.var d]) : i = 0 := by
    have hlt := lt_of_getElem? hi
    rw [hc, length_singleton] at hlt
    omega
  rcases parent_of_var hmem with ⟨l, rfl⟩ | ⟨l, rfl⟩ | ⟨l, k, rfl⟩
  · obtain ⟨B, hB⟩ := declares rfl (by simp)
    exact ⟨c, B, by rw [first rfl], hB⟩
  · obtain ⟨B, hB⟩ := declares rfl (by simp)
    exact ⟨c, B, by rw [first rfl], hB⟩
  · obtain ⟨f, hf, rfl⟩ := field_of_var hi
    exact absurd (hp.kind_of_field h hn (mem_of_getElem? hf) hid) hk

lemma Read.endsBefore_of_name {l} {ref : Reference}
    (ha : (unit q).at? a = some (.expr (.name l ref))) (href : ref.symbol = some id)
    (hb : (unit q).at? b = some (.var d)) (hid : d.symbol = some id) (hdev : d.device?.isSome)
    (hk : (t.scope (t.get id).scope).kind ≠ .members) : Node.EndsBefore b a := by
  obtain ⟨F, blockOf, ht, hq, hF⟩ := unitBlocks h
  have hu := hp.unnumbered
  obtain ⟨c, B, rfl, hB⟩ := hp.declares_of_var h hb hid hk
  have hd : d.binder.symbol = some id := hid
  have hds : d.binder.symbol ≠ none := by simp [hd]
  obtain ⟨xs, hxs, hdecl⟩ := declared_of_declares hu h hq hB hds
  obtain ⟨hname, hkind, hblock⟩ := hdecl.symbol_eq ht hF hxs hd
  -- What the name denotes is the declaration of the variable.
  obtain ⟨hrn, hden⟩ := hp.name_found h hq hF ha href
  have hforce : c < a ∧ (c <+: a → q.InHandler c a) := by
    cases hden with
    | @declared inner outer x hs hfree hx hxn hst =>
      obtain ⟨since, hdx, hsince⟩ := hx
      have hxs : x.symbol = some id := by
        rcases hst.2 with hxs | ⟨hv, -⟩
        · exact hxs
        · have hvar : d.binder.kind = .variant := hkind.symm.trans (hst.1.trans hv)
          unfold VarDecl.binder at hvar
          split at hvar <;> cases hvar
      have hsame := declares_unique hu h hq (hblock ▸ hB) hdx hds (by simp [hxs]) (by rw [hxn, ← hrn, hname])
      exact hsince c hsame.1.symm
    | builtin hs hfree hscope hb => exact absurd (hkind.symm.trans hb) hB.kind_ne_builtin
  have hnot : ¬ c <+: a := by
    intro hpre
    obtain ⟨d', l', e, handler, i, c', hd', hi, -⟩ := hforce.2 hpre
    cases hb.symm.trans hd'
    simp [VarDecl.device?, hi] at hdev
  refine ⟨append_lt_of_lt hforce.1 hnot _, fun hpre => hnot ?_⟩
  exact (prefix_append c [0]).trans hpre

lemma Read.not_inDeviceRange (hr : q.clampRanges = (r, .ok ranges)) : ¬ (unit r).InDeviceRange a := by
  rintro ⟨b, d, i, c, hb, hdev, hi, -⟩
  obtain ⟨e, he, rfl⟩ := hp.var_of_clamped h hr ((mem_vars (n := .unit r)).mpr (mem_nodes.mpr ⟨b, hb⟩))
  obtain ⟨id, hid⟩ := Option.ne_none_iff_exists'.mp (hp.numbered h he)
  obtain ⟨qualifier, type, name, initializer, range, symbol⟩ := e
  cases range with
  | none => simp [VarDecl.transform, transformRange?, ofRange?] at hi
  | some range =>
    have hlookup := (hp.lookup_ranges_iff h hr).mpr ⟨_, he, hid, rfl⟩
    cases hid
    cases initializer with
    | none => cases hdev
    | some value =>
      simp [VarDecl.device?, VarDecl.transform, transformExpr?, clamps, Expr.clampTo, hlookup] at hdev

end

/-- A variable with this number ends before the place. -/
def DeclaresBefore (p : Program) (id : SymbolId) (a : List Nat) : Prop :=
  ∃ b d, (unit p).at? b = some (.var d) ∧ d.symbol = some id ∧ Node.EndsBefore b a

/-- The call stands at the place, and the plan knows its object. -/
structure CallsDevice (p : Program) (plan : HardwarePlan) (a : List Nat) (c : MethodCall) (id : SymbolId)
    (i : Instance) : Prop where
  call : (unit p).at? a = some (.expr c.expr)
  object : plan.instanceOf? c.object = some (id, i)

/-- What the plan of a program says of the calls of devices, but for those in ranges of devices, which are not walked.
A call behind the declaration of the device is right. Any other call is not looked at: the plan is the same whatever
method of the object is called with whatever arguments. -/
structure CoversCalls (p : Program) (k : Target) (plan : HardwarePlan) : Prop where
  lowered : ∀ a c id i, p.CallsDevice plan a c id i → ¬ (unit p).InDeviceRange a → p.DeclaresBefore id a →
    ∃ m, plan.Lowers i c m
  unchecked : ∀ a c id i, p.CallsDevice plan a c id i → ¬ (unit p).InDeviceRange a → ¬ p.DeclaresBefore id a →
    ∃ earlier later, p.deviceUses = earlier ++ c.use :: later ∧
      ∀ c' : MethodCall, c'.object = c.object →
        Plan.afterAll k (earlier ++ c'.use :: later) (planningStart k.board) =
          Plan.afterAll k p.deviceUses (planningStart k.board)

lemma NumberedOnce.coversCalls (hp : p.NumberedOnce) (h : p.planHardware t c = .ok plan) :
    p.CoversCalls ⟨t, c.board⟩ plan := by
  obtain ⟨he, rfl⟩ := planHardware_eq_ok_iff.mp h
  have hstart := follows_start ⟨t, c.board⟩
  have hserves := (hstart.afterAll p.deviceUses).serves he
  refine ⟨?_, ?_⟩
  · rintro a call id i ⟨hcall, hobject⟩ ha ⟨b, d, hb, hid, hend⟩
    obtain ⟨earlier, later, hsplit, -, hlater⟩ := uses_split hcall ha
    have hd : ∀ u ∈ later, ∀ j, u.declared? t ≠ some (id, j) := by
      intro u hu j hj
      obtain ⟨device, l, pin, rfl, -⟩ := DeviceUse.eq_declare_of_declared? hj
      obtain ⟨b', d', hb', hid', hnot⟩ := hlater _ hu _ _ _ _ rfl
      cases hp.place_eq hb hb' hid hid'
      exact hnot hend
    have hsplit' : p.deviceUses = _ := hsplit
    rw [hsplit'] at he hobject hserves ⊢
    obtain ⟨m, hm⟩ := hstart.method_of_call he hobject hd
    refine ⟨m, HardwarePlan.lowers hobject hm fun hf hpwm => ?_⟩
    have hfamily : c.board.family = .espChannel := by
      rw [← hf]
      exact ((hstart.afterAll _).holds.family).symm
    obtain ⟨channel, hch⟩ := hstart.channel_of_call he hobject hd hfamily hm hpwm
    obtain ⟨-, hi⟩ := HardwarePlan.instanceOf?_eq_some_iff.mp hobject
    obtain ⟨is, js, hmem, -⟩ := List.lookup_eq_some_iff.mp hi
    exact ⟨channel, hch, hserves.ownChannel (id, i) (by simp [hmem]) channel hch⟩
  · rintro a call id i ⟨hcall, hobject⟩ ha hnot
    obtain ⟨earlier, later, hsplit, hearlier, -⟩ := uses_split hcall ha
    have hid := (HardwarePlan.instanceOf?_eq_some_iff.mp hobject).1
    have hd : ∀ u ∈ earlier, ∀ j, u.declared? t ≠ some (id, j) := by
      intro u hu j hj
      obtain ⟨device, l, pin, rfl, -⟩ := DeviceUse.eq_declare_of_declared? hj
      obtain ⟨b, d, hb, hid, hend⟩ := hearlier _ hu _ _ _ _ rfl
      exact hnot ⟨b, d, hb, hid, hend⟩
    have hsplit' : p.deviceUses = _ := hsplit
    refine ⟨earlier, later, hsplit, fun call' hc' => ?_⟩
    rw [hsplit', MethodCall.use, hstart.call_ignored (hc' ▸ hid) hd, hstart.call_ignored hid hd]

lemma Read.declaresBefore_or_module {call : MethodCall} {i} (hp : p.Read) (h : p.resolveNames = (q, .ok t))
    (hplan : q.planHardware t c = .ok plan) (hc : q.CallsDevice plan a call id i) : q.DeclaresBefore id a ∨
      ∃ l o name k, call.object = .member l o name (some id) ∧ o.symbol? = some k ∧ t.kind k = .moduleAlias := by
  obtain ⟨hcall, hobject⟩ := hc
  obtain ⟨he, rfl⟩ := planHardware_eq_ok_iff.mp hplan
  obtain ⟨hid, hi⟩ := HardwarePlan.instanceOf?_eq_some_iff.mp hobject
  have hserves := ((follows_start ⟨t, c.board⟩).afterAll q.deviceUses).serves he
  have hlatest := hserves.instances id
  rw [hi] at hlatest
  obtain ⟨b, d, device, l, pin, hb, hd, hdev, hkind, -⟩ := exists_var_of_latest (n := .unit q) hlatest.symm
  have hplace : (unit q).at? (a ++ [0, 0]) = some (.expr call.object) := by
    rw [at?_append, hcall]
    rfl
  cases hobj : call.object with
  | name l ref =>
    rw [hobj] at hplace hid
    have hend := hp.endsBefore_of_name h hplace hid hb hd (by simp [hdev]) hkind
    exact .inl ⟨b, d, hb, hd, hend.of_object⟩
  | member l o name symbol =>
    rw [hobj] at hplace hid
    cases hid
    obtain ⟨-, k, hmem, hk⟩ := hp.member_found h hplace
    have hscope := (membersScoped h k _ hmem).2
    rw [SymbolKind.membersScope] at hscope
    split at hscope
    case isTrue hmodule =>
      rcases hk with hclass | hk
      · cases hmodule.symm.trans hclass
      · exact .inr ⟨l, o, name, k, rfl, hk, hmodule⟩
    case isFalse => exact absurd hscope hkind
  | _ =>
    rw [hobj] at hid
    cases hid

/-- A call of a device becomes the code that its method wants if the device is declared before it, and is not checked at
all otherwise. Only the variables of modules are used before they are declared. -/
theorem planHardware_covers_calls {c : BoardConfig} {plan : HardwarePlan} (hp : p.Read)
    (h : p.resolveNames = (q, .ok t)) (hr : r = q ∨ ∃ ranges, q.clampRanges = (r, .ok ranges))
    (hplan : r.planHardware t c = .ok plan) :
    r.CoversCalls ⟨t, c.board⟩ plan ∧
    ((∃ ranges, q.clampRanges = (r, .ok ranges)) → ∀ a, ¬ (Node.unit r).InDeviceRange a) ∧
    (r = q → ∀ a call id i, r.CallsDevice plan a call id i → r.DeclaresBefore id a ∨
      ∃ l o name k, call.object = .member l o name (some id) ∧ o.symbol? = some k ∧ t.kind k = .moduleAlias) := by
  refine ⟨?_, ?_, ?_⟩
  · apply NumberedOnce.coversCalls _ hplan
    rcases hr with rfl | ⟨ranges, hr⟩
    · exact hp.numberedOnce h
    · exact hp.numberedOnce_clamped h hr
  · rintro ⟨ranges, hr⟩ a
    exact hp.not_inDeviceRange h hr
  · rintro rfl a call id i hc
    exact hp.declaresBefore_or_module h hplan hc

end Program

namespace Sample

def earlyText : String := "@main\nconfig \x7b board: esp32 \x7d\non start \x7b\n    m.lamp.set(5)\n\x7d\nload <m.ys>
mut Pwm fan = 3\non loop \x7b\n    fan.write(7)\n\x7d"

def early : Program := ((ofText earlyText).link (.ofFiles [("m.ys", "mut Led lamp = 2")])).1

def methodCall? : Node → Option MethodCall
  | .expr (.call loc (.member memberLoc object method symbol) args) =>
    some ⟨loc, memberLoc, object, method, symbol, args⟩
  | _ => none

lemma at?_of_methodCall? {n : Node} {c : MethodCall} (h : (n.at? a).bind methodCall? = some c) :
    n.at? a = some (.expr c.expr) := by
  obtain ⟨m, hm, hc⟩ := Option.bind_eq_some_iff.mp h
  unfold methodCall? at hc
  split at hc
  · cases hc
    exact hm
  · cases hc

/-- The channel of the device that is called at a place, if the call writes a duty cycle, and whether the device has a
name of its own. -/
def dutyAt? (plan : HardwarePlan) (p : Program) (a : List Nat) : Option (Option Nat × Bool) := do
  let c ← ((Node.unit p).at? a).bind methodCall?
  let (_, i) ← plan.instanceOf? c.object
  let named := match c.object with
    | .name .. => true
    | _ => false
  if i.device.writesDuty c.method.text c.args.length then return (i.channel, named) else none

lemma of_dutyAt? {plan} {p : Program} {channel : Option Nat} {named : Bool}
    (h : dutyAt? plan p a = some (channel, named)) : ∃ c id i, p.CallsDevice plan a c id i ∧
      i.device.writesDuty c.method.text c.args.length ∧ i.channel = channel ∧
      (named = true → ∃ l ref, c.object = .name l ref) := by
  obtain ⟨c, hc, h⟩ := Option.bind_eq_some_iff.mp h
  obtain ⟨⟨id, i⟩, hi, h⟩ := Option.bind_eq_some_iff.mp h
  by_cases hw : i.device.writesDuty c.method.text c.args.length
  · simp only [hw, if_true, pure, Option.some.injEq, Prod.mk.injEq] at h
    refine ⟨c, id, i, ⟨at?_of_methodCall? hc, hi⟩, hw, h.1, ?_⟩
    rintro rfl
    cases ho : c.object with
    | name l ref => exact ⟨l, ref, rfl⟩
    | _ => simp [ho] at h
  · simp [hw] at h

lemma early_facts : (Program.ofText "main" earlyText).isOk ∧ isResolved early ∧
    early.resolveNames.1.vars.all (·.range.isNone) ∧
    (early.resolveNames.1.planHardware (tableOf early) { board := .esp32 }).toOption.map (fun plan =>
      (plan.family, dutyAt? plan early.resolveNames.1 [1, 0, 0], dutyAt? plan early.resolveNames.1 [4, 0, 0])) =
        some (.espChannel, some (none, false), some (some 0, true)) := by
  decide +kernel

/-- The fan is written through its channel. The lamp gets none, as nobody looks at the call before the module. -/
theorem early_calls : ∃ plan, early.Read ∧
    early.resolveNames = (early.resolveNames.1, .ok (tableOf early)) ∧
    early.resolveNames.1.planHardware (tableOf early) { board := .esp32 } = .ok plan ∧
    (∃ a c id i m, early.resolveNames.1.CallsDevice plan a c id i ∧ early.resolveNames.1.DeclaresBefore id a ∧
      plan.Lowers i c m) ∧
    ∃ a c id i, early.resolveNames.1.CallsDevice plan a c id i ∧ ¬ early.resolveNames.1.DeclaresBefore id a ∧
      i.device.writesDuty c.method.text c.args.length ∧ i.channel = none := by
  obtain ⟨htext, hresolved, hranges, hduty⟩ := early_facts
  have hread : early.Read := .link _ (read_ofText htext)
  have hnames := resolveNames_eq hresolved
  generalize early.resolveNames.1 = q at hnames hranges hduty ⊢
  obtain ⟨plan, hplan, hduty⟩ := Option.map_eq_some_iff.mp hduty
  simp only [Prod.mk.injEq] at hduty
  obtain ⟨hfamily, hlamp, hfan⟩ := hduty
  have hplan := eq_ok_of_toOption hplan
  have hrange (a : List Nat) : ¬ (Node.unit q).InDeviceRange a := by
    rintro ⟨b, d, i, c, hb, -, hi, -⟩
    have hd : d ∈ q.vars := (Node.mem_vars (n := .unit q)).mpr (mem_nodes.mpr ⟨b, hb⟩)
    have hnone := all_eq_true.mp hranges d hd
    simp [Option.isNone_iff_eq_none.mp hnone, Node.ofRange?] at hi
  obtain ⟨hcovers, -, hmodules⟩ := Program.planHardware_covers_calls hread hnames (.inl rfl) hplan
  obtain ⟨c, id, i, hcall, -, -, hname⟩ := of_dutyAt? hfan
  obtain ⟨l, ref, hname⟩ := hname rfl
  obtain ⟨c', id', i', hcall', hw, hnone, -⟩ := of_dutyAt? hlamp
  refine ⟨plan, hread, hnames, hplan, ?_, ?_⟩
  · have hbefore : q.DeclaresBefore id [4, 0, 0] := by
      rcases hmodules rfl _ _ _ _ hcall with hbefore | ⟨_, _, _, _, ho, -⟩
      · exact hbefore
      · cases hname.symm.trans ho
    obtain ⟨m, hm⟩ := hcovers.lowered _ _ _ _ hcall (hrange _) hbefore
    exact ⟨_, _, _, _, m, hcall, hbefore, hm⟩
  · refine ⟨_, _, _, _, hcall', fun hbefore => ?_, hw, hnone⟩
    -- Behind its declaration the call would have a channel.
    obtain ⟨m, hm⟩ := hcovers.lowered _ _ _ _ hcall' (hrange _) hbefore
    obtain ⟨channel, hch, -⟩ := hm.duty hfamily hw
    cases hnone.symm.trans hch

end Sample

end SketchCompiler
