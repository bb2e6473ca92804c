import SketchCompiler.Proofs.LoopedJumps
import SketchCompiler.Proofs.SketchBodies

namespace SketchCompiler

open Node TargetStmt List

variable {a : List Nat}

def CodeBody.Site (k : Scene) (x : JumpSite) (b : CodeBody) : Prop := Sites k b.place b.start [] (ofBlock b.stmts) x

section Bodies

variable {k : Scene} {o : List Nat} {x : JumpSite}

lemma Expr.handler?_cases {e : Expr} {handler} (h : e.handler? = some handler) :
    (∃ l v, e = .guarded l v handler) ∨ ∃ l l' v min max, e = .clamp l (.guarded l' v handler) min max := by
  unfold Expr.handler? at h
  split at h
  · cases h
    exact .inl ⟨_, _, rfl⟩
  · cases h
    exact .inr ⟨_, _, _, _, _, rfl⟩
  · cases h

attribute [local simp] CodeBody.Site writes Item.bodies

lemma site_handlerBodies (e : Expr) : (expr e).Site k o [] x ↔ ∃ b ∈ e.handlerBodies o, b.Site k x := by
  cases h : e.handler? with
  | none =>
    refine iff_of_false (not_site_of_handler? h) ?_
    rintro ⟨b, hb, -⟩
    cases h.symm.trans (e.handler?_of_mem hb)
  | some handler =>
    rcases e.handler?_cases h with ⟨l, v, rfl⟩ | ⟨l, l', v, min, max, rfl⟩
    · simp [site_guarded, Expr.handlerBodies]
    · simp [site_clamp, Expr.handlerBodies]

lemma site_globalBodies (l : Location) (d : VarDecl) :
    (item (.var l d)).Site k o [] x ↔ ∃ b ∈ d.globalBodies k (o ++ [0]), b.Site k x := by
  have hsite : (item (.var l d)).Site k o [] x ↔ d.symbol.isSome ∧ (var d).Site k (o ++ [0]) [] x := by
    rw [site_iff]
    simp only [jump?, reduceCtorEq, false_and, false_or, writes, children, frame, nil_append]
    constructor
    · rintro ⟨_ | i, c, hc, hs, h⟩
      · cases hc
        exact ⟨hs, h⟩
      · cases hc
    · rintro ⟨hs, h⟩
      exact ⟨0, _, rfl, hs, h⟩
  rw [hsite, site_var, VarDecl.globalBodies]
  cases hs : d.symbol.isSome <;> cases hd : (d.symbol.bind k.plan.instance?).isNone <;> cases hi : d.initializer <;>
    simp [site_handlerBodies]

lemma sites_methodBodies (ms : List (Located FunctionDecl)) (start : Nat) :
    Sites k o start [] (ms.flatMap fun m => ofBlock m.value.body) x ↔ ∃ b ∈ methodBodies o start ms, b.Site k x := by
  induction ms generalizing start with
  | nil => simp [methodBodies]
  | cons m ms ih =>
    rw [flatMap_cons, sites_append, ih, length_ofBlock, methodBodies, exists_mem_cons_iff]
    rfl

lemma site_classBodies (l : Location) (d : ClassDecl) :
    (item (.classDecl l d)).Site k o [] x ↔ ∃ b ∈ d.bodies o, b.Site k x := by
  have hfields : ¬ Sites k o 0 [] (d.fields.map fun f => var f.value) x := by
    refine not_sites_of_not_stmt fun c hc => ?_
    obtain ⟨f, -, rfl⟩ := mem_map.mp hc
    rfl
  rw [site_of_isStmt [] rfl (by simp) (fun _ => rfl), children, append_assoc, sites_append, sites_append,
    append_nil, sites_methodBodies, or_iff_right hfields]
  cases hc : d.constructor <;> simp [ClassDecl.bodies, ofConstructor?, hc]

mutual

lemma Item.site_bodies (k : Scene) (o : List Nat) (x : JumpSite) :
    ∀ i : Item, (item i).Site k o [] x ↔ ∃ b ∈ i.bodies k o, b.Site k x
  | .var l d => site_globalBodies l d
  | .function l d => by
    rw [site_of_isStmt [] rfl (by simp) (fun _ => rfl)]
    simp [children]
  | .classDecl l d => site_classBodies l d
  | .event l kind body => by
    rw [site_of_isStmt [] rfl (by simp) (fun _ => rfl)]
    simp [children]
  | .interrupt l d => by
    rw [site_of_isStmt [] rfl (by simp) (fun _ => rfl), children, sites_cons]
    simp [isStmt]
  | .task l d => by
    have hperiod : ¬ Sites k o 0 [] (ofExpr? d.period) x := by
      refine not_sites_of_not_stmt fun c hc => ?_
      obtain ⟨e, -, rfl⟩ := mem_ofExpr?.mp hc
      rfl
    rw [site_of_isStmt [] rfl (by simp) (fun _ => rfl), children, nil_append, sites_append]
    simp [hperiod]
  | .module l aliasName path symbol program => by
    rw [site_of_child (c := unit program) (i := 0) rfl rfl ?_ rfl, Item.bodies]
    · exact program.site_bodies k (o ++ [0]) x
    · exact fun _ _ h => by simpa [children] using lt_of_getElem? h
  | .config .. | .load .. | .nativeInclude .. | .aliasDecl .. | .enumDecl .. | .structDecl .. | .signal ..
  | .native .. => iff_of_false (not_site rfl fun _ _ _ => rfl) (by simp)

lemma sites_itemsBodies (k : Scene) (o : List Nat) (x : JumpSite) (j : Nat) :
    ∀ is : List Item, (∃ (n : Nat) (i : Item), is[n]? = some i ∧ (item i).Site k (o ++ [j + n]) [] x) ↔
      ∃ b ∈ itemsBodies k o j is, b.Site k x
  | [] => by simp [itemsBodies]
  | i :: is => by
    rw [itemsBodies]
    simp only [mem_append, or_and_right, exists_or, ← i.site_bodies k (o ++ [j]) x,
      ← sites_itemsBodies k o x (j + 1) is]
    constructor
    · rintro ⟨_ | n, i', hi, h⟩
      · cases hi
        exact .inl h
      · exact .inr ⟨n, i', hi, by rwa [Nat.add_assoc, Nat.add_comm 1]⟩
    · rintro (h | ⟨n, i', hi, h⟩)
      · exact ⟨0, i, rfl, h⟩
      · exact ⟨n + 1, i', hi, by rwa [← Nat.add_assoc, Nat.add_right_comm]⟩

lemma Program.site_bodies (k : Scene) (o : List Nat) (x : JumpSite) :
    ∀ p : Program, (unit p).Site k o [] x ↔ ∃ b ∈ p.bodies k o, b.Site k x
  | ⟨_, _, items⟩ => by
    rw [Program.bodies, ← sites_itemsBodies k o x 0 items, site_iff]
    simp only [jump?, reduceCtorEq, false_and, false_or, writes, children, frame, nil_append, true_and,
      Nat.zero_add, getElem?_map, Option.map_eq_some_iff]
    grind

end

end Bodies

namespace Program

variable {b : List Nat} {switches outer : List Frame}

def framesAt (p : Program) (a : List Nat) : List Frame := (unit p).framesFrom [] [] a

/-- The jump is in the code of a body, and the lines of this code stand in the sketch. -/
def WritesJump (k : Scene) (p : Program) (x : JumpSite) : Prop :=
  ∃ b ∈ p.bodies k [], ∃ depth n code, ((blockTarget k b.place b.start b.stmts).run n).1 = code ∧
    TargetStmt.blockLines depth code <:+: ((p.sketchLines k).run {}).1 ∧ x ∈ blockJumps [] code

/-- The jump at the place `a` is written, and wherever it is written, its target is the loop for the one at `b`. -/
def JumpsTo (k : Scene) (p : Program) (a : List Nat) (kind : Jump) (b : List Nat) : Prop :=
  (∃ x, p.WritesJump k x ∧ x.place = a) ∧
    ∀ x, p.WritesJump k x → x.place = a → x.kind = kind ∧ x.kind.target? x.frames = some ⟨b, true⟩

variable {k : Scene} {p q q' : Program} {t : SymbolTable} {n : Node} {kind : Jump}

lemma writesJump_iff {x} : p.WritesJump k x ↔ (unit p).Site k [] [] x := by
  rw [site_bodies]
  refine exists_congr fun b => and_congr_right fun hb => ?_
  constructor
  · rintro ⟨depth, n, code, rfl, -, hx⟩
    exact (jumps_blockTarget k b.place b.start b.stmts n [] x).mp hx
  · intro hx
    obtain ⟨depth, n, hinfix⟩ := p.shows_body hb
    rw [blockLines_eq_target k depth b.place b.start] at hinfix
    exact ⟨depth, n, _, rfl, hinfix, (jumps_blockTarget k b.place b.start b.stmts n [] x).mpr hx⟩

lemma writesJump_at_iff (ha : (unit p).at? a = some n) (hj : n.jump? k = some kind) {x : JumpSite} :
    p.WritesJump k x ∧ x.place = a ↔ (unit p).Written k a ∧ x = ⟨a, kind, p.framesAt a⟩ := by
  obtain ⟨place, kind', frames⟩ := x
  rw [writesJump_iff]
  constructor
  · rintro ⟨⟨a', m, hm, hj', hw, hp, hf⟩, rfl⟩
    obtain rfl : place = a' := by simpa using hp
    obtain rfl : m = n := by simpa [ha] using hm.symm
    obtain rfl : kind = kind' := by simpa [hj] using hj'
    exact ⟨hw, by rw [framesAt, ← hf]⟩
  · rintro ⟨hw, he⟩
    cases he
    exact ⟨⟨a, n, ha, hj, hw, rfl, rfl⟩, rfl⟩

lemma jumpsTo_iff (ha : (unit p).at? a = some n) (hj : n.jump? k = some kind) :
    p.JumpsTo k a kind b ↔ (unit p).Written k a ∧ kind.target? (p.framesAt a) = some ⟨b, true⟩ := by
  simp only [JumpsTo, writesJump_at_iff ha hj, exists_and_left, exists_eq, and_true, ← and_imp]
  refine and_congr_right fun hw => ?_
  simp [hw]

lemma target?_breaks (hs : ∀ f ∈ switches, f.isLoop = false) :
    Jump.breaks.target? (switches ++ ⟨b, true⟩ :: outer) = some ⟨b, true⟩ ↔ switches = [] := by
  cases switches with
  | nil => simp [Jump.target?]
  | cons f fs =>
    have hf := hs f mem_cons_self
    simp only [Jump.target?, cons_append, head?_cons, Option.some.injEq, reduceCtorEq, iff_false]
    rintro rfl
    cases hf

lemma target?_continues (hs : ∀ f ∈ switches, f.isLoop = false) :
    Jump.continues.target? (switches ++ ⟨b, true⟩ :: outer) = some ⟨b, true⟩ := by
  have hnone : switches.find? (·.isLoop) = none := find?_eq_none.mpr fun f hf => by simp [hs f hf]
  simp [Jump.target?, hnone]

/-- In a program with resolved names, before and after ranges are clamped, each `break` and `continue` is in a loop, and
it leaves, or goes on with, the code for this loop just if it is written at all and no switch catches it: between a
`break` and its loop there must be none. -/
theorem jumps_to_own_loop_iff (hp : p.Read) (h : p.resolveNames = (q, .ok t))
    (hq' : q' = q ∨ ∃ ranges, q.clampRanges = (q', .ok ranges)) (ha : (unit q').at? a = some n) (hn : n.leavesLoop)
    (hj : n.jump? k = some kind) : ∃ switches b outer, q'.framesAt a = switches ++ ⟨b, true⟩ :: outer ∧
      (∀ f ∈ switches, f.isLoop = false) ∧
      (q'.JumpsTo k a kind b ↔ (unit q').Written k a ∧ (kind = .continues ∨ switches = [])) := by
  have hl : (unit q').Looped false := by
    rcases hq' with rfl | ⟨ranges, hr⟩
    · exact hp.looped h
    · exact hp.looped_clampRanges h hr
  have hany : (q'.framesAt a).any (·.isLoop) := hl.exists_loop (by simp) ha hn
  obtain ⟨f, hf⟩ := Option.isSome_iff_exists.mp (find?_isSome.mpr (any_eq_true.mp hany))
  obtain ⟨hloop, switches, outer, hframes, hs⟩ := find?_eq_some_iff_append.mp hf
  obtain ⟨b, isLoop⟩ := f
  obtain rfl : isLoop = true := hloop
  have hs' : ∀ f ∈ switches, f.isLoop = false := fun f hf => by simpa using hs f hf
  refine ⟨switches, b, outer, hframes, hs', ?_⟩
  rw [jumpsTo_iff ha hj, hframes]
  refine and_congr_right fun _ => ?_
  cases n with
  | stmt s =>
    cases s with
    | breakLoop l =>
      cases hj
      simp [target?_breaks hs']
    | continueLoop l =>
      cases hj
      simp [target?_continues hs']
    | _ => cases hn
  | _ => cases hn

end Program

namespace Sample

def switchText : String :=
  "fn f() { while true { switch 1 { case 1 { break } case 2 { continue } } } }"

def jumpAt (p : Program) (a : List Nat) : Option (Jump × List Frame) :=
  ((Node.unit p).at? a).bind fun n => if n.leavesLoop then (n.jump? bareScene).map (·, p.framesAt a) else none

lemma of_jumpAt {p : Program} {kind} {fs} (h : jumpAt p a = some (kind, fs)) :
    ∃ n, (Node.unit p).at? a = some n ∧ n.leavesLoop ∧ n.jump? bareScene = some kind ∧ p.framesAt a = fs := by
  obtain ⟨n, hn, h⟩ := Option.bind_eq_some_iff.mp h
  split at h
  · obtain ⟨kind', hk, he⟩ := Option.map_eq_some_iff.mp h
    cases he
    exact ⟨n, hn, ‹_›, hk, rfl⟩
  · cases h

lemma split_frames {b a' : List Nat} {switches outer : List Frame}
    (h : [⟨a, false⟩, ⟨b, true⟩] = switches ++ ⟨a', true⟩ :: outer) (hs : ∀ f ∈ switches, f.isLoop = false) :
    switches ≠ [] ∧ a' = b := by
  rcases switches with _ | ⟨f, _ | ⟨g, fs⟩⟩
  · simp at h
  · simp_all
  · have hg : (⟨b, true⟩ : Frame) = g := by simpa using (List.cons.inj (List.cons.inj h).2).1
    cases hg.symm ▸ hs g (by simp)

/-- The switch catches the one, and the other goes on with the loop. -/
theorem switch_catches_break : ∃ q, (ofText switchText).Read ∧
    (ofText switchText).resolveNames = (q, .ok (tableOf (ofText switchText))) ∧
    ¬ q.JumpsTo bareScene [0, 0, 1, 2] .breaks [0, 0] ∧ q.JumpsTo bareScene [0, 0, 1, 4] .continues [0, 0] := by
  have hall : passes switchText = true ∧
      jumpAt (ofText switchText).resolveNames.1 [0, 0, 1, 2] =
        some (.breaks, [⟨[0, 0, 1], false⟩, ⟨[0, 0], true⟩]) ∧
      jumpAt (ofText switchText).resolveNames.1 [0, 0, 1, 4] =
        some (.continues, [⟨[0, 0, 1], false⟩, ⟨[0, 0], true⟩]) ∧
      (Node.unit (ofText switchText).resolveNames.1).Written bareScene [0, 0, 1, 4] := by decide +kernel
  obtain ⟨hpasses, hbreak, hcontinue, hwritten⟩ := hall
  obtain ⟨hp, h, -⟩ := of_passes switchText hpasses
  refine ⟨_, hp, h, fun hto => ?_, ?_⟩
  · obtain ⟨n, hn, hl, hj, hf⟩ := of_jumpAt hbreak
    obtain ⟨switches, b, outer, hframes, hs, hiff⟩ := Program.jumps_to_own_loop_iff hp h (.inl rfl) hn hl hj
    obtain ⟨hne, rfl⟩ := split_frames (hf.symm.trans hframes) hs
    exact hne ((hiff.mp hto).2.resolve_left nofun)
  · obtain ⟨n, hn, hl, hj, hf⟩ := of_jumpAt hcontinue
    obtain ⟨switches, b, outer, hframes, hs, hiff⟩ := Program.jumps_to_own_loop_iff hp h (.inl rfl) hn hl hj
    obtain ⟨-, rfl⟩ := split_frames (hf.symm.trans hframes) hs
    exact hiff.mpr ⟨hwritten, .inl rfl⟩

end Sample

end SketchCompiler
