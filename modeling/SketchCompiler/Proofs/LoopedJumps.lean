import SketchCompiler.Proofs.DeviceCalls
import SketchCompiler.Proofs.ModuleRuns

namespace SketchCompiler

open SymbolTable List Node

namespace Node

def leavesLoop : Node → Bool
  | stmt (.breakLoop _) | stmt (.continueLoop _) => true
  | _ => false

lemma any_frame (n c : Node) (o : List Nat) : (n.frame o c).any (·.isLoop) = n.loopsOver c := by
  cases n with
  | stmt s => cases s <;> cases c <;> rfl
  | _ => rfl

/-- All jumps at and below the node stand in loops; the node itself stands in one if `b` is true. -/
inductive Looped : Bool → Node → Prop
  | mk {b : Bool} {n : Node} : (n.leavesLoop → b = true) → (∀ c ∈ n.children, Looped (b || n.loopsOver c) c) →
      Looped b n

variable {n m c : Node} {b : Bool}

lemma looped_iff : n.Looped b ↔ (n.leavesLoop → b = true) ∧ ∀ c ∈ n.children, c.Looped (b || n.loopsOver c) :=
  ⟨fun ⟨hn, hc⟩ => ⟨hn, hc⟩, fun ⟨hn, hc⟩ => ⟨hn, hc⟩⟩

lemma Plain.looped (h : n.Plain) (b : Bool) : n.Looped b := by
  induction n using induct generalizing b with
  | h n ih =>
    obtain ⟨⟨e, rfl⟩, hc⟩ := plain_iff.mp h
    exact ⟨nofun, fun c hm => ih c hm (hc c hm) _⟩

lemma Looped.of_children (hn : n.leavesLoop = false) (hl : ∀ c, n.loopsOver c = false)
    (hc : ∀ c ∈ n.children, c.Looped b) : n.Looped b :=
  ⟨by simp [hn], fun c hm => by simpa [hl] using hc c hm⟩

/-- The children in the order in which they are read: the modules of a unit come first. -/
def inOrder : Node → List Node
  | unit p => (unit p).visits
  | n => n.children

lemma mem_inOrder : c ∈ n.inOrder ↔ c ∈ n.children := by
  cases n with
  | unit p => cases h : c.isModule <;> simp [inOrder, visits, children, h]
  | _ => rfl

/-- The jumps at and below the node that stand in no loop. The node itself stands in one if `b` is true. -/
def looseJumps (b : Bool) (n : Node) : List (Located NameError) :=
  (if b then [] else n.jumpError?.toList) ++ n.inOrder.attach.flatMap fun ⟨c, _⟩ => c.looseJumps (b || n.loopsOver c)
termination_by sizeOf n
decreasing_by exact sizeOf_lt_of_mem_children (mem_inOrder.mp ‹_›)

lemma looseJumps_eq (b : Bool) (n : Node) : n.looseJumps b =
    (if b then [] else n.jumpError?.toList) ++ n.inOrder.flatMap fun c => c.looseJumps (b || n.loopsOver c) := by
  rw [looseJumps]
  simp

lemma Plain.strays (h : n.Plain) : n.strays b = [] := by
  induction n using induct generalizing b with
  | h n ih =>
    obtain ⟨⟨e, rfl⟩, hc⟩ := plain_iff.mp h
    rw [strays_eq]
    simpa [jumpError?, visits] using fun c hm => ih c hm (hc c hm)

/-- No jump stands in a setting, or in the bounds of a field. -/
lemma looseJumps_eq_strays (hs : ∀ m ∈ n.nodes, ∀ c ∈ m.settings, c.Plain) : n.looseJumps b = n.strays b := by
  induction b, n using looseJumps.induct with
  | case1 b n ih =>
    have hbelow (c : Node) (hc : c ∈ n.children) : ∀ m ∈ c.nodes, ∀ d ∈ m.settings, d.Plain :=
      fun m hm => hs m (mem_nodes_iff.mpr (.inr ⟨c, hc, hm⟩))
    rw [looseJumps_eq, strays_eq, flatMap_congr fun c hc => ih c hc (hbelow c (mem_inOrder.mp hc))]
    congr 1
    cases n with
    | item i =>
      cases i with
      | config l entries =>
        exact flatMap_eq_nil_iff.mpr fun c hc => Plain.strays (hs _ mem_nodes_self c hc)
      | classDecl l d =>
        have hfield (f : Located VarDecl) (hf : f ∈ d.fields) :
            (var f.value).strays b = (ofExpr? f.value.initializer).flatMap (Node.strays b) := by
          have hvar := hbelow (var f.value) (mem_append_left _ (mem_append_left _ (mem_map_of_mem hf)))
          have hrange : (ofRange? f.value.range).flatMap (Node.strays b) = [] :=
            flatMap_eq_nil_iff.mpr fun c hc => Plain.strays (hvar _ mem_nodes_self c hc)
          rw [strays_eq]
          simpa [jumpError?, visits, children, loopsOver] using hrange
        simpa [inOrder, visits, children, loopsOver, flatMap_map, flatMap_assoc] using flatMap_congr hfield
      | _ => rfl
    | _ => rfl

lemma looped_of_looseJumps (h : n.looseJumps b = []) : n.Looped b := by
  induction n using induct generalizing b with
  | h n ih =>
    rw [looseJumps_eq, append_eq_nil_iff, flatMap_eq_nil_iff] at h
    obtain ⟨hn, hc⟩ := h
    refine ⟨fun hl => ?_, fun c hm => ih c hm (hc c (mem_inOrder.mpr hm))⟩
    unfold leavesLoop at hl
    split at hl <;> simp_all [jumpError?]

lemma Looped.exists_loop {a o : List Nat} {fs : List Frame} (h : n.Looped b) (hfs : b = true → fs.any (·.isLoop))
    (ha : n.at? a = some m) (hm : m.leavesLoop) : (n.framesFrom o fs a).any (·.isLoop) := by
  induction a generalizing n b o fs with
  | nil =>
    obtain rfl := Option.some.inj ha
    exact hfs ((looped_iff.mp h).1 hm)
  | cons i a ih =>
    obtain ⟨c, hc, hca⟩ := Option.bind_eq_some_iff.mp ha
    rw [framesFrom, hc]
    refine ih ((looped_iff.mp h).2 c (mem_of_getElem? hc)) (fun hb => ?_) hca
    rw [any_append, Bool.or_eq_true_iff]
    rcases Bool.or_eq_true_iff.mp hb with hb | hb
    · exact .inr (hfs hb)
    · exact .inl ((any_frame n c o).trans hb)

end Node

namespace Node

variable {f : Transform} {n c : Node} {b : Bool}

lemma leavesLoop_transform (n : Node) : (n.transform f).leavesLoop = n.leavesLoop := by
  cases n with
  | stmt s => cases s <;> rfl
  | _ => rfl

lemma isStmt_transform (n : Node) : (n.transform f).isStmt = n.isStmt := by
  cases n <;> rfl

lemma loopsOver_transform (n c : Node) : (n.transform f).loopsOver c = n.loopsOver c := by
  cases n with
  | stmt s => cases s <;> rfl
  | _ => rfl

lemma loopsOver_congr (n : Node) {c d : Node} (h : c.isStmt = d.isStmt) : n.loopsOver c = n.loopsOver d := by
  unfold loopsOver
  split <;> simp [h]

lemma Looped.transform (hf : ∀ symbol e b, (expr e).Looped b → (expr (f.stored symbol e)).Looped b)
    (h : n.Looped b) : (n.transform f).Looped b := by
  induction h with
  | @mk b n hn _ ih =>
    refine ⟨fun hl => hn (by rwa [leavesLoop_transform] at hl), fun c hc => ?_⟩
    have kept {d : Node} (hd : d ∈ n.children) :
        (d.transform f).Looped (b || (n.transform f).loopsOver (d.transform f)) := by
      rw [loopsOver_transform, n.loopsOver_congr d.isStmt_transform]
      exact ih d hd
    cases hs : n.store? with
    | none =>
      rw [children_transform f hs] at hc
      obtain ⟨d, hd, rfl⟩ := mem_map.mp hc
      exact kept hd
    | some x =>
      obtain ⟨symbol, e⟩ := x
      obtain ⟨cs, hcs, hfs⟩ := children_store f hs
      rw [hfs, mem_append, mem_singleton] at hc
      rcases hc with hc | rfl
      · obtain ⟨d, hd, rfl⟩ := mem_map.mp hc
        exact kept (by simp [hcs, hd])
      · have he := kept (d := expr e) (by simp [hcs])
        have ho : (n.transform f).loopsOver (expr (f.stored symbol (e.transform f))) =
            (n.transform f).loopsOver ((expr e).transform f) := loopsOver_congr _ rfl
        rw [ho]
        exact hf symbol _ _ he

end Node

namespace Program

variable {p q q' : Program} {t : SymbolTable} {ranges : RangeTable}

lemma Read.strays_eq (hp : p.Read) : p.nameErrors.filter (·.value.isOutsideLoop) = (unit p).strays false := by
  have hmain : UnitRun.Ready ofBuiltins (.main ofBuiltins) .global [] :=
    UnitRun.ready_main outermost_ofBuiltins.root_lt scopes_ofBuiltins.2
  have hrun := p.pairs_unit (UnitRun.Ready.sameSite outer_ofBuiltins hmain hmain) hp.blank _ _
    (UnitRun.Ready.agrees outer_ofBuiltins hmain hmain) (UnitRun.Ready.stands outer_ofBuiltins hmain hmain (.refl _))
  rw [← UnitRun.errors_main]
  exact hrun.strays

/-- The jumps that are reported are those that stand in no loop, each once and in the order in which they are read. -/
theorem Read.outsideLoop_errors (hp : p.Read) :
    p.nameErrors.filter (·.value.isOutsideLoop) = (unit p).looseJumps false := by
  rw [hp.strays_eq, looseJumps_eq_strays fun m hm => (hp.fresh m hm).2.2.1]

lemma Read.looped (hp : p.Read) (h : p.resolveNames = (q, .ok t)) : (unit q).Looped false := by
  have hq : q = (UnitRun.main ofBuiltins).tree p := by rw [UnitRun.tree_main, h]
  have herase : (unit q).erase = (unit p).erase := hq ▸ congrArg unit (p.erase_resolveUnit _ _)
  refine looped_of_looseJumps ?_
  rw [looseJumps_eq_strays fun m hm c hc => hp.plain_settings h hm hc, ← strays_erase, herase, strays_erase,
    ← hp.strays_eq, nameErrors, h]
  rfl

lemma Read.looped_clampRanges (hp : p.Read) (h : p.resolveNames = (q, .ok t))
    (hr : q.clampRanges = (q', .ok ranges)) : (unit q').Looped false := by
  have hq' : unit q' = ((unit q).transform commonUnits).transform (clamps ranges) := congrArg unit (eq_insertClamps hr)
  rw [hq']
  refine ((hp.looped h).transform fun _ _ _ he => he).transform fun symbol e b he => ?_
  change (expr (e.clampTo ranges symbol)).Looped b
  unfold Expr.clampTo
  split
  · rename_i range hl
    obtain ⟨id, -, hl⟩ := Option.bind_eq_some_iff.mp hl
    obtain ⟨hmin, hmax⟩ := hp.plain_ranges h hr hl
    exact .of_children rfl (fun _ => rfl) (by simp [children, he, hmin.looped, hmax.looped])
  · exact he

end Program

namespace Sample

def looselyJumping : String := "fn f() { while true { continue } if true { continue } break }"

theorem loose_jumps_reported : (ofText looselyJumping).Read ∧
    ((Node.unit (ofText looselyJumping)).looseJumps false).map (·.value.message) =
      ["`continue` outside of a loop", "`break` outside of a loop"] := by
  have hp : (ofText looselyJumping).Read := read_ofText (by decide +kernel)
  refine ⟨hp, ?_⟩
  rw [← hp.outsideLoop_errors]
  decide +kernel

end Sample

end SketchCompiler
