import SketchCompiler.Proofs.AtomicRuns
import SketchCompiler.Proofs.CapturedNames
import SketchCompiler.Proofs.CopiedBounds
import SketchCompiler.Proofs.JumpTargets

namespace SketchCompiler

open List

variable {i : Item} {body : List Stmt} {k : Scene} {l : Location} {d : VarDecl}

inductive EntryPoint where
  | start
  | loop
deriving DecidableEq, Repr

namespace EntryPoint

def head : EntryPoint → String
  | start => "void setup() \x7b"
  | loop => "void loop() \x7b"

/-- The statements that the item has for the function. -/
def body? : EntryPoint → Item → Option (List Stmt)
  | start, .event _ .start body => some body
  | loop, .event _ .loop body => some body
  | _, _ => none

/-- What is left to the function so far. -/
def left : EntryPoint → Emission → List (List Stmt)
  | start, s => s.starts
  | loop, s => s.loops

lemma left_leave (x : EntryPoint) (k : Scene) (path : List String) (root : Bool) (i : Item) (s : Emission) :
    x.left (i.leave k path root s) = x.left s ++ if root then (x.body? i).toList else [] := by
  cases i with
  | event l kind body => cases x <;> cases kind <;> cases root <;> simp [left, Item.leave, body?]
  | _ => cases x <;> simp [left, Item.leave, body?]

end EntryPoint

def Program.entryBodies (x : EntryPoint) (p : Program) : List (List Stmt) := p.items.filterMap x.body?

def Program.entryBody? (x : EntryPoint) (p : Program) (y : List Nat × Role) : Option (List Stmt) :=
  match y.2, (Node.unit p).at? y.1 with
  | .code, some (.item i) => if y.1.length = 1 then x.body? i else none
  | _, _ => none

open Emit

section Left

lemma Program.left_leave (x : EntryPoint) (k : Scene) (p : Program) (y : List Nat × Role) (s : Emission) :
    x.left (p.leave k y s) = x.left s ++ (p.entryBody? x y).toList := by
  have hnone : x.left s = x.left s ++ [] := (append_nil _).symm
  obtain ⟨a, r⟩ := y
  unfold leave entryBody?
  cases r with
  | code =>
    cases (Node.unit p).at? a with
    | none => exact hnone
    | some n =>
      cases n with
      | item i =>
        refine (x.left_leave k _ _ i s).trans (congrArg _ ?_)
        by_cases ha : a.length = 1 <;> simp [ha]
      | _ => exact hnone
  | _ => exact hnone

lemma Program.left_stateAfter (x : EntryPoint) (k : Scene) (p : Program) (xs : List (List Nat × Role)) :
    x.left (p.stateAfter k xs) = xs.filterMap (p.entryBody? x) := by
  induction xs using List.reverseRecOn with
  | nil => cases x <;> rfl
  | append_singleton xs y ih =>
    obtain ⟨n, hn⟩ := p.stateAfter_snoc k xs y
    have hleft : x.left (p.stateAfter k (xs ++ [y])) = x.left (p.leave k y (p.stateAfter k xs)) := by
      rw [hn]
      cases x <;> rfl
    rw [hleft, Program.left_leave, ih, filterMap_append]
    cases h : p.entryBody? x y <;> simp [h]

lemma entryBody?_moduleKeys {x} {p : Program} {y : List Nat × Role} {j}
    (h : y ∈ i.moduleKeys j) : p.entryBody? x y = none := by
  cases i with
  | module l aliasName path symbol program =>
    simp only [Item.moduleKeys, cons_append, mem_cons, mem_append, mem_map, not_mem_nil, or_false] at h
    rcases h with rfl | ⟨z, -, rfl⟩ | rfl
    · rfl
    · unfold Program.entryBody?
      split
      · exact if_neg (by simp)
      · rfl
    · rfl
  | _ => cases h

lemma filterMap_roleKeys {p : Program} {f : List Nat × Role → Option (List Stmt)} {g : Item → Option (List Stmt)}
    {r} (h : ∀ j i, p.items[j]? = some i → f ([j], r) = g i) {j : Nat} {items : List Item}
    (hitems : p.items.drop j = items) :
    ((List.range' j items.length).map (([·], r))).filterMap f = items.filterMap g := by
  induction items generalizing j with
  | nil => rfl
  | cons i is ih =>
    obtain ⟨hi, his⟩ := of_drop_eq_cons hitems
    rw [length_cons, List.range'_succ, map_cons, filterMap_cons, filterMap_cons, h j i hi, ih his]

lemma Program.left_keys (x : EntryPoint) (k : Scene) (p : Program) :
    x.left (p.stateAfter k p.keys) = p.entryBodies x := by
  have hmodules : (moduleKeys 0 p.items).filterMap (p.entryBody? x) = [] := by
    refine filterMap_eq_nil_iff.mpr fun y hy => ?_
    obtain ⟨m, i, -, hy⟩ := mem_moduleKeys.mp hy
    exact entryBody?_moduleKeys hy
  have hrole (r : Role) (hr : r ≠ .code) : (roleKeys p.items.length r).filterMap (p.entryBody? x) = [] := by
    refine filterMap_eq_nil_iff.mpr fun y hy => ?_
    obtain ⟨j, -, rfl⟩ := mem_map.mp hy
    unfold Program.entryBody?
    split
    · exact absurd ‹_› hr
    · rfl
  have hcode : (roleKeys p.items.length .code).filterMap (p.entryBody? x) = p.items.filterMap x.body? :=
    filterMap_roleKeys (fun j i hi => by simp [Program.entryBody?, at?_of_items hi]) rfl
  have hkeys : p.keys = moduleKeys 0 p.items ++ unitKeys p.items.length := by cases p; rfl
  rw [left_stateAfter, hkeys, filterMap_append, hmodules, unitKeys, filterMap_append, filterMap_append,
    filterMap_cons_none rfl, filterMap_append, hrole .types (by decide), hrole .prototypes (by decide), hcode,
    hrole .methods (by decide), append_nil]
  rfl

end Left

lemma lines_of_bodies (k : Scene) (bodies : List (List Stmt)) (s : Emission) :
    ((bodies.mapM fun body => withTemporaries (blockLines k 1 body)).run s).1.flatten =
      TargetStmt.blockLines 1 ((bodies.mapM (blockTarget k [] 0)).run s.temporaries).1.flatten := by
  induction bodies generalizing s with
  | nil => rfl
  | cons body bodies ih =>
    have hlines : ((withTemporaries (blockLines k 1 body)).run s).1 =
        TargetStmt.blockLines 1 ((blockTarget k [] 0 body).run s.temporaries).1 := by
      rw [blockLines_eq_target k 1 [] 0]
      rfl
    have hcount : ((withTemporaries (blockLines k 1 body)).run s).2.temporaries =
        ((blockTarget k [] 0 body).run s.temporaries).2 := by
      rw [blockLines_eq_target k 1 [] 0]
      rfl
    have hrest := ih ((withTemporaries (blockLines k 1 body)).run s).2
    rw [hcount] at hrest
    rw [run_mapM_cons, run_mapM_cons, flatten_cons, flatten_cons, TargetStmt.blockLines_append, hlines, hrest]

namespace Behaviour

variable {B C C' D : Behaviour} {e : Bool} {o : Outcome}

lemma seq_assoc (B C D : Behaviour) : seq (seq B C) D = seq B (seq C D) := by
  funext e o
  apply propext
  constructor
  · rintro (⟨⟨hB, -⟩ | ⟨o1, o2, hB, h1, hC, rfl⟩, ho⟩ | ⟨o1, o2, ⟨hB, hn⟩ | ⟨o3, o4, hB, h3, hC, rfl⟩, h1, hD, rfl⟩)
    · exact .inl ⟨hB, ho⟩
    · exact .inr ⟨o1, o2, hB, h1, .inl ⟨hC, ho⟩, rfl⟩
    · exact absurd h1 hn
    · refine .inr ⟨o3, o2.after o4.trace, hB, h3, .inr ⟨o4, o2, hC, h1, hD, rfl⟩, ?_⟩
      simp [Outcome.after]
  · rintro (⟨hB, ho⟩ | ⟨o1, o2, hB, h1, ⟨hC, hn⟩ | ⟨o3, o4, hC, h3, hD, rfl⟩, rfl⟩)
    · exact .inl ⟨.inl ⟨hB, ho⟩, ho⟩
    · exact .inl ⟨.inr ⟨o1, o2, hB, h1, hC, rfl⟩, hn⟩
    · refine .inr ⟨o3.after o1.trace, o4, .inr ⟨o1, o3, hB, h1, hC, rfl⟩, h3, hD, ?_⟩
      simp [Outcome.after]

lemma seq_congr (h : ∀ e o, o.ending.isSome → (C e o ↔ C' e o)) (ho : o.ending.isSome) :
    seq B C e o ↔ seq B C' e o := by
  apply or_congr Iff.rfl
  constructor
  · rintro ⟨o1, o2, hB, h1, hC, rfl⟩
    exact ⟨o1, o2, hB, h1, (h _ o2 ho).mp hC, rfl⟩
  · rintro ⟨o1, o2, hB, h1, hC, rfl⟩
    exact ⟨o1, o2, hB, h1, (h _ o2 ho).mpr hC, rfl⟩

lemma skip_seq (ho : o.ending.isSome) : seq skip C e o ↔ C e o := by
  constructor
  · rintro (⟨rfl | rfl, hn⟩ | ⟨o1, o2, rfl | rfl, h1, hC, rfl⟩)
    · exact absurd rfl hn
    · cases ho
    · exact hC
    · cases h1
  · intro hC
    exact .inr ⟨⟨[], some .done, e⟩, o, .inl rfl, rfl, hC, rfl⟩

end Behaviour

open Behaviour

namespace TargetStmt

lemma blockRuns_append (turns : String → Bool → Bool) (i : Bool) (ss ts : List TargetStmt) {e : Bool} {o : Outcome}
    (ho : o.ending.isSome) :
    BlockRuns turns i (ss ++ ts) e o ↔ seq (BlockRuns turns i ss) (BlockRuns turns i ts) e o := by
  induction ss generalizing e o with
  | nil => exact (skip_seq ho).symm
  | cons s ss ih =>
    rw [cons_append, BlockRuns, BlockRuns, seq_assoc]
    exact seq_congr (fun _ _ => ih) ho

/-- Each `break` and each `continue` stands in a loop. -/
def Enclosed (xs : List JumpSite) : Prop := ∀ x ∈ xs, x.kind.ending ≠ .returned → x.frames.any (·.isLoop)

lemma enclosed_append {xs ys} : Enclosed (xs ++ ys) ↔ Enclosed xs ∧ Enclosed ys := by
  simp [Enclosed, or_imp, forall_and]

lemma mem_thenExits {xs ys} {x} (h : x ∈ thenExits xs ys) : x ∈ xs ∨ x ∈ ys := by
  rcases mem_append.mp h with h | h
  · exact .inl (mem_filter.mp h).1
  · split at h
    · exact .inr h
    · cases h

mutual

lemma exits_of_enclosed {fs : List Frame} (hfs : fs.any (·.isLoop) = false) (s : TargetStmt)
    (h : Enclosed (s.jumps fs)) : ∀ x ∈ s.exits, x = .done ∨ x = .returned := by
  cases s with
  | line text => simp [exits]
  | jump place kind =>
    intro x hx
    obtain rfl := mem_singleton.mp hx
    refine .inr (Classical.byContradiction fun hn => ?_)
    rw [h _ (mem_singleton_self _) hn] at hfs
    cases hfs
  | block body => exact blockExits_of_enclosed hfs body h
  | cond branches => exact branchExits_of_enclosed hfs branches h
  | loop place head body =>
    intro x hx
    rcases mem_cons.mp hx with rfl | hx
    · exact .inl rfl
    · exact .inr (by simpa using (mem_filter.mp hx).2)
  | switch place subject cases =>
    intro x hx
    obtain ⟨y, hy, rfl⟩ := mem_map.mp hx
    have hframe : ((⟨place, false⟩ : Frame) :: fs).any (·.isLoop) = false := by simpa using hfs
    rcases branchExits_of_enclosed hframe cases h y hy with rfl | rfl
    · exact .inl rfl
    · exact .inr rfl
  | atomic body => exact blockExits_of_enclosed hfs body h

lemma blockExits_of_enclosed {fs : List Frame} (hfs : fs.any (·.isLoop) = false) (ss : List TargetStmt)
    (h : Enclosed (blockJumps fs ss)) : ∀ x ∈ blockExits ss, x = .done ∨ x = .returned := by
  cases ss with
  | nil => simp [blockExits]
  | cons s ss =>
    rw [blockJumps, enclosed_append] at h
    intro x hx
    rcases mem_thenExits hx with hx | hx
    · exact exits_of_enclosed hfs s h.1 x hx
    · exact blockExits_of_enclosed hfs ss h.2 x hx

lemma branchExits_of_enclosed {fs : List Frame} (hfs : fs.any (·.isLoop) = false) (bs : List TargetBranch)
    (h : Enclosed (branchJumps fs bs)) : ∀ x ∈ branchExits bs, x = .done ∨ x = .returned := by
  cases bs with
  | nil => simp [branchExits]
  | cons b bs =>
    obtain ⟨test, body⟩ := b
    rw [branchJumps, enclosed_append] at h
    intro x hx
    cases test with
    | none => exact blockExits_of_enclosed hfs body h.1 x hx
    | some test =>
      rcases mem_append.mp hx with hx | hx
      · exact blockExits_of_enclosed hfs body h.1 x hx
      · exact branchExits_of_enclosed hfs bs h.2 x hx

end

/-- The code `ts` behind the code `ss`. It is run behind each run of `ss` that comes to its end, and these are all just
if no return can leave `ss`. A run that such a return ends is one of the whole code, which so leaves out `ts`. -/
structure Follows (turns : String → Bool → Bool) (ss ts : List TargetStmt) : Prop where
  runs : ∀ e o, o.ending.isSome → (BlockRuns turns false (ss ++ ts) e o ↔
    seq (BlockRuns turns false ss) (BlockRuns turns false ts) e o)
  reached : (∀ e o x, BlockRuns turns false ss e o → o.ending = some x → x = .done) ↔ .returned ∉ blockExits ss
  skipped : .returned ∈ blockExits ss → ∀ e, ∃ o, BlockRuns turns false ss e o ∧ o.ending = some .returned ∧
    BlockRuns turns false (ss ++ ts) e o

lemma follows (turns : String → Bool → Bool) {ss} (h : Enclosed (blockJumps [] ss))
    (ts : List TargetStmt) : Follows turns ss ts where
  runs _ _ ho := blockRuns_append turns false ss ts ho
  reached := by
    have hends := ends_blockRuns turns false ss
    constructor
    · intro hdone hx
      obtain ⟨o, ho, hreturned⟩ := (hends true _).mpr hx
      cases hdone _ _ _ ho hreturned
    · intro hx e o x ho hox
      have hmem := (hends e x).mp ⟨o, ho, hox⟩
      exact (blockExits_of_enclosed rfl ss h x hmem).resolve_right fun hr => hx (hr ▸ hmem)
  skipped := by
    intro hx e
    obtain ⟨o, ho, hreturned⟩ := (ends_blockRuns turns false ss e _).mpr hx
    refine ⟨o, ho, hreturned, ?_⟩
    rw [blockRuns_append turns false ss ts (by rw [hreturned]; rfl)]
    exact .inl ⟨ho, by rw [hreturned]; exact nofun⟩

end TargetStmt

section Functions

variable {k : Scene}

lemma Deferred.exists_target (d : Deferred) (s : Emission) :
    ∃ code, ((d.lines k).run s).1 = TargetStmt.blockLines 1 code := by
  cases d with
  | line text => exact ⟨[.line text], rfl⟩
  | guard value handler =>
    refine ⟨[.cond [⟨some s!"!({value})", ((blockTarget k [] 0 handler).run s.temporaries).1⟩]], ?_⟩
    have hbody : ((blockLines k 2 handler).run s.temporaries).1 =
        TargetStmt.blockLines 2 ((blockTarget k [] 0 handler).run s.temporaries).1 := by
      rw [blockLines_eq_target k 2 [] 0]
      rfl
    have hlines : (((Deferred.guard value handler).lines k).run s).1 = .code 1 s!"if (!({value})) \x7b" ::
        ((blockLines k 2 handler).run s.temporaries).1 ++ [.code 1 "\x7d"] := rfl
    rw [hlines, hbody]
    simp [TargetStmt.blockLines, TargetStmt.lines, TargetStmt.condLines, condHead_guard]

lemma exists_target_deferred (ds : List Deferred) (s : Emission) :
    ∃ code, ((ds.mapM (Deferred.lines k)).run s).1.flatten = TargetStmt.blockLines 1 code := by
  induction ds generalizing s with
  | nil => exact ⟨[], rfl⟩
  | cons d ds ih =>
    obtain ⟨code, hcode⟩ := d.exists_target (k := k) s
    obtain ⟨codes, hcodes⟩ := ih ((d.lines k).run s).2
    refine ⟨code ++ codes, ?_⟩
    rw [run_mapM_cons, flatten_cons, TargetStmt.blockLines_append, hcode, hcodes]

lemma exists_target_schedule (schedule : List String) (dispatch : List (String × List String)) :
    ∃ code, schedule.map (Line.code 1) ++ dispatch.flatMap (fun x => dispatchLines x.1 x.2) =
      TargetStmt.blockLines 1 code := by
  have hdispatch : ∃ code, dispatch.flatMap (fun x => dispatchLines x.1 x.2) = TargetStmt.blockLines 1 code := by
    induction dispatch with
    | nil => exact ⟨[], rfl⟩
    | cons x dispatch ih =>
      obtain ⟨flag, handlers⟩ := x
      obtain ⟨code, hcode⟩ := ih
      refine ⟨.cond [⟨some flag, .line s!"{flag} = false;" :: handlers.map .line⟩] :: code, ?_⟩
      rw [flatMap_cons, hcode]
      simp [dispatchLines, TargetStmt.blockLines, TargetStmt.lines, TargetStmt.condLines, TargetStmt.condHead,
        TargetStmt.blockLines_map_line, toString]
  obtain ⟨code, hcode⟩ := hdispatch
  exact ⟨schedule.map .line ++ code, by rw [TargetStmt.blockLines_append, TargetStmt.blockLines_map_line, hcode]⟩

end Functions

def Stmt.local? : Stmt → Option String
  | .var _ d => some d.name.text
  | _ => none

lemma Stmt.exists_var {s : Stmt} {name} (h : s.local? = some name) : ∃ l d, s = .var l d ∧ d.name.text = name := by
  cases s with
  | var l d => exact ⟨l, d, rfl, Option.some.inj h⟩
  | _ => cases h

def localNames (body : List Stmt) : List String := body.filterMap Stmt.local?

lemma Stmt.local?_transform (f : Transform) (s : Stmt) : (s.transform f).local? = s.local? := by
  cases s with
  | var l d =>
    cases d
    rfl
  | _ => rfl

lemma localNames_transform (f : Transform) (body : List Stmt) :
    localNames (transformBlock f body) = localNames body := by
  simp [localNames, transformBlock_eq, filterMap_map, Stmt.local?_transform]

lemma EntryPoint.body?_transform (x : EntryPoint) (f : Transform) (i : Item) :
    x.body? (i.transform f) = (x.body? i).map (transformBlock f) := by
  cases i with
  | event l kind body => cases x <;> cases kind <;> rfl
  | _ => cases x <;> rfl

lemma Program.entryBodies_transform (x : EntryPoint) (f : Transform) (p : Program) :
    (p.transform f).entryBodies x = (p.entryBodies x).map (transformBlock f) := by
  rw [entryBodies, entryBodies, p.items_transform, filterMap_map, map_filterMap]
  exact congrArg (List.filterMap · p.items) (funext fun i => x.body?_transform f i)

lemma EntryPoint.exists_event {x : EntryPoint} (h : x.body? i = some body) : ∃ l kind, i = .event l kind body := by
  unfold EntryPoint.body? at h
  split at h
  · cases h
    exact ⟨_, _, rfl⟩
  · cases h
    exact ⟨_, _, rfl⟩
  · cases h

lemma line_mem_blockTarget (h : .var l d ∈ body) (a : List Nat) (i n : Nat) :
    TargetStmt.line (d.code k ++ ";") ∈ ((blockTarget k a i body).run n).1 := by
  induction body generalizing i n with
  | nil => cases h
  | cons s body ih =>
    change _ ∈ ((s.target k (a ++ [i])).run n).1 ++ _
    rcases mem_cons.mp h with rfl | h
    · cases d
      refine mem_append_left _ ?_
      rw [Stmt.target]
      split <;> exact mem_cons_self
    · exact mem_append_right _ (ih h (i + 1) _)

lemma line_mem_blocks {bodies : List (List Stmt)} (hb : body ∈ bodies) (h : .var l d ∈ body) (n : Nat) :
    TargetStmt.line (d.code k ++ ";") ∈ ((bodies.mapM (blockTarget k [] 0)).run n).1.flatten := by
  induction bodies generalizing n with
  | nil => cases hb
  | cons b bodies ih =>
    rw [run_mapM_cons, flatten_cons]
    rcases mem_cons.mp hb with rfl | hb
    · exact mem_append_left _ (line_mem_blockTarget h [] 0 n)
    · exact mem_append_right _ (ih hb _)

namespace Program

def bodiesBefore (x : EntryPoint) (p : Program) (m : Nat) : List (List Stmt) := (p.items.take m).filterMap x.body?

/-- The blocks for a function have the given code, one after the other with new temporary names. This code is the end of
the function, behind code of other kinds, and the declarations of the blocks are statements of it. -/
structure Assembled (k : Scene) (x : EntryPoint) (p : Program) (code : List (List TargetStmt)) : Prop where
  blocks : ∃ n, code = (((p.entryBodies x).mapM (blockTarget k [] 0)).run n).1
  lines : ∃ before first after, ((p.sketchLines k).run {}).1 =
    before ++ .code 0 x.head :: TargetStmt.blockLines 1 (first ++ code.flatten) ++ .code 0 "\x7d" :: after
  locals : ∀ body ∈ p.entryBodies x, ∀ l d, .var l d ∈ body → TargetStmt.line (d.code k ++ ";") ∈ code.flatten

variable {k : Scene} {p q q' : Program} {t : SymbolTable} {ranges : RangeTable} {x : EntryPoint}

lemma exists_assembled (k : Scene) (x : EntryPoint) (p : Program) : ∃ code, p.Assembled k x code := by
  have hleft := p.left_keys x k
  have assemble (n : Nat) (hlines : ∃ before first after, ((p.sketchLines k).run {}).1 = before ++ .code 0 x.head ::
      TargetStmt.blockLines 1 (first ++ (((p.entryBodies x).mapM (blockTarget k [] 0)).run n).1.flatten) ++
      .code 0 "\x7d" :: after) : ∃ code, p.Assembled k x code :=
    ⟨_, ⟨n, rfl⟩, hlines, fun body hb l d hd => line_mem_blocks hb hd n⟩
  have hrun := p.sketchLines_of_state k
  generalize p.stateAfter k p.keys = s at *
  cases x with
  | start =>
    obtain ⟨first, hfirst⟩ := exists_target_deferred (k := k) s.setup s
    obtain ⟨n, hn⟩ := Quiet.mapM (quiet_deferredLines k) s.setup s
    refine assemble n ⟨p.headLines k ++ (p.sketchPieces k).flatMap (·.lines), first,
      .blank :: ((loopLines k).run ((setupLines k).run s).2).1, ?_⟩
    have hbodies : s.starts = p.entryBodies .start := hleft
    rw [hrun, run_setupLines, hfirst, hn, lines_of_bodies, TargetStmt.blockLines_append, ← hbodies]
    simp only [append_assoc, cons_append, nil_append]
    rfl
  | loop =>
    obtain ⟨n, hn⟩ := quiet_setupLines k s
    obtain ⟨first, hfirst⟩ := exists_target_schedule s.schedule s.dispatch
    refine assemble n ⟨p.headLines k ++ (p.sketchPieces k).flatMap (·.lines) ++ ((setupLines k).run s).1, first, [], ?_⟩
    have hbodies : s.loops = p.entryBodies .loop := hleft
    rw [hrun, hn, run_loopLines, lines_of_bodies, TargetStmt.blockLines_append, ← hfirst, ← hbodies]
    simp only [append_assoc, cons_append]
    rfl

lemma entryBodies_eq {m : Nat} {body} (hi : p.items[m]? = some i) (hb : x.body? i = some body) :
    p.entryBodies x = p.bodiesBefore x m ++ body :: (p.items.drop (m + 1)).filterMap x.body? := by
  obtain ⟨hm, hget⟩ := List.getElem?_eq_some_iff.mp hi
  have hitems : p.items = p.items.take m ++ i :: p.items.drop (m + 1) := by
    rw [← hget, ← drop_eq_getElem_cons hm, take_append_drop]
  calc p.entryBodies x
    _ = (p.items.take m ++ i :: p.items.drop (m + 1)).filterMap x.body? := congrArg (List.filterMap x.body?) hitems
    _ = _ := by rw [filterMap_append, filterMap_cons, hb, bodiesBefore]

lemma enclosed_blocks {bodies : List (List Stmt)} (h : ∀ body ∈ bodies, ∀ s ∈ body, (Node.stmt s).Looped false)
    (n : Nat) :
    TargetStmt.Enclosed (TargetStmt.blockJumps [] ((bodies.mapM (blockTarget k [] 0)).run n).1.flatten) := by
  induction bodies generalizing n with
  | nil => exact nofun
  | cons body bodies ih =>
    rw [run_mapM_cons, flatten_cons, TargetStmt.blockJumps_append, TargetStmt.enclosed_append]
    refine ⟨fun y hy hn => ?_, ih (fun b hb => h b (mem_cons_of_mem _ hb)) _⟩
    obtain ⟨i, c, hc, -, a, m, hm, hj, -, -, hframes⟩ := (jumps_blockTarget k [] 0 body n [] y).mp hy
    obtain ⟨s, hs, rfl⟩ := Node.mem_ofBlock.mp (mem_of_getElem? hc)
    have hleaves : m.leavesLoop := by
      unfold Node.jump? at hj
      split at hj
      · rfl
      · rfl
      · rw [← Option.some.inj hj] at hn
        exact absurd rfl hn
      · cases hj
    rw [hframes]
    exact (h body mem_cons_self s hs).exists_loop (by simp) hm hleaves

lemma looped_of_entryBodies (h : (Node.unit p).Looped false) :
    ∀ body ∈ p.entryBodies x, ∀ s ∈ body, (Node.stmt s).Looped false := by
  intro body hb s hs
  obtain ⟨i, hi, hbody⟩ := mem_filterMap.mp hb
  obtain ⟨l, kind, rfl⟩ := EntryPoint.exists_event hbody
  have hitem := (Node.looped_iff.mp h).2 (.item (.event l kind body)) (mem_map_of_mem hi)
  exact (Node.looped_iff.mp hitem).2 (.stmt s) (Node.mem_ofBlock.mpr ⟨s, hs, rfl⟩)

lemma map_localNames_clampRanges (hr : q.clampRanges = (q', .ok ranges)) :
    (q'.entryBodies x).map localNames = (q.entryBodies x).map localNames := by
  have hq' : q' = (q.transform commonUnits).transform (Node.clamps ranges) := eq_insertClamps hr
  rw [hq', entryBodies_transform, entryBodies_transform, map_map, map_map]
  refine congrArg (List.map · _) (funext fun body => ?_)
  exact (localNames_transform _ _).trans (localNames_transform _ _)

lemma nodup_localNames {body} (h : p.resolveNames = (q, .ok t)) (hbody : body ∈ q.entryBodies x) :
    (localNames body).Nodup := by
  obtain ⟨F, ht, hsorted, hq⟩ := unitsResolved h
  obtain ⟨i, hmem, hx⟩ := mem_filterMap.mp hbody
  obtain ⟨l, kind, rfl⟩ := EntryPoint.exists_event hx
  obtain ⟨m, hm⟩ := mem_iff_getElem?.mp hmem
  have hi : (Node.unit q).at? [m] = some (.item (.event l kind body)) := by
    rw [Node.at?, Node.children, getElem?_map, hm]
    rfl
  have place {j : Nat} {s : Stmt} (hj : body[j]? = some s) : (Node.unit q).at? ([m] ++ [j]) = some (.stmt s) := by
    rw [Node.at?_concat, hi, Option.bind_some, Node.children, Node.ofBlock, getElem?_map, hj]
    rfl
  have block {j : Nat} {s : Stmt} (hj : body[j]? = some s) : (q.blocksAt ([m] ++ [j])).head? = some ⟨[m], 0⟩ := by
    rw [blocksAt_child hi (place hj), Node.inner, Node.around, getElem?_map, hj]
    rfl
  have met {j : Nat} {s : Stmt} (hj : body[j]? = some s) : ∃ env, q.Meets ([m] ++ [j]) (.node (.stmt s)) env := by
    rcases meets_or_unread (place hj) with ⟨y, env, hy, hread, hnode⟩ | hconfig | hrange
    · cases y <;> cases hnode
      · exact ⟨env, hy⟩
      · cases hread
    · obtain ⟨b, l', entries, j', c, hb, he⟩ := hconfig
      have hlength := congrArg List.length he
      rcases b with _ | ⟨m', _ | ⟨n, b⟩⟩
      · cases hb
      · obtain rfl : m = m' := (List.cons.inj he).1
        cases hi.symm.trans hb
      · simp only [length_append, length_cons, length_nil] at hlength
        omega
    · obtain ⟨b, l', d, j', g, i', c, hb, -, -, he⟩ := hrange
      have hlength := congrArg List.length he
      rcases b with _ | ⟨m', b⟩
      · cases hb
      · simp only [length_append, length_cons, length_nil] at hlength
        omega
  rw [localNames, List.Nodup, pairwise_filterMap, pairwise_iff_getElem]
  intro j j' hj hj' hlt name hname name' hname'
  have hs := getElem?_eq_getElem hj
  have hs' := getElem?_eq_getElem hj'
  obtain ⟨l1, d, hd, rfl⟩ := Stmt.exists_var hname
  obtain ⟨l2, d', hd', rfl⟩ := Stmt.exists_var hname'
  rw [hd] at hs
  rw [hd'] at hs'
  obtain ⟨env, hmet⟩ := met hs'
  have hplaces : [m] ++ [j] < [m] ++ [j'] := by simp [cons_lt_cons_iff, hlt]
  have hblock := hmet.blocks_of_ne_unit rfl (by simp [Spot.toNode]) ▸ block hs'
  exact name_ne_of_lt (.behind (place hs) rfl (block hs)) hplaces hmet hq rfl hblock

/-- The blocks of the main unit for one function are written as one block of the target. Code of later blocks runs just
if no return can leave an earlier one. Nothing is declared twice just if no two blocks declare a common name. A name in
one of the blocks that stands for a declaration at the top of the main unit is written as it is; it finds a name of an
earlier block just if one of them declares it. -/
theorem event_blocks_joined (x : EntryPoint) (hp : p.Read) (h : p.resolveNames = (q, .ok t))
    (hr : q.clampRanges = (q', .ok ranges)) (hk : k.table = t) :
    ∃ code, q'.Assembled k x code ∧
      (∀ turns earlier later, code = earlier ++ later →
        TargetStmt.Follows turns earlier.flatten later.flatten) ∧
      (((q'.entryBodies x).flatMap localNames).Nodup ↔
        ((q'.entryBodies x).map localNames).Pairwise List.Disjoint) ∧
      ∀ m i c l r id, q'.items[m]? = some i → (x.body? i).isSome →
        (Node.unit q).at? (m :: c) = some (.expr (.name l r)) → r.symbol = some id →
        (t.get id).scope = SymbolTable.root + 1 →
        (∃ body later, x.body? i = some body ∧ q'.entryBodies x = q'.bodiesBefore x m ++ body :: later) ∧
          ((Node.unit q').within? (m :: c)).map Node.inside = some (.expr (.name l r)) ∧
          (Expr.name l r).code k = r.name.text ∧
          ∀ found, q.TargetFinds ((q'.bodiesBefore x m).flatMap localNames) (m :: c) r.name.text found ↔
            found = if r.name.text ∈ (q'.bodiesBefore x m).flatMap localNames then .around else .top := by
  obtain ⟨F, ht, hsorted, hq⟩ := unitsResolved h
  obtain ⟨blockOf, hF⟩ := exists_blockOf hsorted
  obtain ⟨code, hcode⟩ := exists_assembled k x q'
  refine ⟨code, hcode, ?_, ?_, ?_⟩
  · rintro turns earlier later rfl
    obtain ⟨n, hn⟩ := hcode.blocks
    have henclosed := enclosed_blocks (k := k) (looped_of_entryBodies (x := x) (hp.looped_clampRanges h hr)) n
    rw [← hn, flatten_append, TargetStmt.blockJumps_append, TargetStmt.enclosed_append] at henclosed
    exact TargetStmt.follows turns henclosed.1 later.flatten
  · rw [flatMap_def, nodup_flatten]
    refine and_iff_right fun names hnames => ?_
    rw [map_localNames_clampRanges hr] at hnames
    obtain ⟨body, hbody, rfl⟩ := mem_map.mp hnames
    exact nodup_localNames h hbody
  · intro m i c l r id hi hb ha hid hs
    obtain ⟨hname, hden⟩ := hp.name_found h hq hF ha hid
    obtain ⟨body, hbody⟩ := Option.isSome_iff_exists.mp hb
    subst hk
    refine ⟨⟨body, _, hbody, entryBodies_eq hi hbody⟩, ?_, code_of_main (mainScoped h) hid hs hname, fun found =>
      targetFinds_iff (hden.freeInBlocks ht (mainScoped h) hs)⟩
    rw [map_inside_clampRanges hp h hr, ha]
    rfl

end Program

namespace Sample

def startText : String := "mut int x = 0
mut int y = 0
on start { mut int x = 1 }
on start {
    y = x
    return
}
on start { mut int x = 2 }"

def isReturning : List (List Stmt) → Bool
  | [.var _ ⟨_, _, _, some (.literal ..), _, _⟩] :: [.assign _ _ (.name ..), .ret _ none] :: _ => true
  | _ => false

lemma blockExits_lines_append (texts : List String) (ss : List TargetStmt) :
    TargetStmt.blockExits (texts.map .line ++ ss) = TargetStmt.blockExits ss := by
  induction texts with
  | nil => rfl
  | cons text texts ih => exact ih

lemma exits_of_isReturning {k} {bodies : List (List Stmt)} (h : isReturning bodies = true) (n : Nat) :
    ∃ first second later, ((bodies.mapM (blockTarget k [] 0)).run n).1 = first :: second :: later ∧
      TargetStmt.blockExits first = [.done] ∧ TargetStmt.blockExits (first ++ second) = [.returned] := by
  unfold isReturning at h
  split at h
  case h_2 => cases h
  case h_1 l qualifier type name l' v range symbol l1 target l2 r l3 later =>
    have hfirst : ∃ texts : List String, ((blockTarget k [] 0
        [.var l ⟨qualifier, type, name, some (.literal l' v), range, symbol⟩]).run n).1 = texts.map .line := by
      rw [blockTarget, Stmt.target]
      split
      · exact ⟨_ :: k.plan.setup _ name.text, append_nil _⟩
      · exact ⟨[_], rfl⟩
    obtain ⟨texts, htexts⟩ := hfirst
    refine ⟨_, _, _, by rw [run_mapM_cons, run_mapM_cons, htexts], ?_, ?_⟩
    · rw [← append_nil (texts.map _), blockExits_lines_append]
      rfl
    · rw [blockExits_lines_append]
      rfl

def mainName? (t : SymbolTable) (p : Program) (a : List Nat) : Option String :=
  match (Node.unit p).at? a with
  | some (.expr (.name _ r)) =>
    if r.symbol.any fun id => (t.get id).scope = SymbolTable.root + 1 then some r.name.text else none
  | _ => none

lemma of_mainName? {t : SymbolTable} {p} {a : List Nat} {name} (h : mainName? t p a = some name) :
    ∃ l r id, (Node.unit p).at? a = some (.expr (.name l r)) ∧ r.symbol = some id ∧
      (t.get id).scope = SymbolTable.root + 1 ∧ r.name.text = name := by
  unfold mainName? at h
  split at h
  case h_2 => cases h
  case h_1 l r ha =>
    split at h
    case isFalse => cases h
    case isTrue hany =>
      obtain ⟨id, hid, hs⟩ := (Option.any_eq_true ..).mp hany
      exact ⟨l, r, id, ha, hid, by simpa using hs, Option.some.inj h⟩

/-- The return of the second block ends `setup()`, the variable of the third is declared already, and the second block
reads the variable of the first one. -/
theorem start_blocks_joined : ∃ q q' ranges code, (ofText startText).Read ∧
    (ofText startText).resolveNames = (q, .ok (tableOf (ofText startText))) ∧ q.clampRanges = (q', .ok ranges) ∧
    q'.Assembled (plainScene (ofText startText)) .start code ∧
    (∀ turns e o x, TargetStmt.BlockRuns turns false (code.take 1).flatten e o → o.ending = some x → x = .done) ∧
    (∀ turns e, ∃ o, TargetStmt.BlockRuns turns false (code.take 2).flatten e o ∧ o.ending = some .returned ∧
      TargetStmt.BlockRuns turns false code.flatten e o) ∧
    ¬ ((q'.entryBodies .start).flatMap localNames).Nodup ∧
    q.TargetFinds ((q'.bodiesBefore .start 3).flatMap localNames) [3, 0, 1] "x" .around ∧
    q.TargetFinds ((q'.bodiesBefore .start 3).flatMap localNames) [3, 0, 0] "y" .top := by
  have hall : passes startText = true ∧
      let q := (ofText startText).resolveNames.1
      let q' := q.clampRanges.1
      mainName? (tableOf (ofText startText)) q [3, 0, 1] = some "x" ∧
        mainName? (tableOf (ofText startText)) q [3, 0, 0] = some "y" ∧
        (q'.entryBodies .start).map localNames = [["x"], [], ["x"]] ∧
        (q'.bodiesBefore .start 3).flatMap localNames = ["x"] ∧ isReturning (q'.entryBodies .start) ∧
        (q'.items[3]?.bind EntryPoint.start.body?).isSome := by decide +kernel
  obtain ⟨hpasses, hx, hy, hnames, hbefore, hreturning, hevent⟩ := hall
  obtain ⟨hread, h, hr⟩ := of_passes startText hpasses
  have hk := plainScene_table (ofText startText)
  generalize (ofText startText).resolveNames.1 = q at *
  generalize q.clampRanges.1 = q' at *
  generalize plainScene (ofText startText) = k at *
  obtain ⟨code, hcode, hfollows, hnodup, hfinds⟩ := Program.event_blocks_joined .start hread h hr hk
  obtain ⟨n, hn⟩ := hcode.blocks
  obtain ⟨first, second, later, hsplit, hfirst, hsecond⟩ := exits_of_isReturning (k := k) hreturning n
  obtain ⟨i, hi, hbody⟩ : ∃ i, q'.items[3]? = some i ∧ (EntryPoint.start.body? i).isSome := by
    obtain ⟨body, hbody⟩ := Option.isSome_iff_exists.mp hevent
    obtain ⟨i, hi, hx⟩ := Option.bind_eq_some_iff.mp hbody
    exact ⟨i, hi, by rw [hx]; rfl⟩
  have finds {c : List Nat} {name : String} (hu : mainName? (tableOf (ofText startText)) q (3 :: c) = some name)
      (found : Found) : q.TargetFinds ((q'.bodiesBefore .start 3).flatMap localNames) (3 :: c) name found ↔
        found = if name ∈ ["x"] then .around else .top := by
    obtain ⟨l, r, id, ha, hid, hs, rfl⟩ := of_mainName? hu
    rw [(hfinds 3 i c l r id hi hbody ha hid hs).2.2.2 found, hbefore]
  rw [hsplit] at hn
  subst hn
  refine ⟨q, q', _, _, hread, h, hr, hcode, fun turns => ?_, fun turns e => ?_, ?_, ?_, ?_⟩
  · exact (hfollows turns [first] (second :: later) rfl).reached.mpr (by simp [hfirst])
  · have hskipped := (hfollows turns [first, second] later rfl).skipped (by simp [hsecond]) e
    simpa using hskipped
  · rw [flatMap_def, hnames]
    decide
  · exact (finds hx _).mpr rfl
  · exact (finds hy _).mpr rfl

end Sample

end SketchCompiler
