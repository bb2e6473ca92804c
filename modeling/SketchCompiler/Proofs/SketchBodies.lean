import SketchCompiler.Proofs.JumpSites
import SketchCompiler.Proofs.SketchStates

namespace SketchCompiler

open List Node

variable {s t : Emission} {k : Scene} {body : List Stmt} {b : CodeBody}

/-- Statements that are written together. The first one is child `start` of the node at the place. -/
structure CodeBody where
  place : List Nat
  start : Nat
  stmts : List Stmt

def Expr.handlerBodies (o : List Nat) : Expr → List CodeBody
  | .guarded _ _ handler => [⟨o, 1, handler⟩]
  | .clamp _ (.guarded _ _ handler) _ _ => [⟨o ++ [0], 1, handler⟩]
  | _ => []

def VarDecl.globalBodies (k : Scene) (o : List Nat) (d : VarDecl) : List CodeBody :=
  if d.symbol.isSome && (d.symbol.bind k.plan.instance?).isNone then
    (d.initializer.map (·.handlerBodies (o ++ [(ofRange? d.range).length]))).getD []
  else []

def methodBodies (o : List Nat) (start : Nat) : List (Located FunctionDecl) → List CodeBody
  | [] => []
  | m :: ms => ⟨o, start, m.value.body⟩ :: methodBodies o (start + m.value.body.length) ms

def ClassDecl.bodies (o : List Nat) (d : ClassDecl) : List CodeBody :=
  d.constructor.toList.map (fun c => ⟨o, d.fields.length, c.body⟩) ++
    methodBodies o (d.fields.length + (ofConstructor? d.constructor).length) d.methods

mutual

/-- All bodies of an item at the place `o`. Handlers of class fields are left out. -/
def Item.bodies (k : Scene) (o : List Nat) : Item → List CodeBody
  | .var _ d => d.globalBodies k (o ++ [0])
  | .function _ d => [⟨o, 0, d.body⟩]
  | .classDecl _ d => d.bodies o
  | .event _ _ body => [⟨o, 0, body⟩]
  | .interrupt _ d => [⟨o, 1, d.body⟩]
  | .task _ d => [⟨o, (ofExpr? d.period).length, d.body⟩]
  | .module _ _ _ _ program => program.bodies k (o ++ [0])
  | _ => []

def itemsBodies (k : Scene) (o : List Nat) (i : Nat) : List Item → List CodeBody
  | [] => []
  | x :: xs => x.bodies k (o ++ [i]) ++ itemsBodies k o (i + 1) xs

def Program.bodies (k : Scene) (o : List Nat) : Program → List CodeBody
  | ⟨_, _, items⟩ => itemsBodies k o 0 items

end

def Shows (k : Scene) (body : List Stmt) (ls : List Line) : Prop :=
  ∃ depth n, ((blockLines k depth body).run n).1 <:+: ls

lemma Shows.mono {ls ls'} (h : Shows k body ls) (hl : ls <:+: ls') : Shows k body ls' := by
  obtain ⟨depth, n, h⟩ := h
  exact ⟨depth, n, h.trans hl⟩

namespace Emission

/-- What is left to `setup()` and `loop()` stays there. -/
structure Grows (s t : Emission) : Prop where
  setup : s.setup ⊆ t.setup
  starts : s.starts ⊆ t.starts
  loops : s.loops ⊆ t.loops

lemma Grows.refl (s : Emission) : s.Grows s := ⟨List.Subset.refl _, List.Subset.refl _, List.Subset.refl _⟩

lemma Grows.trans {u : Emission} (h : s.Grows t) (h' : t.Grows u) : s.Grows u :=
  ⟨List.Subset.trans h.setup h'.setup, List.Subset.trans h.starts h'.starts, List.Subset.trans h.loops h'.loops⟩

/-- The statements are left to `setup()` or `loop()`. -/
def Defers (s : Emission) (body : List Stmt) : Prop :=
  (∃ value, .guard value body ∈ s.setup) ∨ body ∈ s.starts ∨ body ∈ s.loops

lemma Grows.defers {body} (h : s.Grows t) (hs : s.Defers body) : t.Defers body := by
  rcases hs with ⟨value, hs⟩ | hs | hs
  · exact .inl ⟨value, h.setup hs⟩
  · exact .inr (.inl (h.starts hs))
  · exact .inr (.inr (h.loops hs))

end Emission

lemma Item.grows_leave (k : Scene) (path : List String) (root : Bool) (i : Item) (s : Emission) :
    s.Grows (i.leave k path root s) := by
  have append {α : Type} (as bs : List α) : as ⊆ as ++ bs := subset_append_left as bs
  have same {α : Type} (as : List α) : as ⊆ as := List.Subset.refl as
  cases i with
  | var l d => exact ⟨append _ _, same _, same _⟩
  | event l kind body =>
    cases kind with
    | start =>
      cases root with
      | true => exact ⟨same _, append _ _, same _⟩
      | false => exact ⟨append _ _, same _, same _⟩
    | loop =>
      cases root with
      | true => exact ⟨same _, same _, append _ _⟩
      | false => exact ⟨same _, same _, same _⟩
    | signal r => exact ⟨same _, same _, same _⟩
  | interrupt l d => exact ⟨append _ _, same _, same _⟩
  | task l d => exact ⟨same _, same _, same _⟩
  | _ => exact .refl s

lemma Program.grows_stateAfter (k : Scene) (p : Program) (xs ys : List (List Nat × Role)) :
    (p.stateAfter k xs).Grows (p.stateAfter k (xs ++ ys)) := by
  induction ys using List.reverseRecOn with
  | nil => rw [append_nil]; exact .refl _
  | append_singleton ys y ih =>
    obtain ⟨n, hn⟩ := p.stateAfter_snoc k (xs ++ ys) y
    have hleave : (p.stateAfter k (xs ++ ys)).Grows (p.leave k y (p.stateAfter k (xs ++ ys))) := by
      unfold Program.leave
      split
      · exact Item.grows_leave k _ _ _ _
      · exact .refl _
    rw [← append_assoc, hn]
    exact ⟨(ih.trans hleave).setup, (ih.trans hleave).starts, (ih.trans hleave).loops⟩

namespace Emit

variable {k : Scene} {body : List Stmt}

/-- The step writes the statements, or leaves them to `setup()` or `loop()`. -/
def Writes (k : Scene) (body : List Stmt) (m : Emit (List Line)) : Prop :=
  ∀ s, Shows k body (m.run s).1 ∨ (m.run s).2.Defers body

lemma shows_functionLines (k : Scene) (signature : String) (body : List Stmt) (s : Emission) :
    Shows k body ((functionLines k signature body).run s).1 :=
  ⟨1, s.temporaries, [.code 0 s!"{signature} \x7b"], [.code 0 "\x7d", .blank], rfl⟩

lemma shows_flatten {lss : List (List Line)} {ls} (hl : ls ∈ lss) (h : Shows k body ls) : Shows k body lss.flatten :=
  h.mono (infix_of_mem_flatten hl)

lemma mem_run_mapM {α β : Type} {f : α → Emit β} {as : List α} {a : α} (ha : a ∈ as) (s : Emission) :
    ∃ t, ((f a).run t).1 ∈ ((as.mapM f).run s).1 := by
  induction as generalizing s with
  | nil => cases ha
  | cons b as ih =>
    rw [run_mapM_cons]
    rcases mem_cons.mp ha with rfl | ha
    · exact ⟨s, mem_cons_self⟩
    · obtain ⟨t, ht⟩ := ih ha ((f b).run s).2
      exact ⟨t, mem_cons_of_mem _ ht⟩

end Emit

open Emit

lemma writes_eventLines (k : Scene) (path : List String) (root : Bool) (kind : Event) (body : List Stmt) :
    Writes k body (eventLines k path root kind body) := by
  intro s
  have hlast {bodies : List (List Stmt)} : body ∈ bodies ++ [body] := mem_append_right _ (mem_singleton_self body)
  cases kind with
  | start =>
    cases root with
    | true => exact .inr (.inr (.inl hlast))
    | false => exact .inl ⟨1, s.temporaries, [_], [_, _], rfl⟩
  | loop =>
    cases root with
    | true => exact .inr (.inr (.inr hlast))
    | false => exact .inl ⟨1, s.temporaries, [_], [_, _], rfl⟩
  | signal r => exact .inl ⟨1, s.temporaries, [_], [_, _], rfl⟩

lemma InterruptDecl.writes_lines (k : Scene) (path : List String) (d : InterruptDecl) :
    Writes k d.body (d.lines k path) := by
  intro s
  rw [d.run_lines k path s]
  exact .inl ⟨1, s.temporaries, [_], [_, _], rfl⟩

lemma TaskDecl.writes_lines (k : Scene) (path : List String) (d : TaskDecl) : Writes k d.body (d.lines k path) := by
  obtain ⟨name, period, body, symbol⟩ := d
  intro s
  cases period with
  | none => exact .inl ⟨1, s.temporaries, [_], [_, _], rfl⟩
  | some period => exact .inl ⟨1, s.temporaries, [_, _], [_, _], rfl⟩

lemma Expr.handler?_of_mem {e : Expr} {o} (hb : b ∈ e.handlerBodies o) : e.handler? = some b.stmts := by
  unfold Expr.handlerBodies at hb
  split at hb
  · rw [mem_singleton.mp hb]
    rfl
  · rw [mem_singleton.mp hb]
    rfl
  · cases hb

lemma VarDecl.writes_globalLines (k : Scene) (o : List Nat) (d : VarDecl) (hb : b ∈ d.globalBodies k o) :
    Writes k b.stmts (d.globalLines k) := by
  unfold VarDecl.globalBodies at hb
  split at hb
  case isFalse => cases hb
  case isTrue hsymbol =>
    obtain ⟨hsome, hnone⟩ := Bool.and_eq_true_iff.mp hsymbol
    obtain ⟨id, hid⟩ := Option.isSome_iff_exists.mp hsome
    have hplan : k.plan.instance? id = none := by simpa [hid] using hnone
    cases hi : d.initializer with
    | none => simp [hi] at hb
    | some e =>
      have hhandler : e.handler? = some b.stmts := e.handler?_of_mem (by simpa [hi] using hb)
      intro s
      refine .inr (.inl ⟨k.table.qualifiedName id "::", ?_⟩)
      rw [d.run_globalLines k s]
      simp only [VarDecl.deferred, hid, hplan, hi, Option.bind_some, hhandler]
      exact mem_append_right _ (mem_singleton_self _)

namespace ClassDecl

variable {o : List Nat} {b : CodeBody}

/-- The functions that are written behind the class: the head and the body of each. -/
def callables (d : ClassDecl) : List (String × List Stmt) :=
  d.constructor.toList.map (fun c => (s!"{d.name.text}::{d.name.text}({paramCodes c.params})", c.body)) ++
    d.methods.map fun m => (m.value.signature s!"{d.name.text}::{m.value.name.text}", m.value.body)

variable {k : Scene} {d : ClassDecl}

lemma functionLines_infix {f : String × List Stmt} (hf : f ∈ d.callables) (s : Emission) :
    ∃ s', ((functionLines k f.1 f.2).run s').1 <:+: ((d.bodyLines k).run s).1 := by
  have hrun : ((d.bodyLines k).run s).1 = ((d.constructorLines k).run s).1 ++
      ((d.methods.mapM fun m => functionLines k (m.value.signature s!"{d.name.text}::{m.value.name.text}")
        m.value.body).run ((d.constructorLines k).run s).2).1.flatten := rfl
  rw [hrun]
  rcases mem_append.mp hf with hf | hf
  · obtain ⟨c, hc, rfl⟩ := mem_map.mp hf
    refine ⟨s, List.IsInfix.trans ?_ (prefix_append _ _).isInfix⟩
    rewrite [constructorLines, Option.mem_toList.mp hc]
    exact infix_refl _
  · obtain ⟨m, hm, rfl⟩ := mem_map.mp hf
    obtain ⟨s', hmem⟩ := mem_run_mapM (f := fun m : Located FunctionDecl =>
      functionLines k (m.value.signature s!"{d.name.text}::{m.value.name.text}") m.value.body) hm
      ((d.constructorLines k).run s).2
    exact ⟨s', (infix_of_mem_flatten hmem).trans (suffix_append _ _).isInfix⟩

lemma mem_methodBodies {start} {ms} (hb : b ∈ methodBodies o start ms) : ∃ m ∈ ms, b.stmts = m.value.body := by
  induction ms generalizing start with
  | nil => cases hb
  | cons m ms ih =>
    rcases mem_cons.mp hb with rfl | hb
    · exact ⟨m, mem_cons_self, rfl⟩
    · obtain ⟨m', hm', h⟩ := ih hb
      exact ⟨m', mem_cons_of_mem _ hm', h⟩

lemma shows_bodyLines (hb : b ∈ d.bodies o) (s : Emission) : Shows k b.stmts ((d.bodyLines k).run s).1 := by
  have hcallable : ∃ f ∈ d.callables, f.2 = b.stmts := by
    rcases mem_append.mp hb with hb | hb
    · obtain ⟨c, hc, rfl⟩ := mem_map.mp hb
      exact ⟨_, mem_append_left _ (mem_map_of_mem hc), rfl⟩
    · obtain ⟨m, hm, hstmts⟩ := mem_methodBodies hb
      exact ⟨_, mem_append_right _ (mem_map_of_mem hm), hstmts.symm⟩
  obtain ⟨f, hf, hstmts⟩ := hcallable
  obtain ⟨s', hinfix⟩ := functionLines_infix (k := k) hf s
  exact hstmts ▸ (shows_functionLines k f.1 f.2 s').mono hinfix

end ClassDecl

lemma Item.writes_bodies (k : Scene) (path : List String) (root : Bool) (o : List Nat) (i : Item)
    (hi : ∀ l aliasName p symbol program, i ≠ .module l aliasName p symbol program) (hb : b ∈ i.bodies k o) :
    Writes k b.stmts (i.lines k path root) ∨ ∀ s, Shows k b.stmts ((i.methodLines k).run s).1 := by
  have code (h : Writes k b.stmts (i.codeLines k path root)) : Writes k b.stmts (i.lines k path root) :=
    fun s => (h s).imp_left (·.mono (suffix_append _ _).isInfix)
  cases i with
  | var l d => exact .inl (code (d.writes_globalLines k _ hb))
  | function l d =>
    obtain rfl := mem_singleton.mp hb
    exact .inl (code fun s => .inl (shows_functionLines k _ _ s))
  | classDecl l d => exact .inr (ClassDecl.shows_bodyLines hb)
  | event l kind body =>
    obtain rfl := mem_singleton.mp hb
    exact .inl (code (writes_eventLines k path root kind body))
  | interrupt l d =>
    obtain rfl := mem_singleton.mp hb
    exact .inl (code (d.writes_lines k path))
  | task l d =>
    obtain rfl := mem_singleton.mp hb
    exact .inl (code (d.writes_lines k path))
  | module l aliasName p symbol program => exact absurd rfl (hi l aliasName p symbol program)
  | _ => cases hb

mutual

lemma Item.exists_of_mem_bodies (k : Scene) (b : CodeBody) (o : List Nat) (i : Item) (hb : b ∈ i.bodies k o) :
    ∃ a i' o', (item i).at? a = some (.item i') ∧ b ∈ i'.bodies k o' ∧
      ∀ l aliasName p symbol program, i' ≠ .module l aliasName p symbol program := by
  cases i with
  | module l aliasName p symbol program =>
    obtain ⟨a, i', o', ha, h⟩ := program.exists_of_mem_bodies k b _ hb
    exact ⟨0 :: a, i', o', ha, h⟩
  | _ => exact ⟨[], _, o, rfl, hb, nofun⟩

lemma exists_of_mem_itemsBodies (k : Scene) (b : CodeBody) (o : List Nat) (j : Nat) (is : List Item)
    (hb : b ∈ itemsBodies k o j is) : ∃ (m : Nat) (i : Item) (a : List Nat) (i' : Item) (o' : List Nat),
      is[m]? = some i ∧ (item i).at? a = some (.item i') ∧ b ∈ i'.bodies k o' ∧
        ∀ l aliasName p symbol program, i' ≠ .module l aliasName p symbol program := by
  cases is with
  | nil => cases hb
  | cons i is =>
    rcases mem_append.mp hb with hb | hb
    · obtain ⟨a, i', o', h⟩ := i.exists_of_mem_bodies k b _ hb
      exact ⟨0, i, a, i', o', rfl, h⟩
    · obtain ⟨m, h⟩ := exists_of_mem_itemsBodies k b o (j + 1) is hb
      exact ⟨m + 1, h⟩

lemma Program.exists_of_mem_bodies (k : Scene) (b : CodeBody) (o : List Nat) (p : Program) (hb : b ∈ p.bodies k o) :
    ∃ a i' o', (unit p).at? a = some (.item i') ∧ b ∈ i'.bodies k o' ∧
      ∀ l aliasName p symbol program, i' ≠ .module l aliasName p symbol program := by
  obtain ⟨_, _, items⟩ := p
  obtain ⟨m, i, a, i', o', hm, ha, h⟩ := exists_of_mem_itemsBodies k b o 0 items hb
  exact ⟨m :: a, i', o', by simpa [at?, children, hm] using ha, h⟩

end

lemma shows_withTemporaries (k : Scene) (depth : Nat) (body : List Stmt) (s : Emission) :
    Shows k body ((withTemporaries (blockLines k depth body)).run s).1 :=
  ⟨depth, s.temporaries, infix_refl _⟩

lemma shows_bodies {bodies : List (List Stmt)} (h : body ∈ bodies) (s : Emission) :
    Shows k body ((bodies.mapM fun body => withTemporaries (blockLines k 1 body)).run s).1.flatten := by
  obtain ⟨t, hmem⟩ := mem_run_mapM (f := fun body => withTemporaries (blockLines k 1 body)) h s
  exact shows_flatten hmem (shows_withTemporaries k 1 body t)

lemma run_setupLines (k : Scene) (s : Emission) : ((setupLines k).run s).1 =
    .code 0 "void setup() \x7b" :: ((s.setup.mapM (Deferred.lines k)).run s).1.flatten ++
      ((((s.setup.mapM (Deferred.lines k)).run s).2.starts.mapM fun body => withTemporaries (blockLines k 1 body)).run
        ((s.setup.mapM (Deferred.lines k)).run s).2).1.flatten ++ [.code 0 "\x7d", .blank] := rfl

lemma run_loopLines (k : Scene) (s : Emission) : ((loopLines k).run s).1 =
    .code 0 "void loop() \x7b" :: s.schedule.map (Line.code 1) ++ s.dispatch.flatMap (fun x => dispatchLines x.1 x.2) ++
      ((s.loops.mapM fun body => withTemporaries (blockLines k 1 body)).run s).1.flatten ++ [.code 0 "\x7d"] := rfl

lemma shows_setupLines (h : (∃ value, .guard value body ∈ s.setup) ∨ body ∈ s.starts) :
    Shows k body ((setupLines k).run s).1 := by
  rw [run_setupLines]
  rcases h with ⟨value, h⟩ | h
  · obtain ⟨t, hmem⟩ := mem_run_mapM (f := Deferred.lines k) h s
    have hguard : Shows k body (((Deferred.guard value body).lines k).run t).1 :=
      (shows_withTemporaries k 2 body t).mono ⟨[.code 1 s!"if (!({value})) \x7b"], [.code 1 "\x7d"], rfl⟩
    rw [append_assoc]
    exact (shows_flatten hmem hguard).mono ⟨[.code 0 "void setup() \x7b"], _, rfl⟩
  · obtain ⟨n, hn⟩ := Quiet.mapM (quiet_deferredLines k) s.setup s
    rw [hn]
    exact (shows_bodies h _).mono ⟨_, _, rfl⟩

lemma shows_loopLines (h : body ∈ s.loops) : Shows k body ((loopLines k).run s).1 := by
  rw [run_loopLines]
  exact (shows_bodies h s).mono ⟨_, _, rfl⟩

lemma Program.shows_body {p : Program} (hb : b ∈ p.bodies k []) : Shows k b.stmts ((p.sketchLines k).run {}).1 := by
  obtain ⟨a, i, o, ha, hb, hi⟩ := p.exists_of_mem_bodies k b [] hb
  rw [sketchLines_of_state]
  have piece {x : SketchPiece} (hx : x ∈ p.sketchPieces k) (h : Shows k b.stmts x.lines) (ls : List Line) :
      Shows k b.stmts (p.headLines k ++ (p.sketchPieces k).flatMap (·.lines) ++ ls) := by
    rw [flatMap_def]
    exact (shows_flatten (mem_map_of_mem hx) h).mono ⟨_, _, rfl⟩
  have hmethods := exists_piece k ha (.inl rfl : Role.methods.Suits i)
  obtain ⟨xs, ys, hkeys⟩ := append_of_mem (mem_keys ha (.inl rfl : Role.code.Suits i))
  obtain ⟨zs, ws, hpieces⟩ := sketchPieces_split k hkeys
  rcases i.writes_bodies k (p.aliasesTo a) (a.length = 1) o hi hb with h | h
  · rcases h (p.stateAfter k xs) with h | h
    · rw [append_assoc]
      refine piece (hpieces ▸ mem_append_right _ mem_cons_self) ?_ _
      rwa [writes_code k ha]
    · have hstate : (p.stateAfter k (xs ++ [(a, .code)])).Defers b.stmts := by
        rwa [stateAfter_concat, writes_code k ha]
      have hgrows := p.grows_stateAfter k (xs ++ [(a, .code)]) ys
      rw [append_assoc, singleton_append, ← hkeys] at hgrows
      rcases or_assoc.mpr (hgrows.defers hstate) with h | h
      · exact (shows_setupLines h).mono ⟨_, _, rfl⟩
      · obtain ⟨n, hn⟩ := quiet_setupLines k (p.stateAfter k p.keys)
        refine Shows.mono (shows_loopLines ?_) (suffix_append _ _).isInfix
        rwa [hn]
  · obtain ⟨x, hx, -, path, root, s, hlines⟩ := hmethods
    rw [append_assoc]
    exact piece hx (hlines ▸ h s) _

end SketchCompiler
