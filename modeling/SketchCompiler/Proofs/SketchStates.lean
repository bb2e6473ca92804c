import Mathlib.Data.List.Induction
import SketchCompiler.Proofs.SketchPieces

namespace SketchCompiler

open Emit List Node

namespace Emit

variable {α β : Type}

/-- The step only takes temporary names. -/
def Quiet (m : Emit α) : Prop := ∀ s, ∃ n, (m.run s).2 = { s with temporaries := n }

lemma Quiet.pure (a : α) : Quiet (Pure.pure a : Emit α) := fun s => ⟨s.temporaries, rfl⟩

lemma Quiet.bind {m : Emit α} {f : α → Emit β} (hm : Quiet m) (hf : ∀ a, Quiet (f a)) : Quiet (m >>= f) := by
  intro s
  obtain ⟨n, hn⟩ := hm s
  obtain ⟨n', hn'⟩ := hf (m.run s).1 (m.run s).2
  refine ⟨n', hn'.trans ?_⟩
  rw [hn]

lemma Quiet.mapM {f : α → Emit β} (hf : ∀ a, Quiet (f a)) (as : List α) : Quiet (as.mapM f) := by
  induction as with
  | nil => exact .pure _
  | cons a as ih =>
    rw [mapM_cons]
    exact (hf a).bind fun _ => ih.bind fun _ => .pure _

lemma quiet_withTemporaries (m : StateM Nat α) : Quiet (withTemporaries m) := fun _ => ⟨_, rfl⟩

lemma quiet_functionLines (k : Scene) (signature : String) (body : List Stmt) :
    Quiet (functionLines k signature body) :=
  (quiet_withTemporaries _).bind fun _ => .pure _

lemma quiet_methodLines (k : Scene) (i : Item) : Quiet (i.methodLines k) := by
  cases i with
  | classDecl l d =>
    refine .bind ?_ fun _ => (Quiet.mapM (fun m => quiet_functionLines k _ _) _).bind fun _ => .pure _
    unfold ClassDecl.constructorLines
    cases d.constructor with
    | none => exact .pure _
    | some c => exact quiet_functionLines k _ _
  | _ => exact .pure _

lemma quiet_roleLines (k : Scene) (path : List String) (root : Bool) {r} (hr : r ≠ .code) (i : Item) :
    Quiet (i.roleLines k path root r) := by
  cases r with
  | code => exact absurd rfl hr
  | methods => exact quiet_methodLines k i
  | opening => cases i <;> exact .pure _
  | closing => cases i <;> exact .pure _
  | _ => exact .pure _

lemma quiet_deferredLines (k : Scene) (e : Deferred) : Quiet (e.lines k) := by
  cases e with
  | line text => exact .pure _
  | guard value handler => exact (quiet_withTemporaries _).bind fun _ => .pure _

lemma quiet_bodies (k : Scene) (bodies : List (List Stmt)) :
    Quiet (bodies.mapM fun body => withTemporaries (blockLines k 1 body)) :=
  .mapM (fun _ => quiet_withTemporaries _) bodies

lemma quiet_setupLines (k : Scene) : Quiet (setupLines k) := by
  intro s
  exact Quiet.bind (.mapM (quiet_deferredLines k) s.setup) (fun _ s' => quiet_bodies k s'.starts s') s

end Emit

def VarDecl.deferred (k : Scene) (d : VarDecl) : List Deferred :=
  match d.symbol with
  | none => []
  | some id =>
    match k.plan.instance? id, d.initializer.bind (·.handler?) with
    | some i, _ => (k.plan.setup i (k.table.qualifiedName id "::")).map .line
    | none, some handler => [.guard (k.table.qualifiedName id "::") handler]
    | none, none => []

lemma run_forM_defer (lines : List String) (s : Emission) :
    (lines.forM defer).run s = ((), { s with setup := s.setup ++ lines.map .line }) := by
  induction lines generalizing s with
  | nil => simp only [map_nil, append_nil]; rfl
  | cons line lines ih =>
    refine (ih ((defer line).run s).2).trans ?_
    rw [map_cons, append_cons]
    rfl

lemma VarDecl.run_globalLines (k : Scene) (d : VarDecl) (s : Emission) :
    (d.globalLines k).run s = ([.code 0 (d.code k ++ ";"), .blank], { s with setup := s.setup ++ d.deferred k }) := by
  have hnone : s = { s with setup := s.setup ++ [] } := by rw [append_nil]
  unfold globalLines deferred
  cases d.symbol with
  | none => exact congrArg (Prod.mk _) hnone
  | some id =>
    dsimp only
    cases k.plan.instance? id with
    | some i => exact congrArg (fun x : Unit × Emission => (_, x.2)) (run_forM_defer _ s)
    | none =>
      cases d.initializer.bind (·.handler?) with
      | some handler => rfl
      | none => exact congrArg (Prod.mk _) hnone

def numberedName (n : Nat) : String := s!"isr_{n}"

namespace InterruptDecl

def functionName (d : InterruptDecl) (n : Nat) : String := (d.name.map (·.text)).getD (numberedName n)

def head (k : Scene) (d : InterruptDecl) (n : Nat) : String :=
  "void " ++ (if k.plan.family = .avr then "" else "IRAM_ATTR ") ++ d.functionName n ++ "()"

def registration (k : Scene) (path : List String) (d : InterruptDecl) (n : Nat) : String :=
  s!"attachInterrupt(digitalPinToInterrupt({d.pin.code k}), {qualify path (d.functionName n)}, {d.trigger.text});"

lemma run_lines (k : Scene) (path : List String) (d : InterruptDecl) (s : Emission) :
    (d.lines k path).run s = (.code 0 (d.head k s.interrupts ++ " \x7b") ::
      ((blockLines k 1 d.body).run s.temporaries).1 ++ [.code 0 "\x7d", .blank], { s with
        interrupts := s.interrupts + 1
        temporaries := ((blockLines k 1 d.body).run s.temporaries).2
        setup := s.setup ++ [.line (d.registration k path s.interrupts)] }) := by
  unfold InterruptDecl.lines registration head functionName
  cases d.name <;> rfl

end InterruptDecl

lemma TaskDecl.run_lines (k : Scene) (path : List String) (d : TaskDecl) (s : Emission) : ∃ s',
    ((d.lines k path).run s).1 =
      (if d.period.isSome then [.code 0 ("unsigned long " ++ ("ys_last_" ++ d.name.text) ++ " = 0;")] else []) ++
        ((functionLines k ("void " ++ d.name.text ++ "()") d.body).run s').1 := by
  unfold TaskDecl.lines
  cases d.period with
  | none => exact ⟨_, rfl⟩
  | some period => exact ⟨_, rfl⟩

/-- The line of `loop()` that runs a task. -/
def TaskDecl.scheduled (k : Scene) (path : List String) (d : TaskDecl) : String :=
  match d.period with
  | some period =>
    let last := qualify path ("ys_last_" ++ d.name.text)
    s!"if (millis() - {last} >= {period.operand k}) \x7b {last} = millis(); {qualify path d.name.text}(); \x7d"
  | none => s!"{qualify path d.name.text}();"

/-- The state behind the code of an item, but for temporary names. -/
def Item.leave (k : Scene) (path : List String) (root : Bool) (s : Emission) : Item → Emission
  | .var _ d => { s with setup := s.setup ++ d.deferred k }
  | .event _ .start body =>
    if root then { s with starts := s.starts ++ [body] }
    else
      let name := s!"ys_start_{s.handlers}"
      let call := s!"{qualify path name}();"
      { s with handlers := s.handlers + 1, setup := s.setup ++ [.line call] }
  | .event _ .loop body =>
    if root then { s with loops := s.loops ++ [body] }
    else
      let name := s!"ys_loop_{s.handlers}"
      let call := s!"{qualify path name}();"
      { s with handlers := s.handlers + 1, schedule := s.schedule ++ [call] }
  | .event _ (.signal r) _ =>
    let name := s!"ys_on_{r.name.text}_{s.handlers}"
    let call := s!"{qualify path name}();"
    { s with handlers := s.handlers + 1, dispatch := addHandler (k.signalReference r) call s.dispatch }
  | .interrupt _ d =>
    { s with interrupts := s.interrupts + 1, setup := s.setup ++ [.line (d.registration k path s.interrupts)] }
  | .task _ d => { s with schedule := s.schedule ++ [d.scheduled k path] }
  | _ => s

lemma Item.run_lines (k : Scene) (path : List String) (root : Bool) (i : Item) (s : Emission) :
    ∃ n, ((i.lines k path root).run s).2 = { i.leave k path root s with temporaries := n } := by
  cases i with
  | var l d => exact ⟨s.temporaries, congrArg Prod.snd (d.run_globalLines k s)⟩
  | event l kind body => cases kind <;> cases root <;> exact ⟨_, rfl⟩
  | interrupt l d => exact ⟨_, congrArg Prod.snd (d.run_lines k path s)⟩
  | task l d =>
    obtain ⟨name, period, body, symbol⟩ := d
    cases period <;> exact ⟨_, rfl⟩
  | function l d => exact ⟨_, rfl⟩
  | _ => exact ⟨s.temporaries, rfl⟩

namespace Program

variable {k : Scene} {p : Program} {xs : List (List Nat × Role)} {x : List Nat × Role} {a : List Nat} {i : Item}

def leave (k : Scene) (p : Program) (x : List Nat × Role) (s : Emission) : Emission :=
  match x.2, (unit p).at? x.1 with
  | .code, some (.item i) => i.leave k (p.aliasesTo x.1) (x.1.length = 1) s
  | _, _ => s

lemma leave_code (h : (unit p).at? a = some (.item i)) (s : Emission) :
    p.leave k (a, .code) s = i.leave k (p.aliasesTo a) (a.length = 1) s := by
  simp [leave, h]

lemma writes_code (k : Scene) (h : (unit p).at? a = some (.item i)) :
    p.writes k [] true (a, .code) = i.lines k (p.aliasesTo a) (a.length = 1) := by
  rw [writes_item h]
  simp [Item.roleLines]

lemma run_writes (k : Scene) (p : Program) (x : List Nat × Role) (s : Emission) :
    ∃ n, ((p.writes k [] true x).run s).2 = { p.leave k x s with temporaries := n } := by
  obtain ⟨a, r⟩ := x
  by_cases hcode : r = .code ∧ ∃ i, (unit p).at? a = some (.item i)
  · obtain ⟨rfl, i, hi⟩ := hcode
    rw [writes_code k hi, leave_code hi]
    exact i.run_lines k _ _ s
  · have hleave : p.leave k (a, r) s = s := by
      unfold leave
      split
      · exact absurd ⟨‹_›, _, ‹_›⟩ hcode
      · rfl
    rw [hleave]
    unfold writes
    split
    · exact quiet_roleLines k _ _ (fun hr => hcode ⟨hr, _, ‹_›⟩) _ s
    · exact Quiet.pure _ s
    · exact Quiet.pure _ s

lemma stateAfter_snoc (k : Scene) (p : Program) (xs : List (List Nat × Role)) (x : List Nat × Role) :
    ∃ n, p.stateAfter k (xs ++ [x]) = { p.leave k x (p.stateAfter k xs) with temporaries := n } := by
  rw [stateAfter_concat]
  exact run_writes k p x _

end Program

end SketchCompiler
