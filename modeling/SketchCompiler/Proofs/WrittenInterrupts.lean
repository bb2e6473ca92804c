import SketchCompiler.Proofs.EventBlocks
import SketchCompiler.Proofs.HandlerNames
import SketchCompiler.Proofs.ModulePaths

namespace SketchCompiler

open Emit List Node

variable {α β : Type}

def Deferred.registration? : Deferred → Option String
  | line text => if "attachInterrupt(".toList <+: text.toList then some text else none
  | guard .. => none

def Emission.registrations (s : Emission) : List String := s.setup.filterMap Deferred.registration?

/-- What is left of an item for `setup()` to register; `n` interrupts come before. -/
def Item.registrations (k : Scene) (path : List String) (n : Nat) : Item → List String
  | .interrupt _ d => [d.registration k path n]
  | _ => []

section Steps

variable {k : Scene} {path : List String} {s : Emission}

lemma registration?_of_ne {text : String} {c} (h : text.toList.head? = some c) (hc : c ≠ 'a') :
    (Deferred.line text).registration? = none := by
  rw [Deferred.registration?, if_neg]
  intro hprefix
  obtain ⟨rest, hrest⟩ := hprefix
  rw [← hrest] at h
  exact hc (Option.some.inj h).symm

lemma registration?_registration (d : InterruptDecl) (n : Nat) :
    (Deferred.line (d.registration k path n)).registration? = some (d.registration k path n) := by
  rw [Deferred.registration?, if_pos]
  refine ⟨("digitalPinToInterrupt(" ++ (d.pin.code k ++ ("), " ++ (qualify path (d.functionName n) ++ (", " ++
    (d.trigger.text ++ ");")))))).toList, ?_⟩
  rw [← String.toList_append]
  refine congrArg String.toList ?_
  show _ = "attachInterrupt(digitalPinToInterrupt(" ++ d.pin.code k ++ "), " ++ qualify path (d.functionName n) ++
    ", " ++ d.trigger.text ++ ");"
  simp only [String.append_assoc]
  rw [← String.append_assoc]
  rfl

lemma registration?_call (hpath : ∀ x ∈ path, IsWord x.toList) {name : String} {c}
    (hname : name.toList.head? = some c) (hc : c ≠ 'a') :
    (Deferred.line (qualify path name ++ "();")).registration? = none := by
  cases path with
  | nil =>
    refine registration?_of_ne (c := c) ?_ hc
    simp [qualify, hname]
  | cons x path =>
    obtain ⟨rest, hrest⟩ : ∃ rest, (qualify (x :: path) name ++ "();").toList = x.toList ++ ':' :: rest := by
      obtain ⟨y, ys, hys⟩ := exists_cons_of_ne_nil (append_ne_nil_of_right_ne_nil path (cons_ne_nil name []))
      rw [qualify, cons_append, hys, String.toList_append, String.toList_intercalate]
      simp [intercalate_cons_cons]
    rw [Deferred.registration?, if_neg]
    rintro ⟨rest', hrest'⟩
    rw [hrest] at hrest'
    have hword : ∀ c ∈ x.toList, isWordChar c := fun c hc => PinKey.isWordChar_of_mem (hpath x mem_cons_self) hc
    have hdrop := congrArg (List.dropWhile isWordChar) hrest'
    rw [dropWhile_append_of_pos hword] at hdrop
    have hcall : List.dropWhile isWordChar ("attachInterrupt(".toList ++ rest') = '(' :: rest' := rfl
    have hcolon : List.dropWhile isWordChar (':' :: rest) = ':' :: rest := rfl
    rw [hcall, hcolon] at hdrop
    exact absurd (List.cons.inj hdrop).1 (by decide)

lemma head_of_mem_setup {plan : HardwarePlan} {i} {object l : String} (h : l ∈ plan.setup i object) :
    ∃ c, l.toList.head? = some c ∧ c ≠ 'a' := by
  have hstem {stem rest : String} {c : Char} (hs : stem.toList.head? = some c) :
      (stem ++ rest).toList.head? = some c := by
    rw [String.toList_append, head?_append, hs]
    rfl
  rcases mem_append.mp h with h | h
  · split at h
    · rename_i mode _
      rw [mem_singleton.mp h]
      exact ⟨'p', hstem (hstem (hstem (hstem rfl))), by decide⟩
    · cases h
  · unfold Pwm.setup at h
    split at h
    · rcases mem_cons.mp h with rfl | h
      · exact ⟨'l', hstem (hstem (hstem (hstem (hstem (hstem rfl))))), by decide⟩
      · rw [mem_singleton.mp h]
        exact ⟨'l', hstem (hstem (hstem (hstem rfl))), by decide⟩
    · cases h

lemma registration?_deferred (k : Scene) (d : VarDecl) : (d.deferred k).filterMap Deferred.registration? = [] := by
  unfold VarDecl.deferred
  split
  · rfl
  · split
    · rw [filterMap_map, filterMap_eq_nil_iff]
      intro l hl
      obtain ⟨c, hl, hc⟩ := head_of_mem_setup hl
      exact registration?_of_ne hl hc
    · rfl
    · rfl

lemma registrations_leave (hpath : ∀ x ∈ path, IsWord x.toList) (root : Bool) (i : Item) :
    (i.leave k path root s).registrations = s.registrations ++ i.registrations k path s.interrupts := by
  have hnone : s.registrations = s.registrations ++ [] := (append_nil _).symm
  have append (ds : List Deferred) : (s.setup ++ ds).filterMap Deferred.registration? =
      s.registrations ++ ds.filterMap Deferred.registration? := filterMap_append
  cases i with
  | var l d => exact (append _).trans (congrArg _ (registration?_deferred k d))
  | event l kind body =>
    cases kind with
    | start =>
      cases root with
      | true => exact hnone
      | false =>
        have hname : ("ys_start_" ++ s.handlers.repr).toList.head? = some 'y' := by simp
        refine (append _).trans (congrArg _ ?_)
        exact filterMap_cons_none (registration?_call hpath hname (by decide))
    | loop => cases root <;> exact hnone
    | signal r => exact hnone
  | interrupt l d =>
    refine (append _).trans (congrArg _ ?_)
    exact filterMap_cons_some (registration?_registration d s.interrupts)
  | _ => exact hnone

end Steps

lemma exists_of_getElem?_filterMap {f : α → Option β} {l : List α} {n : Nat} {b : β}
    (h : (l.filterMap f)[n]? = some b) : ∃ xs x ys, l = xs ++ x :: ys ∧ f x = some b ∧ (xs.filterMap f).length = n := by
  induction l generalizing n with
  | nil => cases h
  | cons x l ih =>
    cases hx : f x with
    | none =>
      rw [filterMap_cons_none hx] at h
      obtain ⟨xs, y, ys, rfl, hy, hn⟩ := ih h
      exact ⟨x :: xs, y, ys, rfl, hy, by rwa [filterMap_cons_none hx]⟩
    | some c =>
      rw [filterMap_cons_some hx] at h
      cases n with
      | zero => exact ⟨[], x, l, rfl, hx.trans h, rfl⟩
      | succ n =>
        obtain ⟨xs, y, ys, rfl, hy, hn⟩ := ih h
        exact ⟨x :: xs, y, ys, rfl, hy, by rw [filterMap_cons_some hx, length_cons, hn]⟩

namespace Program

variable {k : Scene} {p : Program} {a : List Nat} {d : InterruptDecl} {x : List Nat × Role} {n : Nat}

def interruptAt? (p : Program) (x : List Nat × Role) : Option (List Nat × InterruptDecl) :=
  match x.2, (unit p).at? x.1 with
  | .code, some (.item (.interrupt _ d)) => some (x.1, d)
  | _, _ => none

def interrupts (p : Program) : List (List Nat × InterruptDecl) := p.keys.filterMap p.interruptAt?

lemma interruptAt?_eq_some : p.interruptAt? x = some (a, d) ↔
    x = (a, .code) ∧ ∃ l, (unit p).at? a = some (.item (.interrupt l d)) := by
  obtain ⟨b, r⟩ := x
  unfold interruptAt?
  constructor
  · intro h
    split at h
    · rename_i l d' hr hd
      obtain ⟨rfl, rfl⟩ := Prod.mk.inj (Option.some.inj h)
      exact ⟨Prod.ext rfl hr, l, hd⟩
    · cases h
  · rintro ⟨hx, l, hd⟩
    obtain ⟨rfl, rfl⟩ := Prod.mk.inj hx
    rw [hd]

lemma mem_interrupts : (a, d) ∈ p.interrupts ↔ ∃ l, (unit p).at? a = some (.item (.interrupt l d)) := by
  simp only [interrupts, mem_filterMap, interruptAt?_eq_some]
  refine ⟨fun ⟨_, _, _, h⟩ => h, fun ⟨l, h⟩ => ⟨(a, .code), mem_keys h (.inl rfl), rfl, l, h⟩⟩

lemma sublist_interrupts (p : Program) : (p.interrupts.map fun x => (x.1, Role.code)).Sublist p.keys := by
  unfold interrupts
  induction p.keys with
  | nil => exact .slnil
  | cons x xs ih =>
    cases hx : p.interruptAt? x with
    | none =>
      rw [filterMap_cons_none hx]
      exact ih.cons x
    | some y =>
      rw [filterMap_cons_some hx, map_cons, ← (interruptAt?_eq_some.mp hx).1]
      exact ih.cons_cons x

lemma nodup_interrupts (p : Program) : (p.interrupts.map (·.1)).Nodup := by
  refine .of_map (fun a => (a, Role.code)) ?_
  rw [map_map]
  exact p.sublist_interrupts.nodup p.nodup_keys

lemma counted_interrupt (x : List Nat × Role) : (p.counted true x).1 = (p.interruptAt? x).toList.length := by
  obtain ⟨b, r⟩ := x
  unfold counted interruptAt?
  cases r with
  | code =>
    cases (unit p).at? b with
    | none => rfl
    | some m =>
      cases m with
      | item i =>
        generalize (true && decide (b.length = 1)) = main
        cases i with
        | event l kind body => cases kind <;> cases main <;> rfl
        | _ => rfl
      | _ => rfl
  | _ => rfl

lemma counted_interrupts (xs : List (List Nat × Role)) :
    (xs.map (p.counted true)).sum.1 = (xs.filterMap p.interruptAt?).length := by
  induction xs with
  | nil => rfl
  | cons x xs ih =>
    rw [map_cons, sum_cons, Prod.fst_add, ih, counted_interrupt, filterMap_cons]
    cases p.interruptAt? x with
    | none => exact Nat.zero_add _
    | some y => exact Nat.add_comm _ _

lemma numbersAt_of_interrupt (h : p.interrupts[n]? = some (a, d)) : (p.numbersAt a).1 = n := by
  obtain ⟨xs, x, ys, hkeys, hx, hn⟩ := exists_of_getElem?_filterMap h
  obtain ⟨rfl, -⟩ := interruptAt?_eq_some.mp hx
  rw [numbersAt_eq hkeys, counted_interrupts, hn]

lemma registrations_stateAfter (k : Scene) (hwords : ∀ a, ∀ x ∈ p.aliasesTo a, IsWord x.toList) :
    (p.stateAfter k p.keys).registrations =
      p.interrupts.zipIdx.map fun x => x.1.2.registration k (p.aliasesTo x.1.1) x.2 := by
  have h : (p.stateAfter k p.keys).registrations =
      p.interrupts.map fun x => x.2.registration k (p.aliasesTo x.1) (p.numbersAt x.1).1 := by
    refine p.stateAfter_induction k (P := fun xs s => s.registrations =
      (xs.filterMap p.interruptAt?).map fun x => x.2.registration k (p.aliasesTo x.1) (p.numbersAt x.1).1) ?_ ?_ ?_
    · unfold Scene.start
      cases k.config.uart with
      | none => rfl
      | some baud =>
        have hserial : ("Serial.begin(" ++ toString baud ++ ");").toList.head? = some 'S' := by simp
        exact filterMap_cons_none (registration?_of_ne hserial (by decide))
    · intro xs a i s n hi hs hxs
      have hcode : (i.leave k (p.aliasesTo a) (a.length = 1) s).registrations = _ := registrations_leave (hwords a) _ i
      change (i.leave k (p.aliasesTo a) (a.length = 1) s).registrations = _
      have hnumber : s.interrupts = (p.numbersAt a).1 := congrArg Prod.fst hs
      rw [hcode, hxs, hnumber, filterMap_append, map_append]
      refine congrArg _ ?_
      cases i with
      | interrupt l d => rw [filterMap_cons_some (interruptAt?_eq_some.mpr ⟨rfl, l, hi⟩)]; rfl
      | _ => rw [filterMap_cons_none (by rw [interruptAt?, hi])]; rfl
    · intro xs x s n hx hxs
      have hnone : p.interruptAt? x = none := by
        refine Option.eq_none_iff_forall_ne_some.mpr fun y hy => hx ?_
        rw [(interruptAt?_eq_some.mp hy).1]
      rw [filterMap_append, filterMap_cons_none hnone, filterMap_nil, append_nil]
      exact hxs
  rw [h]
  refine ext_getElem? fun n => ?_
  rw [getElem?_map, getElem?_map, getElem?_zipIdx, Option.map_map]
  cases hn : p.interrupts[n]? with
  | none => rfl
  | some x =>
    obtain ⟨a, d⟩ := x
    simp [numbersAt_of_interrupt hn]

/-- The sketch has the function of the interrupt in the namespaces of its unit, and nothing else of it; `n` interrupts
come before. -/
def WritesInterrupt (k : Scene) (p : Program) (n : Nat) (a : List Nat) (d : InterruptDecl) : Prop :=
  ∃ xs ys l m, p.sketchPieces k = xs ++ ⟨a, .code, (Item.interrupt l d).commentLines k ++
      (.code 0 (d.head k n ++ " \x7b") :: ((blockLines k 1 d.body).run m).1 ++ [.code 0 "\x7d", .blank])⟩ :: ys ∧
    Opens [] xs (p.aliasesTo a) ∧ ∀ x ∈ xs ++ ys, x.place = a → x.lines = []

lemma writesInterrupt (k : Scene) (h : p.interrupts[n]? = some (a, d)) : p.WritesInterrupt k n a d := by
  obtain ⟨l, hd⟩ := mem_interrupts.mp (mem_of_getElem? h)
  obtain ⟨xs, ys, s, hs, hpieces, hopens⟩ := codePiece_eq k hd
  have hnumber : s.interrupts = n := (congrArg Prod.fst hs).trans (numbersAt_of_interrupt h)
  have hlines : (((Item.interrupt l d).lines k (p.aliasesTo a) (a.length = 1)).run s).1 =
      (Item.interrupt l d).commentLines k ++ ((d.lines k (p.aliasesTo a)).run s).1 := rfl
  rw [hlines, d.run_lines, hnumber] at hpieces
  refine ⟨xs, ys, l, s.temporaries, hpieces, hopens, fun x hx hplace => ?_⟩
  have hmem : x ∈ p.sketchPieces k := by
    rw [hpieces]
    simp only [mem_append, mem_cons] at hx ⊢
    tauto
  obtain ⟨s', hlines'⟩ := lines_of_mem_sketchPieces hmem
  have hrole : x.role ≠ .code := by
    intro hrole
    have hnodup := p.nodup_keys
    rw [← p.keys_sketchPieces k, hpieces, map_append, map_cons, nodup_middle, nodup_cons, ← map_append] at hnodup
    exact hnodup.1 (mem_map.mpr ⟨x, hx, Prod.ext hplace hrole⟩)
  rw [hlines', SketchPiece.key, hplace, writes_item hd]
  cases hr : x.role with
  | code => exact absurd hr hrole
  | _ => rfl

end Program

/-- The lines of `setup()`: those of what is left for it, and then those of the blocks that run at the start. -/
def SetupHolds (k : Scene) (entries : List Deferred) (bodies : List (List Stmt)) (lines : List Line) : Prop :=
  ∃ blocks starts, lines = .code 0 "void setup() \x7b" :: blocks.flatten ++ starts.flatten ++ [.code 0 "\x7d", .blank] ∧
    List.Forall₂ (fun e ls => ∃ s, ls = ((e.lines k).run s).1) entries blocks ∧
    List.Forall₂ (fun body ls => ∃ n, ls = ((blockLines k 1 body).run n).1) bodies starts

lemma forall₂_mapM (f : α → Emit β) (as : List α) (s : Emission) :
    List.Forall₂ (fun a b => ∃ s, b = ((f a).run s).1) as ((as.mapM f).run s).1 := by
  induction as generalizing s with
  | nil => exact .nil
  | cons a as ih =>
    rw [run_mapM_cons]
    exact .cons ⟨s, rfl⟩ (ih _)

lemma setupHolds_setupLines (k : Scene) (s : Emission) : SetupHolds k s.setup s.starts ((setupLines k).run s).1 := by
  obtain ⟨n, hn⟩ := Quiet.mapM (quiet_deferredLines k) s.setup s
  have hbodies := forall₂_mapM (fun body => withTemporaries (blockLines k 1 body)) s.starts
    ((s.setup.mapM (Deferred.lines k)).run s).2
  rw [run_setupLines]
  have hstarts : ((s.setup.mapM (Deferred.lines k)).run s).2.starts = s.starts := by rw [hn]
  rw [hstarts]
  exact ⟨_, _, rfl, forall₂_mapM (Deferred.lines k) s.setup s, hbodies.imp fun _ _ ⟨s, hs⟩ => ⟨s.temporaries, hs⟩⟩

lemma SetupHolds.registrations {k entries bodies lines} (h : SetupHolds k entries bodies lines) :
    ((entries.filterMap Deferred.registration?).map (.code 1)).Sublist lines := by
  obtain ⟨blocks, starts, rfl, hblocks, -⟩ := h
  have hblocks : ((entries.filterMap Deferred.registration?).map (.code 1)).Sublist blocks.flatten := by
    induction hblocks with
    | nil => exact .slnil
    | @cons e ls entries blocks hls _ ih =>
      obtain ⟨s, rfl⟩ := hls
      cases hr : e.registration? with
      | none =>
        rw [filterMap_cons_none hr]
        exact ih.trans (sublist_append_right _ _)
      | some text =>
        rw [filterMap_cons_some hr]
        cases e with
        | line text' =>
          obtain rfl : text' = text := (Option.ite_none_right_eq_some.mp hr).2 |> Option.some.inj
          exact ih.cons_cons _
        | guard => cases hr
  rw [cons_append, cons_append, append_assoc]
  exact .cons _ (hblocks.trans (sublist_append_left _ _))

namespace Program

variable {k : Scene} {p q q' : Program} {t : SymbolTable} {ranges : RangeTable}

/-- Each interrupt has one function, in the namespaces of its unit, and `setup()` registers it by one line. The
functions and the lines come in the same order. The line has the pin and the trigger of the interrupt, and the name of
the function with its namespaces. An interrupt without a name gets one with the number of the interrupts before it, so
no two of these names are the same. -/
theorem interrupts_registered (k : Scene) (hp : p.Read) (h : p.resolveNames = (q, .ok t))
    (hr : q.clampRanges = (q', .ok ranges)) :
    (q'.interrupts.map (·.1)).Nodup ∧
    (∀ a d, (a, d) ∈ q'.interrupts ↔ ∃ l, (Node.unit q').at? a = some (.item (.interrupt l d))) ∧
    (q'.interrupts.map fun x => (x.1, Role.code)).Sublist ((q'.sketchPieces k).map SketchPiece.key) ∧
    (∀ n a d, q'.interrupts[n]? = some (a, d) → q'.WritesInterrupt k n a d) ∧
    (∃ entries setup s, q'.sketch k = renderLines (q'.headLines k ++ (q'.sketchPieces k).flatMap (·.lines) ++ setup ++
        ((loopLines k).run s).1) ∧ SetupHolds k entries (q'.entryBodies .start) setup ∧
      entries.filterMap Deferred.registration? =
        (q'.interrupts.zipIdx.map fun x => x.1.2.registration k (q'.aliasesTo x.1.1) x.2) ∧
      (q'.interrupts.zipIdx.map fun x => .code 1 (x.1.2.registration k (q'.aliasesTo x.1.1) x.2)).Sublist setup) ∧
    ∀ (m n : Nat) (a b : List Nat) (d d' : InterruptDecl), q'.interrupts[m]? = some (a, d) →
      q'.interrupts[n]? = some (b, d') → d.name = none → d'.name = none → m ≠ n →
      d.functionName m ≠ d'.functionName n := by
  refine ⟨q'.nodup_interrupts, fun a d => mem_interrupts, ?_, fun n a d hn => writesInterrupt k hn, ?_, ?_⟩
  · rw [keys_sketchPieces]
    exact q'.sublist_interrupts
  · have hwords : ∀ a, ∀ x ∈ q'.aliasesTo a, IsWord x.toList := by
      intro a x hx
      rw [aliasesTo_clampRanges hr] at hx
      exact hp.isWord_alias h hx
    have hentries := registrations_stateAfter k hwords
    have hsetup := setupHolds_setupLines k (q'.stateAfter k q'.keys)
    have hlines := hsetup.registrations
    rw [show (q'.stateAfter k q'.keys).setup.filterMap Deferred.registration? = _ from hentries, map_map] at hlines
    rw [show (q'.stateAfter k q'.keys).starts = _ from q'.left_keys .start k] at hsetup
    exact ⟨_, _, _, congrArg renderLines (sketchLines_of_state k q'), hsetup, hentries, hlines⟩
  · intro m n a b d d' _ _ hd hd' hne heq
    rw [InterruptDecl.functionName, InterruptDecl.functionName, hd, hd'] at heq
    exact hne (numberedName_injective heq)

end Program

namespace Sample

/-- Interrupts of three units, with and without names. -/
def towerText : String := "@main
load <bell.ys>
interrupt on 2 rising { }"

def tower : Program := ((ofText towerText).link (.ofFiles [("bell.ys", "load <gong.ys> as inner
interrupt ring on 4 falling { }
interrupt on 3 rising { }"), ("gong.ys", "interrupt on 5 change { }")])).1

/-- The innermost unit is written first. -/
theorem tower_registered : ∃ q q' ranges entries setup s, tower.Read ∧
    tower.resolveNames = (q, .ok (tableOf tower)) ∧ q.clampRanges = (q', .ok ranges) ∧
    q'.sketch (plainScene tower) = renderLines (q'.headLines (plainScene tower) ++
      (q'.sketchPieces (plainScene tower)).flatMap (·.lines) ++ setup ++ ((loopLines (plainScene tower)).run s).1) ∧
    SetupHolds (plainScene tower) entries (q'.entryBodies .start) setup ∧
    entries.filterMap Deferred.registration? =
      ["attachInterrupt(digitalPinToInterrupt(5), bell::inner::isr_0, CHANGE);",
        "attachInterrupt(digitalPinToInterrupt(4), bell::ring, FALLING);",
        "attachInterrupt(digitalPinToInterrupt(3), bell::isr_2, RISING);",
        "attachInterrupt(digitalPinToInterrupt(2), isr_3, RISING);"] ∧
    ∃ d, q'.interrupts[0]? = some ([0, 0, 0, 0, 0], d) ∧ d.functionName 0 = "isr_0" ∧
      q'.aliasesTo [0, 0, 0, 0, 0] = ["bell", "inner"] ∧
      q'.WritesInterrupt (plainScene tower) 0 [0, 0, 0, 0, 0] d := by
  have hall : (Program.ofText "main" towerText).isOk ∧ isResolved tower ∧ tower.resolveNames.1.clampRanges.2.isOk ∧
      let q := tower.resolveNames.1.clampRanges.1
      (q.interrupts.zipIdx.map fun x => x.1.2.registration (plainScene tower) (q.aliasesTo x.1.1) x.2) =
        ["attachInterrupt(digitalPinToInterrupt(5), bell::inner::isr_0, CHANGE);",
          "attachInterrupt(digitalPinToInterrupt(4), bell::ring, FALLING);",
          "attachInterrupt(digitalPinToInterrupt(3), bell::isr_2, RISING);",
          "attachInterrupt(digitalPinToInterrupt(2), isr_3, RISING);"] ∧
        (q.interrupts.head?.map fun x => (x.1, x.2.functionName 0)) = some ([0, 0, 0, 0, 0], "isr_0") ∧
        q.aliasesTo [0, 0, 0, 0, 0] = ["bell", "inner"] := by decide +kernel
  obtain ⟨htext, hresolved, hclamped, hlines, hfirst, haliases⟩ := hall
  have hread : tower.Read := .link _ (read_ofText htext)
  have hnames := resolveNames_eq hresolved
  have hr := clampRanges_eq hclamped
  obtain ⟨-, -, -, hwrites, ⟨entries, setup, s, hsketch, hsetup, hregistered, -⟩, -⟩ :=
    Program.interrupts_registered (plainScene tower) hread hnames hr
  obtain ⟨⟨a, d⟩, hd, hvalue⟩ := Option.map_eq_some_iff.mp hfirst
  obtain ⟨rfl, hname⟩ := Prod.mk.inj hvalue
  rw [head?_eq_getElem?] at hd
  exact ⟨_, _, _, entries, setup, s, hread, hnames, hr, hsketch, hsetup, hregistered.trans hlines, d, hd, hname,
    haliases, hwrites 0 _ d hd⟩

end Sample

end SketchCompiler
