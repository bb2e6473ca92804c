import SketchCompiler.Proofs.HandlerNames
import SketchCompiler.Proofs.SketchBodies

namespace SketchCompiler

open Emit List Node

section Grouping

variable {flag handler : String} {d : List (String × List String)} {l : List (String × String)}

lemma flags_addHandler (flag handler : String) (d : List (String × List String)) :
    (addHandler flag handler d).map (·.1) = if flag ∈ d.map (·.1) then d.map (·.1) else d.map (·.1) ++ [flag] := by
  induction d with
  | nil => rfl
  | cons x d ih =>
    obtain ⟨f, hs⟩ := x
    rw [addHandler]
    by_cases hf : f = flag
    · simp [hf]
    · rw [if_neg hf, map_cons, ih]
      by_cases hd : flag ∈ d.map (·.1) <;> simp [hd, Ne.symm hf]

lemma forall_addHandler {P : String × List String → Prop} (hold : ∀ x ∈ d, x.1 ≠ flag → P x)
    (hmore : ∀ hs, (flag, hs) ∈ d → P (flag, hs ++ [handler])) (hnew : flag ∉ d.map (·.1) → P (flag, [handler]))
    (hd : (d.map (·.1)).Nodup) : ∀ x ∈ addHandler flag handler d, P x := by
  induction d with
  | nil => simpa [addHandler] using hnew
  | cons x d ih =>
    obtain ⟨f, hs⟩ := x
    obtain ⟨hf, hd⟩ := nodup_cons.mp hd
    rw [addHandler]
    by_cases hflag : f = flag
    · subst hflag
      rw [if_pos rfl, forall_mem_cons]
      refine ⟨hmore hs mem_cons_self, fun x hx => hold x (mem_cons_of_mem _ hx) ?_⟩
      exact fun hxf => hf (mem_map.mpr ⟨x, hx, hxf⟩)
    · rw [if_neg hflag, forall_mem_cons]
      refine ⟨hold _ mem_cons_self hflag, ih (fun x hx => hold x (mem_cons_of_mem _ hx))
        (fun hs hx => hmore hs (mem_cons_of_mem _ hx)) (fun hx => hnew ?_) hd⟩
      simpa [Ne.symm hflag] using hx

/-- The handlers of `l` by their flags: each flag once, with all its handlers in order. -/
structure Grouped (l : List (String × String)) (d : List (String × List String)) : Prop where
  nodup : (d.map (·.1)).Nodup
  handlers : ∀ x ∈ d, x.2 = (l.filter (·.1 = x.1)).map (·.2)
  flags {f : String} : f ∈ d.map (·.1) ↔ f ∈ l.map (·.1)

lemma Grouped.add (h : Grouped l d) (flag handler : String) :
    Grouped (l ++ [(flag, handler)]) (addHandler flag handler d) where
  nodup := by
    rw [flags_addHandler]
    split
    · exact h.nodup
    · rename_i hflag
      exact h.nodup.append (nodup_singleton _) (disjoint_singleton.mpr hflag)
  handlers := by
    refine forall_addHandler (fun x hx hflag => ?_) (fun hs hx => ?_) (fun hflag => ?_) h.nodup
    · simp [h.handlers x hx, filter_append, Ne.symm hflag]
    · simp [← h.handlers _ hx, filter_append]
    · have hnone : l.filter (·.1 = flag) = [] := by
        rw [filter_eq_nil_iff]
        intro x hx hf
        exact hflag (h.flags.mpr (mem_map.mpr ⟨x, hx, of_decide_eq_true hf⟩))
      simp [filter_append, hnone]
  flags {f} := by
    rw [flags_addHandler, map_append, mem_append, ← h.flags]
    split
    · rename_i hflag
      refine ⟨.inl, ?_⟩
      rintro (hf | hf)
      · exact hf
      · exact mem_singleton.mp hf ▸ hflag
    · exact mem_append

end Grouping

namespace Program

variable {k : Scene} {p : Program} {a b : List Nat} {r r' : Reference} {l l' : Location} {body body' : List Stmt}

def handlerOf (p : Program) (a : List Nat) (r : Reference) : String := s!"ys_on_{r.name.text}_{(p.numbersAt a).2}"

def callOf (p : Program) (a : List Nat) (r : Reference) : String := s!"{qualify (p.aliasesTo a) (p.handlerOf a r)}();"

/-- The flag and the call of the handler whose function has the given key. -/
def dispatchedAt? (k : Scene) (p : Program) (x : List Nat × Role) : Option (String × String) :=
  match x.2, (unit p).at? x.1 with
  | .code, some (.item (.event _ (.signal r) _)) => some (k.signalReference r, p.callOf x.1 r)
  | _, _ => none

def dispatched (k : Scene) (p : Program) : List (String × String) := p.keys.filterMap (p.dispatchedAt? k)

lemma dispatchedAt?_eq_some {x : List Nat × Role} {y} : p.dispatchedAt? k x = some y ↔
    ∃ a l r body, x = (a, .code) ∧ (unit p).at? a = some (.item (.event l (.signal r) body)) ∧
      y = (k.signalReference r, p.callOf a r) := by
  obtain ⟨a, role⟩ := x
  constructor
  · intro h
    unfold dispatchedAt? at h
    split at h
    · rename_i l r body hrole ha
      exact ⟨a, l, r, body, Prod.ext rfl hrole, ha, (Option.some.inj h).symm⟩
    · cases h
  · rintro ⟨a, l, r, body, hx, ha, rfl⟩
    cases hx
    simp [dispatchedAt?, ha]

lemma mem_dispatched {x} : x ∈ p.dispatched k ↔ ∃ a l r body,
    (unit p).at? a = some (.item (.event l (.signal r) body)) ∧ x = (k.signalReference r, p.callOf a r) := by
  simp only [dispatched, mem_filterMap, dispatchedAt?_eq_some]
  constructor
  · rintro ⟨_, -, a, l, r, body, -, h⟩
    exact ⟨a, l, r, body, h⟩
  · rintro ⟨a, l, r, body, ha, hx⟩
    exact ⟨(a, .code), mem_keys ha (.inl rfl), a, l, r, body, rfl, ha, hx⟩

lemma grouped_dispatch (k : Scene) (p : Program) : Grouped (p.dispatched k) (p.stateAfter k p.keys).dispatch := by
  refine p.stateAfter_induction k (P := fun xs s => Grouped (xs.filterMap (p.dispatchedAt? k)) s.dispatch) ?_ ?_ ?_
  · unfold Scene.start
    cases k.config.uart <;> exact ⟨nodup_nil, by simp, by simp⟩
  · intro xs a i s n hi hs hxs
    have hother (hi : p.dispatchedAt? k (a, .code) = none)
        (hd : (i.leave k (p.aliasesTo a) (a.length = 1) s).dispatch = s.dispatch) :
        Grouped ((xs ++ [(a, Role.code)]).filterMap (p.dispatchedAt? k))
          (i.leave k (p.aliasesTo a) (a.length = 1) s).dispatch := by
      rwa [filterMap_append, filterMap_cons_none hi, filterMap_nil, append_nil, hd]
    cases i with
    | event l kind body =>
      cases kind with
      | signal r =>
        have hat : p.dispatchedAt? k (a, .code) = some (k.signalReference r, p.callOf a r) := by
          simp [dispatchedAt?, hi]
        have hnumber : s.handlers = (p.numbersAt a).2 := congrArg Prod.snd hs
        have hadd := hxs.add (k.signalReference r) (p.callOf a r)
        rw [filterMap_append, filterMap_cons_some hat]
        unfold callOf handlerOf at hadd ⊢
        rw [← hnumber] at hadd ⊢
        exact hadd
      | _ => exact hother (by simp [dispatchedAt?, hi]) (by rw [Item.leave]; split <;> rfl)
    | _ => exact hother (by simp [dispatchedAt?, hi]) rfl
  · intro xs x s n hx hxs
    have hnone : p.dispatchedAt? k x = none := by
      unfold dispatchedAt?
      split
      · exact absurd ‹_› hx
      · rfl
    rwa [filterMap_append, filterMap_cons_none hnone, filterMap_nil, append_nil]

lemma exists_callOf (p : Program) (a : List Nat) (r : Reference) :
    ∃ cs, (p.callOf a r).toList = cs ++ '_' :: Nat.toDigits 10 (p.numbersAt a).2 ++ "();".toList := by
  obtain ⟨cs, hcs⟩ : ∃ cs, (qualify (p.aliasesTo a) (p.handlerOf a r)).toList = cs ++ (p.handlerOf a r).toList := by
    unfold qualify
    induction p.aliasesTo a with
    | nil => exact ⟨[], by simp⟩
    | cons x xs ih =>
      obtain ⟨cs, hcs⟩ := ih
      obtain ⟨y, ys, hys⟩ := exists_cons_of_ne_nil (append_ne_nil_of_right_ne_nil xs (cons_ne_nil (p.handlerOf a r) []))
      rw [hys] at hcs
      refine ⟨x.toList ++ "::".toList ++ cs, ?_⟩
      rw [cons_append, hys, String.toList_intercalate, map_cons, map_cons, intercalate_cons_cons, ← map_cons,
        ← String.toList_intercalate, hcs]
      simp
  refine ⟨cs ++ ("ys_on_" ++ r.name.text).toList, ?_⟩
  show (qualify (p.aliasesTo a) (p.handlerOf a r) ++ "();").toList = _
  rw [String.toList_append, hcs]
  show cs ++ ("ys_on_" ++ r.name.text ++ "_" ++ Nat.repr (p.numbersAt a).2).toList ++ _ = _
  simp [Nat.repr]

lemma callOf_inj (ha : (unit p).at? a = some (.item (.event l (.signal r) body)))
    (hb : (unit p).at? b = some (.item (.event l' (.signal r') body'))) (h : p.callOf a r = p.callOf b r') : a = b := by
  by_contra hne
  refine numbersAt_ne (.snd Nat Nat) ha hb Nat.one_pos Nat.one_pos hne ?_
  obtain ⟨cs, hcs⟩ := p.exists_callOf a r
  obtain ⟨cs', hcs'⟩ := p.exists_callOf b r'
  rw [h, hcs'] at hcs
  have hdigits (n : Nat) : ∀ c ∈ (Nat.toDigits 10 n).reverse, c.isDigit := fun c hc =>
    Nat.isDigit_of_mem_toDigits (by decide) (by decide) (mem_reverse.mp hc)
  have htail := congrArg (fun cs => cs.reverse.takeWhile Char.isDigit) (append_cancel_right hcs)
  simp only [reverse_append, reverse_cons, append_assoc, takeWhile_append_of_pos (hdigits _)] at htail
  have hdigits' := reverse_injective (append_cancel_right htail)
  exact (Nat.repr_inj.mp (congrArg String.ofList hdigits')).symm

lemma nodup_calls (k : Scene) (p : Program) : ((p.dispatched k).map (·.2)).Nodup := by
  rw [dispatched, map_filterMap]
  refine p.nodup_keys.filterMap fun x y c hx hy => ?_
  obtain ⟨_, hxc, rfl⟩ := Option.map_eq_some_iff.mp hx
  obtain ⟨_, hyc, hxy⟩ := Option.map_eq_some_iff.mp hy
  obtain ⟨a, l, r, body, rfl, ha, rfl⟩ := dispatchedAt?_eq_some.mp hxc
  obtain ⟨b, l', r', body', rfl, hb, rfl⟩ := dispatchedAt?_eq_some.mp hyc
  rw [callOf_inj ha hb hxy.symm]

end Program

namespace Dispatcher

/-- A line of a block of `loop()`. -/
inductive Command where
  | test (flag : String)
  | clear (flag : String)
  | call (text : String)
  | close
deriving DecidableEq

def Command.line : Command → Line
  | test flag => .code 1 s!"if ({flag}) \x7b"
  | clear flag => .code 2 s!"{flag} = false;"
  | call text => .code 2 text
  | close => .code 1 "\x7d"

/-- The end of a block, from its calls on. -/
def calls (handlers : List String) : List Command := handlers.map .call ++ [.close]

/-- The block of a flag and its handlers. -/
def block (x : String × List String) : List Command := .test x.1 :: .clear x.1 :: calls x.2

lemma dispatchLines_eq (x : String × List String) : dispatchLines x.1 x.2 = (block x).map Command.line := by
  simp [dispatchLines, block, calls, Command.line, Function.comp_def]

inductive Event where
  | emitted (flag : String)
  | called (text : String)

/-- What of this round of `loop()` is still to be run, the flags, and what happened so far, the latest first. -/
structure State where
  rest : List Command
  flags : String → Bool
  log : List Event

/-- What comes behind the block. -/
def skip (rest : List Command) : List Command := (rest.dropWhile (· ≠ .close)).tail

/-- Runs the next line. Behind the last one comes the next round. -/
def step (code : List Command) (s : State) : State :=
  match s.rest with
  | [] => { s with rest := code }
  | .test f :: rest => { s with rest := if s.flags f then rest else skip rest }
  | .clear f :: rest => { s with rest, flags := Function.update s.flags f false }
  | .call text :: rest => { s with rest, log := .called text :: s.log }
  | .close :: rest => { s with rest }

def emit (flag : String) (s : State) : State :=
  { s with flags := Function.update s.flags flag true, log := .emitted flag :: s.log }

/-- A run in which lines of `loop()`, written as `none`, and emissions of signals come in any order. -/
def run (code : List Command) : State → List (Option String) → State
  | s, [] => s
  | s, none :: events => run code (step code s) events
  | s, some flag :: events => run code (emit flag s) events

def start : State := ⟨[], fun _ => false, []⟩

/-- The signal was emitted, and the call was not made since. -/
def Waiting (flag call : String) : List Event → Prop
  | [] => False
  | .emitted f :: log => f = flag ∨ Waiting flag call log
  | .called text :: log => text ≠ call ∧ Waiting flag call log

/-- What may be left of a round: whole blocks, with a part of one before them from its reset or from a call on. -/
inductive Left (blocks : List (String × List String)) : List Command → Prop where
  | blocks {later} (h : later ⊆ blocks) : Left blocks (later.flatMap block)
  | tested {x later} (hx : x ∈ blocks) (h : later ⊆ blocks) :
      Left blocks (.clear x.1 :: (calls x.2 ++ later.flatMap block))
  | calls {handlers later} (h : later ⊆ blocks) : Left blocks (calls handlers ++ later.flatMap block)

/-- No emission is lost: until the first of its handlers is called, the flag is set, or `loop()` stands between the test
of the flag and that call, with all calls still to be made. -/
structure State.Keeps (blocks : List (String × List String)) (s : State) : Prop where
  left : Left blocks s.rest
  waiting {f h hs} : (f, h :: hs) ∈ blocks → Waiting f h s.log → s.flags f ∨
    ∃ later, s.rest = .clear f :: (calls (h :: hs) ++ later) ∨ s.rest = calls (h :: hs) ++ later

variable {blocks : List (String × List String)} {s : State}

lemma skip_calls (handlers : List String) (later : List Command) : skip (calls handlers ++ later) = later := by
  simp [skip, calls]

lemma keeps_start (blocks : List (String × List String)) : start.Keeps blocks where
  left := .blocks (nil_subset blocks)
  waiting _ hw := hw.elim

lemma keeps_emit (h : s.Keeps blocks) (flag : String) : (emit flag s).Keeps blocks where
  left := h.left
  waiting {f _ _} hf hw := by
    by_cases hflag : f = flag
    · exact .inl (by simp [emit, hflag])
    · have hw := hw.resolve_left (Ne.symm hflag)
      simpa [emit, hflag] using h.waiting hf hw

lemma keeps_step (hblocks : (blocks.map (·.1)).Nodup) (h : s.Keeps blocks) :
    (step (blocks.flatMap block) s).Keeps blocks := by
  obtain ⟨rest, flags, log⟩ := s
  obtain ⟨hleft, hwaiting⟩ := h
  dsimp only at hleft hwaiting
  cases hleft with
  | @blocks later hlater =>
    -- In front of a test, an emission is kept by its flag alone.
    have hset {f h hs} (hf : (f, h :: hs) ∈ blocks) (hw : Waiting f h log) : flags f := by
      refine (hwaiting hf hw).resolve_right ?_
      cases later <;> simp [block, calls]
    cases later with
    | nil => exact ⟨.blocks (Subset.refl blocks), fun hf hw => .inl (hset hf hw)⟩
    | cons x later =>
      obtain ⟨hx, hlater⟩ := cons_subset.mp hlater
      refine ⟨?_, fun hf hw => .inl (hset hf hw)⟩
      have hskip : skip (.clear x.1 :: (calls x.2 ++ later.flatMap block)) = later.flatMap block := skip_calls _ _
      rw [flatMap_cons, block, cons_append, step]
      dsimp only
      split
      · exact .tested hx hlater
      · rw [cons_append, hskip]
        exact .blocks hlater
  | @tested x later hx hlater =>
    refine ⟨.calls hlater, fun {f h hs} hf hw => ?_⟩
    by_cases hfx : f = x.1
    · -- Only one block has this flag, so its calls are those that come now.
      have hblock : x = (f, h :: hs) := inj_on_of_nodup_map hblocks hx hf hfx.symm
      exact .inr ⟨_, .inr (by rw [step, hblock])⟩
    · have hflag := (hwaiting hf hw).resolve_right (by simp [calls, Ne.symm hfx])
      exact .inl (by simpa [step, hfx] using hflag)
  | @calls handlers later hlater =>
    cases handlers with
    | nil => exact ⟨.blocks hlater, fun hf hw => .inl ((hwaiting hf hw).resolve_right (by simp [calls]))⟩
    | cons c handlers =>
      refine ⟨.calls hlater, fun hf hw => .inl ?_⟩
      obtain ⟨hc, hw⟩ := hw
      exact (hwaiting hf hw).resolve_right (by simp [calls, hc])

lemma keeps_run (hblocks : (blocks.map (·.1)).Nodup) (h : s.Keeps blocks) (events : List (Option String)) :
    (run (blocks.flatMap block) s events).Keeps blocks := by
  induction events generalizing s with
  | nil => exact h
  | cons e events ih =>
    cases e with
    | none => exact ih (keeps_step hblocks h)
    | some flag => exact ih (keeps_emit h flag)

end Dispatcher

/-- A line declares the name, in the namespaces of the modules above `a`. -/
def Program.DefinesAt (k : Scene) (p : Program) (a : List Nat) (name : String) : Prop :=
  ∃ xs lines ys, p.sketchPieces k = xs ++ ⟨a, .code, lines⟩ :: ys ∧ Opens [] xs (p.aliasesTo a) ∧
    ∃ line ∈ lines, line.Declares name

lemma Program.definesAt {p : Program} {a : List Nat} {i : Item} {name} (k : Scene)
    (ha : (unit p).at? a = some (.item i)) (h : name ∈ i.codeNames (a.length = 1) (p.numbersAt a)) :
    p.DefinesAt k a name := by
  obtain ⟨xs, ys, s, hs, hpieces, hopens⟩ := codePiece_eq k ha
  exact ⟨xs, _, ys, hpieces, hopens, i.declares_lines k _ s _ (hs ▸ h)⟩

lemma Program.run_sketchLines (k : Scene) (p : Program) : ∃ head schedule loops, ((p.sketchLines k).run {}).1 =
    head ++ (.code 0 "void loop() \x7b" :: schedule ++
      ((p.stateAfter k p.keys).dispatch.flatMap Dispatcher.block).map Dispatcher.Command.line ++ loops ++
      [.code 0 "\x7d"]) := by
  obtain ⟨n, hn⟩ := quiet_setupLines k (p.stateAfter k p.keys)
  have hlines := p.sketchLines_of_state k
  rw [hn, run_loopLines] at hlines
  simp only [Dispatcher.dispatchLines_eq, ← map_flatMap] at hlines
  exact ⟨_, _, _, hlines⟩

end SketchCompiler
