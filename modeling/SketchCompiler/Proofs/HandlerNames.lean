import SketchCompiler.Proofs.KeyedPieces
import SketchCompiler.Proofs.ReactiveVariables
import SketchCompiler.Proofs.ReferenceOrder

namespace SketchCompiler

open List Node

variable {name : String}

/-- The line declares the name: words stand before it, and no word goes on behind it. -/
def Line.Declares (name : String) (line : Line) : Prop :=
  ∃ before after c, line = .code 0 (before ++ " " ++ name ++ after) ∧ after.toList.head? = some c ∧ isWordChar c = false

lemma numberedName_injective : Function.Injective numberedName := by
  intro n n' h
  have h : ("isr_" ++ n.repr).toList = ("isr_" ++ n'.repr).toList := congrArg String.toList h
  rw [String.toList_append, String.toList_append, append_cancel_left_eq] at h
  exact Nat.repr_inj.mp (String.toList_inj.mp h)

namespace Item

def handlerName? (n : Nat) : Item → Option String
  | .interrupt _ d => some ((d.name.map (·.text)).getD (numberedName n))
  | _ => none

def givenName? : Item → Option String
  | .interrupt _ d => d.name.map (·.text)
  | _ => none

def isUnnamed : Item → Bool
  | .interrupt _ d => d.name.isNone
  | _ => false

/-- The name of a function, task, variable, constant or alias. -/
def declaredName? : Item → Option String
  | .var _ d => some d.name.text
  | .aliasDecl _ name _ _ => some name.text
  | .function _ d => some d.name.text
  | .task _ d => some d.name.text
  | _ => none

/-- The names that are made for other functions and variables of an item; `n` is the number of its event. -/
def madeNames (root : Bool) (n : Nat) : Item → List String
  | .signal _ name _ => [Scene.signalFlag name.text]
  | .event _ .start _ => if root then [] else [s!"ys_start_{n}"]
  | .event _ .loop _ => if root then [] else [s!"ys_loop_{n}"]
  | .event _ (.signal r) _ => [s!"ys_on_{r.name.text}_{n}"]
  | .task _ d => if d.period.isSome then ["ys_last_" ++ d.name.text] else []
  | _ => []

/-- All names of functions and variables that the code of the item declares. -/
def codeNames (root : Bool) (numbers : Nat × Nat) (i : Item) : List String :=
  (i.handlerName? numbers.1).toList ++ i.declaredName?.toList ++ i.madeNames root numbers.2

end Item

/-- The functions that every sketch has, and the writers of duty cycles. -/
def Scene.madeNames (k : Scene) : List String :=
  "setup" :: "loop" :: match k.plan.family.pwm with
    | .native => []
    | .channel => k.plan.channels.map fun x => Pwm.writer x.2

namespace Program

variable (k : Scene) (p : Program) (o : List Nat) (u : Program)

def handlerNames : List String :=
  u.items.zipIdx.filterMap fun x => x.1.handlerName? (p.numbersAt (o ++ [x.2])).1

def givenNames : List String := u.items.filterMap Item.givenName?

def unnamedNumbers : List Nat :=
  (u.items.zipIdx.filter (·.1.isUnnamed)).map fun x => (p.numbersAt (o ++ [x.2])).1

def declaredNames : List String := u.items.filterMap Item.declaredName?

/-- The names that are made for other functions and variables in the namespace of the unit. -/
def madeNames : List String :=
  (u.items.zipIdx.flatMap fun x => x.1.madeNames (o = []) (p.numbersAt (o ++ [x.2])).2) ++
    if o = [] then k.madeNames else []

/-- A line declares the name: one of the code of an item of the unit at `o`, or in the main unit any line of the
sketch. -/
def WritesName (name : String) : Prop :=
  (∃ j, ∃ x ∈ p.sketchPieces k, x.key = (o ++ [j], .code) ∧ ∃ line ∈ x.lines, line.Declares name) ∨
    o = [] ∧ ∃ line ∈ ((p.sketchLines k).run {}).1, line.Declares name

end Program

section Lines

variable (k : Scene) (path : List String) (s : Emission)

lemma declares_functionLines {signature type params : String}
    (h : signature = type ++ " " ++ name ++ "(" ++ params) (body : List Stmt) :
    ∃ line ∈ ((functionLines k signature body).run s).1, line.Declares name := by
  refine ⟨_, mem_cons_self, type, "(" ++ params ++ " \x7b", '(', congrArg (Line.code 0) ?_, by simp, by decide⟩
  show signature ++ " \x7b" = _
  simp only [h, String.append_assoc]

lemma declares_handlerLines {head} (type : String) (h : head = type ++ " ") (name : String)
    (body : List Stmt) : ∃ line ∈ ((functionLines k (head ++ name ++ "()") body).run s).1, line.Declares name := by
  have hsignature : head ++ name ++ "()" = type ++ " " ++ name ++ "(" ++ ")" := by
    simp only [h, String.append_assoc]
    rfl
  exact declares_functionLines k s hsignature body

lemma declares_voidLines (name : String) (body : List Stmt) :
    ∃ line ∈ ((functionLines k ("void " ++ name ++ "()") body).run s).1, line.Declares name :=
  declares_handlerLines k s "void" rfl name body

lemma VarDecl.declares_globalLines (d : VarDecl) : ∃ line ∈ ((d.globalLines k).run s).1, line.Declares d.name.text := by
  rw [d.run_globalLines k s]
  refine ⟨_, mem_cons_self, ?_⟩
  have hmark : d.type.value.arrayMark = "[]" ∨ d.type.value.arrayMark = "" := by
    unfold TypeName.arrayMark
    split
    · exact .inl rfl
    · exact .inr rfl
  have hcode : ∃ before value, d.code k = before ++ " " ++ d.name.text ++ d.type.value.arrayMark ++ value ∧
      (value = "" ∨ ∃ v, value = " = " ++ v) := by
    refine ⟨_, _, rfl, ?_⟩
    split
    · exact .inr ⟨_, rfl⟩
    · exact .inr ⟨_, rfl⟩
    · exact .inl rfl
  obtain ⟨before, value, hcode, hvalue⟩ := hcode
  refine ⟨before, d.type.value.arrayMark ++ value ++ ";", ?_⟩
  rw [hcode]
  simp only [String.append_assoc]
  rcases hmark with hm | hm <;> rcases hvalue with rfl | ⟨v, rfl⟩ <;> simp [hm] <;> decide

lemma InterruptDecl.declares_lines (d : InterruptDecl) :
    ∃ line ∈ ((d.lines k path).run s).1, line.Declares (d.functionName s.interrupts) := by
  obtain ⟨type, htype⟩ : ∃ type, "void " ++ (if k.plan.family = .avr then "" else "IRAM_ATTR ") = type ++ " " := by
    split
    · exact ⟨"void", rfl⟩
    · exact ⟨"void IRAM_ATTR", rfl⟩
  have h := declares_handlerLines k s type htype (d.functionName s.interrupts) d.body
  rw [d.run_lines k path s]
  exact h

lemma declares_eventLines (root : Bool) (l : Location) (kind : Event) (body : List Stmt)
    (h : name ∈ (Item.event l kind body).madeNames root s.handlers) :
    ∃ line ∈ ((eventLines k path root kind body).run s).1, line.Declares name := by
  have hvoid (name : String) (lines : List Line) (hlines : lines = ((functionLines k ("void " ++ name ++ "()")
      body).run { s with handlers := s.handlers + 1 }).1) : ∃ line ∈ lines, line.Declares name :=
    hlines ▸ declares_voidLines k _ name body
  cases kind with
  | start =>
    cases root with
    | false =>
      obtain rfl : name = s!"ys_start_{s.handlers}" := by simpa [Item.madeNames] using h
      exact hvoid _ _ rfl
    | true => simp [Item.madeNames] at h
  | loop =>
    cases root with
    | false =>
      obtain rfl : name = s!"ys_loop_{s.handlers}" := by simpa [Item.madeNames] using h
      exact hvoid _ _ rfl
    | true => simp [Item.madeNames] at h
  | signal r =>
    obtain rfl : name = s!"ys_on_{r.name.text}_{s.handlers}" := by simpa [Item.madeNames] using h
    exact hvoid _ _ rfl

lemma Item.declares_lines (root : Bool) (i : Item) (h : name ∈ i.codeNames root s.counts) :
    ∃ line ∈ ((i.lines k path root).run s).1, line.Declares name := by
  suffices hcode : ∃ line ∈ ((i.codeLines k path root).run s).1, line.Declares name by
    obtain ⟨line, hline, hname⟩ := hcode
    exact ⟨line, mem_append_right _ hline, hname⟩
  cases i with
  | var l d =>
    cases mem_singleton.mp h
    exact d.declares_globalLines k s
  | aliasDecl l x e symbol =>
    cases mem_singleton.mp h
    refine ⟨_, mem_singleton_self _, "const auto", " = " ++ e.code k ++ ";", ' ', ?_, by simp, by decide⟩
    refine congrArg (Line.code 0) ?_
    show "const auto " ++ x.text ++ " = " ++ e.code k ++ ";" = "const auto " ++ x.text ++ (" = " ++ e.code k ++ ";")
    simp only [String.append_assoc]
  | function l d =>
    cases mem_singleton.mp h
    obtain ⟨type, htype⟩ : ∃ type, d.signature d.name.text =
        type ++ " " ++ d.name.text ++ "(" ++ paramCodes d.params ++ ")" := ⟨_, rfl⟩
    exact declares_functionLines k s (htype.trans String.append_assoc) d.body
  | signal l x symbol =>
    cases mem_singleton.mp h
    exact ⟨_, mem_cons_self, "volatile bool", " = false;", ' ', rfl, by simp, by decide⟩
  | event l kind body => exact declares_eventLines k path s root l kind body h
  | interrupt l d =>
    have h : name ∈ [_] := h
    cases mem_singleton.mp h
    exact d.declares_lines k path s
  | task l d =>
    obtain ⟨s', hlines⟩ := d.run_lines k path s
    have hlines : (((Item.task l d).codeLines k path root).run s).1 = _ := hlines
    rw [hlines]
    rcases mem_cons.mp h with rfl | h
    · obtain ⟨line, hline, hname⟩ := declares_voidLines k s' d.name.text d.body
      exact ⟨line, mem_append_right _ hline, hname⟩
    · cases hperiod : d.period with
      | none => simp [Item.madeNames, hperiod] at h
      | some period =>
        obtain rfl : name = "ys_last_" ++ d.name.text := by simpa [Item.madeNames, hperiod] using h
        exact ⟨_, mem_cons_self, "unsigned long", " = 0;", ' ', rfl, by simp, by decide⟩
  | _ => cases h

lemma Scene.declares_sketchLines (p : Program) (h : name ∈ k.madeNames) :
    ∃ line ∈ ((p.sketchLines k).run {}).1, line.Declares name := by
  rw [p.sketchLines_of_state k]
  generalize p.stateAfter k p.keys = s
  have hmem {line : Line} (hline : line ∈ p.headLines k ∨ line ∈ ((setupLines k).run s).1 ∨
      line ∈ ((loopLines k).run ((setupLines k).run s).2).1) : line ∈ p.headLines k ++
        (p.sketchPieces k).flatMap (·.lines) ++ ((setupLines k).run s).1 ++
          ((loopLines k).run ((setupLines k).run s).2).1 := by
    simp only [mem_append]
    tauto
  rcases mem_cons.mp h with rfl | h
  · exact ⟨_, hmem (.inr (.inl mem_cons_self)), "void", "() \x7b", '(', rfl, by simp, by decide⟩
  rcases mem_cons.mp h with rfl | h
  · exact ⟨_, hmem (.inr (.inr mem_cons_self)), "void", "() \x7b", '(', rfl, by simp, by decide⟩
  cases hpwm : k.plan.family.pwm with
  | native => simp [hpwm] at h
  | channel =>
    simp only [hpwm, mem_map] at h
    obtain ⟨x, hx, rfl⟩ := h
    have hline : .code 0 ("void " ++ Pwm.writer x.2 ++ ("(uint32_t duty) \x7b ledcWrite(" ++ toString x.2 ++
        ", duty); \x7d")) ∈ p.headLines k := by
      refine mem_append_left _ (mem_append_right _ (mem_map_of_mem ?_))
      rw [HardwarePlan.prelude, hpwm]
      refine mem_map.mpr ⟨x, hx, ?_⟩
      show "void " ++ Pwm.writer x.2 ++ "(uint32_t duty) \x7b ledcWrite(" ++ toString x.2 ++ ", duty); \x7d" = _
      simp only [String.append_assoc]
    exact ⟨_, hmem (.inl hline), "void", _, '(', rfl, by simp, by decide⟩

end Lines

lemma Item.declaredName?_transform (f : Transform) (i : Item) : (i.transform f).declaredName? = i.declaredName? := by
  cases i with
  | var l d =>
    obtain ⟨_⟩ := d
    rfl
  | _ => rfl

lemma Item.head_of_mem_madeNames {root : Bool} {n} {i : Item} (h : name ∈ i.madeNames root n) :
    name.toList.head? = some 'y' := by
  have hstem {stem rest : String} (hs : stem.toList.head? = some 'y') : (stem ++ rest).toList.head? = some 'y' := by
    rw [String.toList_append, head?_append, hs]
    rfl
  cases i with
  | signal l x symbol =>
    obtain rfl : name = "ys_signal_" ++ x.text := mem_singleton.mp h
    exact hstem rfl
  | event l kind body =>
    cases kind with
    | start =>
      cases root with
      | false =>
        obtain rfl : name = "ys_start_" ++ n.repr := mem_singleton.mp h
        exact hstem rfl
      | true => cases h
    | loop =>
      cases root with
      | false =>
        obtain rfl : name = "ys_loop_" ++ n.repr := mem_singleton.mp h
        exact hstem rfl
      | true => cases h
    | signal r =>
      obtain rfl : name = "ys_on_" ++ r.name.text ++ "_" ++ n.repr := mem_singleton.mp h
      exact hstem (hstem (hstem rfl))
  | task l d =>
    simp only [madeNames, mem_ite_nil_right, mem_singleton] at h
    obtain ⟨-, rfl⟩ := h
    exact hstem rfl
  | _ => cases h

lemma Scene.head_of_mem_madeNames {k : Scene} (h : name ∈ k.madeNames) : name.toList.head? ≠ some 'i' := by
  unfold madeNames at h
  rcases mem_cons.mp h with rfl | h
  · decide
  rcases mem_cons.mp h with rfl | h
  · decide
  split at h
  · cases h
  · obtain ⟨x, -, rfl⟩ := mem_map.mp h
    show ("ys_pwm_write_ch" ++ x.2.repr).toList.head? ≠ _
    simp

lemma Item.exists_ownBinder_name {i : Item} (h : i.declaredName? = some name) :
    ∃ x, i.ownBinder? = some x ∧ x.name.text = name := by
  cases i with
  | var | aliasDecl | function | task => exact ⟨_, rfl, Option.some.inj h⟩
  | _ => cases h

namespace Program

variable {p q q' u : Program} {t : SymbolTable} {ranges : RangeTable} {o : List Nat} {j j' : Nat} {i i' : Item}

lemma Read.declaredName_inj (hp : p.Read) (h : p.resolveNames = (q, .ok t))
    (hi : (unit q).at? (o ++ [j]) = some (.item i)) (hi' : (unit q).at? (o ++ [j']) = some (.item i'))
    (hname : i.declaredName? = some name) (hname' : i'.declaredName? = some name) : j = j' := by
  obtain ⟨F, -, -, hq⟩ := unitsResolved h
  -- The name of an item has a number.
  have hnumbered {j : Nat} {i : Item} {x : Binder} (hi : (unit q).at? (o ++ [j]) = some (.item i))
      (hx : i.ownBinder? = some x) (hname : i.declaredName? = some name) : x.symbol ≠ none := by
    have hown (hs : x.symbol ∈ (item i).numbers) : x.symbol ≠ none := fun hnone => by
      have hu := unread_of_unnumbered h hi (hnone ▸ hs)
      exact absurd (unnumbered_of_unread hp.unnumbered h hu hi).1 nofun
    cases i with
    | var l d =>
      cases hx
      have hd : (unit q).at? (o ++ [j] ++ [0]) = some (.var d) := at?_child hi rfl
      exact hp.numbered h (mem_vars_iff.mpr ⟨_, hd⟩)
    | aliasDecl | function | task =>
      cases hx
      exact hown (mem_cons_self)
    | _ => cases hname
  have hunit {j : Nat} {i : Item} (hi : (unit q).at? (o ++ [j]) = some (.item i)) :
      ∃ u : Program, (unit q).at? o = some (.unit u) ∧ u.items[j]? = some i := by
    obtain ⟨o1, j1, u, hplace, ho, hj⟩ := unit_above_item hi
    obtain ⟨rfl, hj1⟩ := append_inj' hplace rfl
    cases hj1
    exact ⟨u, ho, hj⟩
  obtain ⟨u, ho, hj⟩ := hunit hi
  obtain ⟨u', ho', hj'⟩ := hunit hi'
  cases ho.symm.trans ho'
  obtain ⟨x, hx, hxn⟩ := Item.exists_ownBinder_name hname
  obtain ⟨x', hx', hxn'⟩ := Item.exists_ownBinder_name hname'
  exact ownBinder_inj hp.unnumbered h hq ho hj hj' hx hx' (hnumbered hi hx hname) (hnumbered hi' hx' hname')
    (hxn.trans hxn'.symm)

lemma Read.nodup_declaredNames (hp : p.Read) (h : p.resolveNames = (q, .ok t)) (hr : q.clampRanges = (q', .ok ranges))
    (ho : (unit q').at? o = some (.unit u)) : u.declaredNames.Nodup := by
  have hitem {j : Nat} {i : Item} (hj : u.items[j]? = some i) : ∃ i0 : Item,
      (unit q).at? (o ++ [j]) = some (.item i0) ∧ i0.declaredName? = i.declaredName? := by
    have hi := at?_item ho hj
    rw [eq_insertClamps hr] at hi
    obtain ⟨i1, hi1, rfl⟩ := item_of_at?_transform (clamps ranges) (p := q.convertUnits) hi
    obtain ⟨i0, hi0, rfl⟩ := item_of_at?_transform commonUnits hi1
    exact ⟨i0, hi0, by rw [Item.declaredName?_transform, Item.declaredName?_transform]⟩
  rw [declaredNames, List.Nodup, pairwise_filterMap, pairwise_iff_getElem]
  rintro j j' hj hj' hlt name hname _ hname' rfl
  obtain ⟨i, hi, hin⟩ := hitem (getElem?_eq_getElem hj)
  obtain ⟨i', hi', hin'⟩ := hitem (getElem?_eq_getElem hj')
  exact absurd (hp.declaredName_inj h hi hi' (hin.trans hname) (hin'.trans hname')) (hlt.ne)

lemma perm_handlerNames (p : Program) (o : List Nat) (u : Program) :
    (p.handlerNames o u).Perm (u.givenNames ++ (p.unnamedNumbers o u).map numberedName) := by
  have hgiven : u.givenNames = u.items.zipIdx.filterMap fun x => x.1.givenName? := by
    rw [givenNames]
    nth_rewrite 1 [← zipIdx_map_fst 0 u.items]
    rw [filterMap_map]
    rfl
  rw [hgiven, handlerNames, unnamedNumbers]
  induction u.items.zipIdx with
  | nil => exact .nil
  | cons x xs ih =>
    obtain ⟨i, j⟩ := x
    cases i with
    | interrupt l d =>
      cases hd : d.name with
      | none =>
        simp only [filterMap_cons, Item.handlerName?, Item.givenName?, Item.isUnnamed, filter_cons, hd,
          Option.map_none, Option.getD_none, Option.isNone_none, if_true, map_cons]
        exact (ih.cons _).trans perm_middle.symm
      | some name =>
        simp only [filterMap_cons, Item.handlerName?, Item.givenName?, Item.isUnnamed, filter_cons, hd,
          Option.map_some, Option.getD_some, Option.isNone_some]
        exact ih.cons _
    | _ => exact ih

lemma nodup_unnamedNumbers (ho : (unit p).at? o = some (.unit u)) : (p.unnamedNumbers o u).Nodup := by
  have hzip : (u.items.zipIdx.filter (·.1.isUnnamed)).Nodup := by
    refine List.Nodup.filter _ (List.Nodup.of_map Prod.snd ?_)
    rw [zipIdx_map_snd]
    exact nodup_range'
  -- Two interrupts with one number are at the same place.
  have hinterrupt {x : Item × Nat} (hx : x ∈ u.items.zipIdx.filter (·.1.isUnnamed)) :
      u.items[x.2]? = some x.1 ∧ ∃ l d, x.1 = .interrupt l d := by
    obtain ⟨hx, hunnamed⟩ := mem_filter.mp hx
    refine ⟨mem_zipIdx_iff_getElem?.mp hx, ?_⟩
    cases hitem : x.1 with
    | interrupt l d => exact ⟨l, d, rfl⟩
    | _ => simp [hitem, Item.isUnnamed] at hunnamed
  refine hzip.map_on fun x hx y hy hxy => ?_
  obtain ⟨hi, l, d, hd⟩ := hinterrupt hx
  obtain ⟨hi', l', d', hd'⟩ := hinterrupt hy
  have hplace : x.2 = y.2 := by
    by_contra hne
    have hne : o ++ [x.2] ≠ o ++ [y.2] := by simpa using hne
    exact numbersAt_ne (.fst Nat Nat) (at?_item ho hi) (at?_item ho hi') (hd ▸ Nat.one_pos) (hd' ▸ Nat.one_pos)
      hne hxy
  refine Prod.ext ?_ hplace
  rw [← hplace, hi] at hi'
  exact Option.some.inj hi'

lemma numberedName_not_mem_madeNames (k : Scene) (p : Program) (o : List Nat) (u : Program) (n : Nat) :
    numberedName n ∉ p.madeNames k o u := by
  have hfirst : (numberedName n).toList.head? = some 'i' := by
    show ("isr_" ++ n.repr).toList.head? = _
    simp
  have hmade : ∀ name ∈ p.madeNames k o u, name.toList.head? ≠ some 'i' := by
    intro name hname
    rcases mem_append.mp hname with hname | hname
    · obtain ⟨x, -, hname⟩ := mem_flatMap.mp hname
      rw [Item.head_of_mem_madeNames hname]
      decide
    · exact Scene.head_of_mem_madeNames (mem_ite_nil_right.mp hname).2
  exact fun hmem => hmade _ hmem hfirst

lemma writesName (k : Scene) (ho : (unit p).at? o = some (.unit u))
    (h : name ∈ p.handlerNames o u ∨ name ∈ u.declaredNames ∨ name ∈ p.madeNames k o u) : p.WritesName k o name := by
  have hitem {j : Nat} {i : Item} (hj : u.items[j]? = some i)
      (hname : name ∈ i.codeNames (o = []) (p.numbersAt (o ++ [j]))) : p.WritesName k o name := by
    obtain ⟨xs, ys, s, hs, hpieces, -⟩ := codePiece_eq k (at?_item ho hj)
    have hroot : decide ((o ++ [j]).length = 1) = decide (o = []) := by simp
    refine .inl ⟨j, _, hpieces ▸ mem_append_right _ mem_cons_self, rfl, ?_⟩
    rw [hroot]
    exact i.declares_lines k _ s _ (hs ▸ hname)
  rcases h with h | h | h
  · obtain ⟨x, hx, hname⟩ := mem_filterMap.mp h
    refine hitem (mem_zipIdx_iff_getElem?.mp hx) ?_
    simp [Item.codeNames, hname]
  · obtain ⟨i, hi, hname⟩ := mem_filterMap.mp h
    obtain ⟨j, hj⟩ := getElem?_of_mem hi
    refine hitem hj ?_
    simp [Item.codeNames, hname]
  · rcases mem_append.mp h with h | h
    · obtain ⟨x, hx, hname⟩ := mem_flatMap.mp h
      exact hitem (mem_zipIdx_iff_getElem?.mp hx) (mem_append_right _ hname)
    · obtain ⟨ho, h⟩ := mem_ite_nil_right.mp h
      exact .inr ⟨ho, k.declares_sketchLines p h⟩

/-- The sketch declares the handlers of a unit, what the unit declares and what is made for it. The names that the unit
declares are all different. The names of its handlers are different from each other and from all others just if the
program gives no name twice, none that stands for something else, and none like that of a handler without a name, and if
no declaration has such a name. -/
theorem handlerNames_distinct_iff (k : Scene) {u : Program} (hp : p.Read) (h : p.resolveNames = (q, .ok t))
    (hr : q.clampRanges = (q', .ok ranges)) (ho : (Node.unit q').at? o = some (.unit u)) :
    q'.CutInto k (q'.sketchPieces k) ∧
    (∀ name, name ∈ q'.handlerNames o u ∨ name ∈ u.declaredNames ∨ name ∈ q'.madeNames k o u →
      q'.WritesName k o name) ∧
    u.declaredNames.Nodup ∧
    ((q'.handlerNames o u).Nodup ∧
        (∀ name ∈ q'.handlerNames o u, name ∉ u.declaredNames ∧ name ∉ q'.madeNames k o u) ↔
      u.givenNames.Nodup ∧ (∀ name ∈ u.givenNames, name ∉ u.declaredNames ∧ name ∉ q'.madeNames k o u) ∧
        ∀ n ∈ q'.unnamedNumbers o u, numberedName n ∉ u.givenNames ∧ numberedName n ∉ u.declaredNames) := by
  refine ⟨q'.cutInto_sketchPieces k, fun _ hname => writesName k ho hname, hp.nodup_declaredNames h hr ho, ?_⟩
  have hperm := q'.perm_handlerNames o u
  have hnumbers : ((q'.unnamedNumbers o u).map numberedName).Nodup :=
    (nodup_unnamedNumbers ho).map numberedName_injective
  simp only [hperm.nodup_iff, hperm.mem_iff, nodup_append', mem_append, disjoint_right]
  constructor
  · rintro ⟨⟨hgiven, -, hdisjoint⟩, hother⟩
    refine ⟨hgiven, fun name hname => hother name (.inl hname), fun n hn => ?_⟩
    have hmem : numberedName n ∈ (q'.unnamedNumbers o u).map numberedName := mem_map_of_mem hn
    exact ⟨hdisjoint hmem, (hother _ (.inr hmem)).1⟩
  · rintro ⟨hgiven, hother, hnumbered⟩
    refine ⟨⟨hgiven, hnumbers, fun name hname => ?_⟩, fun name hname => ?_⟩
    · obtain ⟨n, hn, rfl⟩ := mem_map.mp hname
      exact (hnumbered n hn).1
    · rcases hname with hname | hname
      · exact hother name hname
      · obtain ⟨n, hn, rfl⟩ := mem_map.mp hname
        exact ⟨(hnumbered n hn).2, q'.numberedName_not_mem_madeNames k o u n⟩

end Program

namespace Sample

def alarmText : String := "@main
load <bell.ys>
fn isr_2() { }
interrupt on 2 rising { }"

def bellText : String := "fn isr_1() { }
interrupt on 3 rising { }
interrupt ring on 4 falling { }"

def alarm : Program := ((ofText alarmText).link (.ofFiles [("bell.ys", bellText)])).1

structure UnitNames where
  handlers : List String
  given : List String
  numbers : List Nat
  declared : List String
  made : List String
deriving DecidableEq

def namesAt? (k : Scene) (p : Program) (o : List Nat) : Option UnitNames :=
  match (Node.unit p).at? o with
  | some (.unit u) =>
    some ⟨p.handlerNames o u, u.givenNames, p.unnamedNumbers o u, u.declaredNames, p.madeNames k o u⟩
  | _ => none

lemma of_namesAt? {k} {p : Program} {o : List Nat} {names : UnitNames} (h : namesAt? k p o = some names) :
    ∃ u : Program, (Node.unit p).at? o = some (.unit u) ∧ p.handlerNames o u = names.handlers ∧
      u.givenNames = names.given ∧ p.unnamedNumbers o u = names.numbers ∧ u.declaredNames = names.declared ∧
      p.madeNames k o u = names.made := by
  unfold namesAt? at h
  split at h
  case h_1 u hu =>
    cases h
    exact ⟨u, hu, rfl, rfl, rfl, rfl, rfl⟩
  case h_2 => cases h

/-- The handlers of the module are told apart; that of the main unit has the name of a function. -/
theorem alarm_handlerNames : ∃ q q' ranges u v, alarm.Read ∧ alarm.resolveNames = (q, .ok (tableOf alarm)) ∧
    q.clampRanges = (q', .ok ranges) ∧ (Node.unit q').at? [0, 0] = some (.unit u) ∧
    q'.handlerNames [0, 0] u = ["isr_0", "ring"] ∧ u.declaredNames = ["isr_1"] ∧
    (q'.handlerNames [0, 0] u).Nodup ∧ (∀ name ∈ q'.handlerNames [0, 0] u, name ∉ u.declaredNames) ∧
    (Node.unit q').at? [] = some (.unit v) ∧ q'.handlerNames [] v = ["isr_2"] ∧ v.declaredNames = ["isr_2"] ∧
    ¬ ((q'.handlerNames [] v).Nodup ∧
      ∀ name ∈ q'.handlerNames [] v, name ∉ v.declaredNames ∧ name ∉ q'.madeNames (plainScene alarm) [] v) := by
  have hall : (Program.ofText "main" alarmText).isOk ∧ isResolved alarm ∧
      alarm.resolveNames.1.clampRanges.2.isOk ∧
      let q := alarm.resolveNames.1.clampRanges.1
      namesAt? (plainScene alarm) q [0, 0] = some ⟨["isr_0", "ring"], ["ring"], [0], ["isr_1"], []⟩ ∧
        namesAt? (plainScene alarm) q [] = some ⟨["isr_2"], [], [2], ["isr_2"], ["setup", "loop"]⟩ := by decide +kernel
  obtain ⟨htext, hresolved, hclamped, hmodule, hmain⟩ := hall
  have hread : alarm.Read := .link _ (read_ofText htext)
  have hnames := resolveNames_eq hresolved
  have hr := clampRanges_eq hclamped
  obtain ⟨u, hu, hhandlers, hgiven, hnumbers, hdeclared, hmade⟩ := of_namesAt? hmodule
  obtain ⟨v, hv, hhandlers', hgiven', hnumbers', hdeclared', -⟩ := of_namesAt? hmain
  obtain ⟨-, -, -, hdistinct⟩ := Program.handlerNames_distinct_iff (plainScene alarm) hread hnames hr hu
  obtain ⟨-, -, -, hdistinct'⟩ := Program.handlerNames_distinct_iff (plainScene alarm) hread hnames hr hv
  obtain ⟨hnodup, hother⟩ := hdistinct.mpr (by rw [hgiven, hnumbers, hdeclared, hmade]; decide)
  refine ⟨_, _, _, u, v, hread, hnames, hr, hu, hhandlers, hdeclared, hnodup, fun name hname => (hother name hname).1,
    hv, hhandlers', hdeclared', fun h => ?_⟩
  have h := (hdistinct'.mp h).2.2
  rw [hgiven', hnumbers', hdeclared'] at h
  exact absurd h (by decide)

end Sample

end SketchCompiler
