import SketchCompiler.Proofs.ClampPlaces
import SketchCompiler.Proofs.LinkRuns

namespace SketchCompiler

open List

variable {loader : Loader} {stack used units : List String} {loc : Location}

namespace Linking

variable {loader : Loader} {stack used : List String} {links links' : Links} {is is' : List Item}
  {trace : List (List String)}

lemma load_found (h : Linking loader stack used links is (is', .ok links') trace) {y}
    (hy : y ∈ is.filterMap Item.sourceLoad?) : y ∉ stack ∧ ∃ v links1 vs links2 trace1, loader.Reads y v ∧
      Linking loader (stack ++ [y]) [] links1 v.items (vs, .ok links2) trace1 := by
  generalize hx : (is', Except.ok links') = x at h
  induction h generalizing is' with
  | nil => cases hy
  | @keep _ _ _ i _ _ _ _ hi _ ih =>
    cases hx
    have hnone : i.sourceLoad? = none := by
      cases i with
      | load => cases hi
      | _ => rfl
    rw [filterMap_cons_none hnone] at hy
    exact ih hy rfl
  | native hsource _ ih =>
    cases hx
    rw [filterMap_cons_none (by simp [Item.sourceLoad?, hsource])] at hy
    exact ih hy rfl
  | refused => cases hx
  | failed => cases hx
  | @loaded _ _ _ _ _ path _ _ _ _ _ _ _ _ _ hsource hv hl _ _ ih =>
    cases hx
    rw [filterMap_cons_some (b := path.value) (by simp [Item.sourceLoad?, hsource])] at hy
    rcases mem_cons.mp hy with rfl | hy
    · exact ⟨hv.outside, _, _, _, _, _, hv.reads, hl⟩
    · exact ih hy rfl

end Linking

/-- The unit with the name, which is the main unit or a file. -/
def Program.Names (loader : Loader) (p : Program) (x : String) (u : Program) : Prop :=
  x = p.name ∧ u = p ∨ x ≠ p.name ∧ loader.Reads x u

/-- The unit named `x` has a load of the source file `y`. -/
def Program.Loads (loader : Loader) (p : Program) (x y : String) : Prop :=
  ∃ u, p.Names loader x u ∧ y ∈ u.items.filterMap Item.sourceLoad?

/-- The main unit leads to the first of the units, each loads the next, and the last is the first. -/
structure Program.LoadCycle (loader : Loader) (p : Program) (units : List String) : Prop where
  closed : ∃ x between, units = x :: between ++ [x] ∧ (x :: between).Nodup ∧
    Relation.ReflTransGen (p.Loads loader) p.name x
  chain : units.IsChain (p.Loads loader)

lemma Loader.Reads.unique {x} {u v} (hu : loader.Reads x u) (hv : loader.Reads x v) : u = v := by
  obtain ⟨text, htext, hu⟩ := hu
  obtain ⟨text', htext', hv⟩ := hv
  cases htext.symm.trans htext'
  exact Except.ok.inj (hu.symm.trans hv)

lemma Program.Names.unique {loader} {p u v : Program} {x} (hu : p.Names loader x u)
    (hv : p.Names loader x v) : u = v := by
  rcases hu with ⟨hx, rfl⟩ | ⟨hx, hu⟩ <;> rcases hv with ⟨hx', rfl⟩ | ⟨hx', hv⟩
  · rfl
  · exact absurd hx hx'
  · exact absurd hx' hx
  · exact hu.unique hv

/-- With this stack the unit is read without errors. -/
def Clear (loader : Loader) (stack : List String) (u : Program) : Prop :=
  ∃ links vs links' trace, Linking loader stack [] links u.items (vs, .ok links') trace

namespace Clear

variable {loader : Loader} {stack : List String} {p u : Program} {x z : String}

lemma step (h : Clear loader stack u) (hz : z ∈ u.items.filterMap Item.sourceLoad?) :
    z ∉ stack ∧ ∃ v, loader.Reads z v ∧ Clear loader (stack ++ [z]) v := by
  obtain ⟨links, vs, links', trace, hl⟩ := h
  obtain ⟨hout, v, links1, vs1, links2, trace1, hv, hl⟩ := hl.load_found hz
  exact ⟨hout, v, hv, links1, vs1, links2, trace1, hl⟩

lemma of_transGen (h : Clear loader stack u) (hp : p.name ∈ stack) (hx : p.Names loader x u)
    (hz : Relation.TransGen (p.Loads loader) x z) : z ∉ stack ∧
      ∃ v stack', loader.Reads z v ∧ stack ⊆ stack' ∧ z ∈ stack' ∧ Clear loader stack' v := by
  induction hz with
  | single hload =>
    obtain ⟨u', hu', hz⟩ := hload
    cases hx.unique hu'
    obtain ⟨hout, v, hv, hclear⟩ := h.step hz
    exact ⟨hout, v, _, hv, subset_append_left _ _, by simp, hclear⟩
  | @tail y _ _ hload ih =>
    obtain ⟨hout, v, stack', hv, hsub, -, hclear⟩ := ih
    obtain ⟨v', hv', hz⟩ := hload
    have hne : y ≠ p.name := fun he => hout (he ▸ hp)
    cases hv'.unique (.inr ⟨hne, hv⟩)
    obtain ⟨hout', w, hw, hclear'⟩ := hclear.step hz
    refine ⟨fun hmem => hout' (hsub hmem), w, _, hw, ?_, by simp, hclear'⟩
    exact List.Subset.trans hsub (subset_append_left _ _)

lemma acyclic (h : Clear loader [p.name] p) (hx : Relation.ReflTransGen (p.Loads loader) p.name x) :
    ¬ Relation.TransGen (p.Loads loader) x x := by
  intro hcycle
  have hmain : p.Names loader p.name p := .inl ⟨rfl, rfl⟩
  rcases Relation.reflTransGen_iff_eq_or_transGen.mp hx with rfl | hx
  · exact (h.of_transGen (mem_singleton_self _) hmain hcycle).1 (mem_singleton_self _)
  · obtain ⟨hout, v, stack, hv, hsub, hmem, hclear⟩ := h.of_transGen (mem_singleton_self _) hmain hx
    have hne : x ≠ p.name := by simpa using hout
    exact (hclear.of_transGen (hsub (mem_singleton_self _)) (.inr ⟨hne, hv⟩) hcycle).1 hmem

end Clear

namespace ModuleError

variable {e : ModuleError} {units : List String} {loc loc' : Location}

def stem : ModuleError → String
  | loadFailed .. => "Cannot load module '"
  | cycle _ => "Module cycle detected: "
  | duplicateNamespace _ => "Namespace '"
  | invalidNamespace _ => "Module path '"
  | missingMain _ => "No @main directive found in: "
  | multipleMain _ => "Multiple @main directives found in: "

lemma stem_message (e : ModuleError) : ∃ rest, e.message = e.stem ++ rest := by
  cases e with
  | loadFailed path reason => exact ⟨_, (String.append_assoc.trans String.append_assoc :
      "Cannot load module '" ++ path ++ "': " ++ reason = _)⟩
  | cycle units => exact ⟨_, rfl⟩
  | duplicateNamespace name => exact ⟨_, (String.append_assoc : "Namespace '" ++ name ++ "' is already in use" = _)⟩
  | invalidNamespace path => exact ⟨_, (String.append_assoc : "Module path '" ++ path ++
      "' does not name a valid namespace, use `load <...> as name`" = _)⟩
  | missingMain units => exact ⟨_, rfl⟩
  | multipleMain units => exact ⟨_, rfl⟩

lemma eq_cycle_of_message (h : e.message = (cycle units).message) : ∃ units', e = cycle units' := by
  have hstem (e : ModuleError) : e.message.toList.take 8 = e.stem.toList.take 8 := by
    obtain ⟨rest, hm⟩ := e.stem_message
    rw [hm, String.toList_append, take_append_of_le_length]
    cases e <;> simp [stem]
  have htake : e.stem.toList.take 8 = (cycle units).stem.toList.take 8 := by rw [← hstem, ← hstem, h]
  cases e with
  | cycle units' => exact ⟨units', rfl⟩
  | _ => simp [stem] at htake

lemma message_eq_of_report {e' : ModuleError} (h : e.report loc = e'.report loc') : e.message = e'.message :=
  congrArg Diagnostic.message (List.cons.inj (congrArg Report.errors h)).1

lemma exists_cycle_of_report (h : (cycle units).report loc = e.report loc') :
    ∃ units', e = cycle units' ∧ (cycle units').message = (cycle units).message := by
  have hmessage := (message_eq_of_report h).symm
  obtain ⟨units', rfl⟩ := eq_cycle_of_message hmessage
  exact ⟨units', rfl, hmessage⟩

end ModuleError

lemma Program.kind_of_ofText {name text} {r : Report} (h : ofText name text = .error r) : r.kind ≠ "Module error" := by
  unfold ofText at h
  dsimp only at h
  split at h
  · cases h
    exact (by decide : "Lexical error" ≠ "Module error")
  · split at h
    · cases h
      exact (by decide : "Syntax error" ≠ "Module error")
    · cases h

lemma Loader.Refuses.cycle_cases {path : Located String} {name?}
    (h : loader.Refuses stack used path name? ((ModuleError.cycle units).report loc)) :
    ∃ before between, stack = before ++ path.value :: between ∧
      (ModuleError.cycle (path.value :: between ++ [path.value])).message = (ModuleError.cycle units).message := by
  generalize hreport : (ModuleError.cycle units).report loc = r at h
  cases h with
  | unnamed hname =>
    unfold Linker.aliasFor at hname
    split at hname
    · cases hname
    · split at hname
      · cases hname
      · cases hname
        obtain ⟨_, he, -⟩ := ModuleError.exists_cycle_of_report hreport
        cases he
  | used =>
    obtain ⟨_, he, -⟩ := ModuleError.exists_cycle_of_report hreport
    cases he
  | cycle _ _ hstack _ =>
    obtain ⟨_, he, hmessage⟩ := ModuleError.exists_cycle_of_report hreport
    cases he
    exact ⟨_, _, hstack, hmessage⟩
  | missing =>
    obtain ⟨_, he, -⟩ := ModuleError.exists_cycle_of_report hreport
    cases he
  | unreadable _ _ _ _ hread => exact absurd (congrArg Report.kind hreport.symm) (Program.kind_of_ofText hread)

/-- The units of the stack load each other in turn, starting with the main unit, and the last one has the items. -/
structure Along (loader : Loader) (p : Program) (stack : List String) (is : List Item) : Prop where
  main : p.name ∈ stack
  nodup : stack.Nodup
  chain : stack.IsChain (p.Loads loader)
  reached : ∀ x ∈ stack, Relation.ReflTransGen (p.Loads loader) p.name x
  last : ∃ x, stack.getLast? = some x ∧ ∀ y ∈ is.filterMap Item.sourceLoad?, p.Loads loader x y

namespace Along

variable {loader : Loader} {p v : Program} {stack before between : List String} {i : Item} {is : List Item} {y : String}

lemma tail (h : Along loader p stack (i :: is)) : Along loader p stack is where
  main := h.main
  nodup := h.nodup
  chain := h.chain
  reached := h.reached
  last := by
    obtain ⟨x, hx, hloads⟩ := h.last
    refine ⟨x, hx, fun y hy => hloads y ?_⟩
    exact ((sublist_cons_self i is).filterMap _).subset hy

lemma chain_concat (h : Along loader p stack is) (hy : y ∈ is.filterMap Item.sourceLoad?) :
    (stack ++ [y]).IsChain (p.Loads loader) := by
  obtain ⟨x, hx, hloads⟩ := h.last
  refine isChain_append.mpr ⟨h.chain, isChain_singleton y, ?_⟩
  intro x' hx' y' hy'
  cases hx.symm.trans hx'
  cases hy'
  exact hloads y hy

lemma push (h : Along loader p stack is) (hy : y ∈ is.filterMap Item.sourceLoad?) (hout : y ∉ stack)
    (hv : loader.Reads y v) : Along loader p (stack ++ [y]) v.items where
  main := mem_append_left _ h.main
  nodup := by
    rw [← concat_eq_append]
    exact h.nodup.concat hout
  chain := h.chain_concat hy
  reached x hx := by
    rcases mem_append.mp hx with hx | hx
    · exact h.reached x hx
    · cases mem_singleton.mp hx
      obtain ⟨x', hx', hloads⟩ := h.last
      exact (h.reached x' (mem_of_getLast? hx')).tail (hloads y hy)
  last := by
    refine ⟨y, by simp, fun z hz => ⟨v, .inr ⟨?_, hv⟩, hz⟩⟩
    exact fun he => hout (he ▸ h.main)

lemma loadCycle (h : Along loader p (before ++ y :: between) is) (hy : y ∈ is.filterMap Item.sourceLoad?) :
    p.LoadCycle loader (y :: between ++ [y]) where
  closed := by
    refine ⟨y, between, rfl, (nodup_append.mp h.nodup).2.1, h.reached y (by simp)⟩
  chain := by
    have hchain := h.chain_concat hy
    rw [append_assoc] at hchain
    exact (isChain_append.mp hchain).2.1

end Along

lemma Linking.loadCycle_of_error {p : Program} {links} {is is'} {trace}
    (h : Linking loader stack used links is (is', .error ((ModuleError.cycle units).report loc)) trace)
    (hs : Along loader p stack is) : ∃ units', (ModuleError.cycle units').message = (ModuleError.cycle units).message ∧
    p.LoadCycle loader units' := by
  generalize hx : (is', Except.error ((ModuleError.cycle units).report loc)) = x at h
  induction h generalizing is' with
  | nil => cases hx
  | keep _ _ ih =>
    cases hx
    exact ih hs.tail rfl
  | native _ _ ih =>
    cases hx
    exact ih hs.tail rfl
  | refused hsource hr =>
    cases hx
    obtain ⟨before, between, rfl, hmessage⟩ := hr.cycle_cases
    exact ⟨_, hmessage, hs.loadCycle (by simp [Item.sourceLoad?, hsource])⟩
  | failed hsource hv _ ih =>
    cases hx
    exact ih (hs.push (by simp [Item.sourceLoad?, hsource]) hv.outside hv.reads) rfl
  | loaded _ _ _ _ _ ih =>
    cases hx
    exact ih hs.tail rfl

namespace Program

variable {files : List (String × String)} {p : Program}

lemma link_eq (loader : Loader) (p : Program) : p.link loader =
    let x := (Linker.ofDepth loader (loader.depth + 1) [p.name]).items [] (Links.add {} p) p.items
    ({ p with items := x.1 }, x.2 >>= ({ p with items := x.1 } : Program).checkMain) := by
  unfold link Linker.unit
  rcases (Linker.ofDepth loader (loader.depth + 1) [p.name]).items [] (Links.add {} p) p.items with ⟨is, r | links⟩ <;>
    rfl

lemma exists_linking (files : List (String × String)) (p : Program) : ∃ is result trace,
    Linking (.ofFiles files) [p.name] [] (Links.add {} p) p.items (is, result) trace ∧
    p.link (.ofFiles files) = ({ p with items := is }, result >>= ({ p with items := is } : Program).checkMain) ∧
    ∀ stack ∈ [p.name] :: trace, Stacked files stack := by
  have hmain := Stacked.singleton files p.name
  have hdepth : (files.map Prod.fst).dedup.length + 1 ≤ files.length + 1 + [p.name].length := by
    have hle := (dedup_sublist (files.map Prod.fst)).length_le
    rw [length_map] at hle
    omega
  obtain ⟨trace, hl, hs⟩ := Linker.linking_items (Linker.follows_ofDepth _ hmain hdepth) [] (Links.add {} p) p.items
  rw [Linker.loader_ofDepth, Linker.stack_ofDepth] at hl
  refine ⟨_, _, trace, hl, ?_, fun stack hstack => ?_⟩
  · exact link_eq _ p
  · rcases mem_cons.mp hstack with rfl | hstack
    · exact hmain
    · exact hs stack hstack

lemma checkMain_ne_cycle {links} {units} {loc} : p.checkMain links ≠ .error ((ModuleError.cycle units).report loc) := by
  intro h
  unfold checkMain at h
  dsimp only at h
  split at h
  · split at h
    · cases h
    · obtain ⟨_, he, -⟩ := ModuleError.exists_cycle_of_report (Except.error.inj h).symm
      cases he
  · cases h
  · split at h
    · cases h
    · obtain ⟨_, he, -⟩ := ModuleError.exists_cycle_of_report (Except.error.inj h).symm
      cases he

/-- Linking with finitely many files is one run without a bound, in which no stack holds a name twice and none is longer
than the number of files and one. If it succeeds, all source files that the main unit leads to are found and read, and
none of them leads to itself. If it reports a cycle, the units in the message load each other in turn. -/
theorem link_follows_loads (files : List (String × String)) (p : Program) :
    (∃ is result trace, Linking (.ofFiles files) [p.name] [] (Links.add {} p) p.items (is, result) trace ∧
      (∀ x trace', Linking (.ofFiles files) [p.name] [] (Links.add {} p) p.items x trace' →
        x = (is, result) ∧ trace' = trace) ∧
      p.link (.ofFiles files) = ({ p with items := is }, result >>= ({ p with items := is } : Program).checkMain) ∧
      ∀ stack ∈ [p.name] :: trace, stack.Nodup ∧ stack.length ≤ (files.map Prod.fst).dedup.length + 1) ∧
    (∀ linked, (p.link (.ofFiles files)).2 = .ok linked →
      (∀ y, Relation.TransGen (p.Loads (.ofFiles files)) p.name y → ∃ v, (Loader.ofFiles files).Reads y v) ∧
      ∀ x, Relation.ReflTransGen (p.Loads (.ofFiles files)) p.name x →
        ¬ Relation.TransGen (p.Loads (.ofFiles files)) x x) ∧
    ∀ units loc, (p.link (.ofFiles files)).2 = .error ((ModuleError.cycle units).report loc) →
      ∃ units', (ModuleError.cycle units').message = (ModuleError.cycle units).message ∧
        p.LoadCycle (.ofFiles files) units' := by
  obtain ⟨is, result, trace, hl, hlink, hs⟩ := exists_linking files p
  have hmain : p.Names (.ofFiles files) p.name p := .inl ⟨rfl, rfl⟩
  refine ⟨⟨is, result, trace, hl, fun x trace' h => h.unique hl, hlink, fun stack hstack => ?_⟩, ?_, ?_⟩
  · exact ⟨(hs stack hstack).nodup, (hs stack hstack).length_le⟩
  · intro linked hok
    rw [hlink] at hok
    obtain ⟨links, rfl, -⟩ := bind_eq_ok hok
    have hclear : Clear (.ofFiles files) [p.name] p := ⟨_, _, _, _, hl⟩
    refine ⟨fun y hy => ?_, fun x hx => hclear.acyclic hx⟩
    obtain ⟨-, v, -, hv, -⟩ := hclear.of_transGen (mem_singleton_self _) hmain hy
    exact ⟨v, hv⟩
  · intro units loc herror
    rw [hlink] at herror
    cases result with
    | ok links => exact absurd herror checkMain_ne_cycle
    | error r =>
      obtain rfl := Except.error.inj herror
      refine hl.loadCycle_of_error ⟨mem_singleton_self _, nodup_singleton _, isChain_singleton _, ?_, ?_⟩
      · intro x hx
        cases mem_singleton.mp hx
        exact .refl
      · exact ⟨p.name, rfl, fun y hy => ⟨p, hmain, hy⟩⟩

end Program

namespace Sample

def ringFiles : List (String × String) := [("a.ys", "load <b.ys>"), ("b.ys", "load <a.ys>")]

def diamondFiles : List (String × String) := [("a.ys", "load <c.ys>"), ("b.ys", "load <c.ys>"), ("c.ys", "")]

def pathLoc (text : String) : Location :=
  match Program.ofText "b.ys" text with
  | .ok ⟨_, _, [.load _ path _]⟩ => path.loc
  | _ => default

def errorOf? {α : Type} : Except Report α → Option Report
  | .error r => some r
  | .ok _ => none

lemma eq_error_of_errorOf? {α : Type} {x : Except Report α} {r} (h : errorOf? x = some r) : x = .error r := by
  cases x with
  | error => exact congrArg Except.error (Option.some.inj h)
  | ok => cases h

theorem ring_and_diamond :
    let ring := ofText "@main\nload <a.ys>"
    let diamond := ofText "@main\nload <a.ys>\nload <b.ys>"
    (∃ units loc,
      (ring.link (.ofFiles ringFiles)).2 = .error ((ModuleError.cycle ["a.ys", "b.ys", "a.ys"]).report loc) ∧
      (ModuleError.cycle units).message = (ModuleError.cycle ["a.ys", "b.ys", "a.ys"]).message ∧
      ring.LoadCycle (.ofFiles ringFiles) units) ∧
    (diamond.link (.ofFiles diamondFiles)).2 = .ok ⟨true, 4⟩ ∧
      ∀ x, Relation.ReflTransGen (diamond.Loads (.ofFiles diamondFiles)) diamond.name x →
        ¬ Relation.TransGen (diamond.Loads (.ofFiles diamondFiles)) x x := by
  have hall : errorOf? ((ofText "@main\nload <a.ys>").link (.ofFiles ringFiles)).2 =
        some ((ModuleError.cycle ["a.ys", "b.ys", "a.ys"]).report (pathLoc "load <a.ys>")) ∧
      ((ofText "@main\nload <a.ys>\nload <b.ys>").link (.ofFiles diamondFiles)).2.toOption = some ⟨true, 4⟩ := by
    decide +kernel
  intro ring diamond
  have hring := eq_error_of_errorOf? hall.1
  have hdiamond := eq_ok_of_toOption hall.2
  obtain ⟨units, hmessage, hcycle⟩ := (ring.link_follows_loads ringFiles).2.2 _ _ hring
  exact ⟨⟨units, _, hring, hmessage, hcycle⟩, hdiamond, ((diamond.link_follows_loads diamondFiles).2.1 _ hdiamond).2⟩

end Sample

end SketchCompiler
