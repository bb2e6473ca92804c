import SketchCompiler.Proofs.LoadGraph

namespace SketchCompiler

open List Node

/-- The names that an item declares in its unit. -/
def Item.topNames : Item → List Name
  | .var _ d => [d.name]
  | .aliasDecl _ name _ _ => [name]
  | i => i.binders.map (·.name)

/-- The item may stand in a text: it is no module, and the names that it declares are words. -/
def Item.InText (i : Item) : Prop := (Node.item i).alias? = none ∧ ∀ x ∈ i.topNames, IsWord x.text.toList

lemma Item.Twin.inText {i i' : Item} (h : i.Twin .spelled i') : i.InText := by
  have hname {x x' : Name} (hx : x.Twin .spelled x') : ∀ y ∈ [x], IsWord y.text.toList :=
    forall_mem_singleton.mpr (Token.IsSpelled.isWord hx.word)
  cases h with
  | var _ hd =>
    cases hd with
    | mk _ hx => exact ⟨rfl, hname hx⟩
  | aliasDecl _ hx => exact ⟨rfl, hname hx⟩
  | function _ hd => exact ⟨rfl, hname hd.name⟩
  | classDecl _ hd => exact ⟨rfl, hname hd.name⟩
  | @enumDecl _ _ x _ xs _ _ hx hxs =>
    refine ⟨rfl, fun y hy => ?_⟩
    have hmem : y ∈ x :: xs := by simpa [topNames, binders] using hy
    rcases mem_cons.mp hmem with rfl | hmem
    · exact hname hx _ mem_cons_self
    · obtain ⟨y', -, hy⟩ := exists_mem_of_forall₂ hxs hmem
      exact hname hy _ mem_cons_self
  | structDecl _ hx => exact ⟨rfl, hname hx⟩
  | signal _ hx => exact ⟨rfl, hname hx⟩
  | task _ hx => exact ⟨rfl, hname hx⟩
  | _ => exact ⟨rfl, forall_mem_nil _⟩

lemma Program.inText_of_ofText {name text} {p : Program} (h : ofText name text = .ok p) {i : Item}
    (hi : i ∈ p.items) : i.InText := by
  obtain ⟨i', -, hi⟩ := exists_mem_of_forall₂ (twin_of_ofText h).1.items hi
  exact hi.inText

/-- The alias of a load is the one that it gives, or else the name of its file without the extension, if that is a
word. -/
inductive LoadAlias (path : Located String) : Option Name → Name → Prop
  | given (name : Name) : LoadAlias path (some name) name
  | stem {cs} : fileStem? path.value = some cs → IsWord cs → LoadAlias path none ⟨String.ofList cs, path.loc⟩

lemma LoadAlias.of_aliasFor {path} {name?} {name}
    (h : Linker.aliasFor path name? = .ok name) : LoadAlias path name? name := by
  unfold Linker.aliasFor at h
  split at h
  · cases h
    exact .given name
  · split at h
    case h_1 text htext =>
      cases h
      unfold namespaceOf? at htext
      split at htext
      case h_1 c cs hstem =>
        split at htext
        case isTrue hword =>
          cases htext
          obtain ⟨hc, hcs⟩ := Bool.and_eq_true_iff.mp hword
          exact .stem hstem ⟨c, cs, rfl, hc, fun x hx => all_eq_true.mp hcs x hx⟩
        case isFalse => cases htext
      case h_2 => cases htext
    case h_2 => cases h

/-- What linking makes of the items of a unit, one by one and in their places. -/
inductive Replaced (loader : Loader) : List Item → List Item → Prop
  | nil : Replaced loader [] []
  | keep {i is is'} : i.isLoad = false → Replaced loader is is' → Replaced loader (i :: is) (i :: is')
  | native {loc path name? is is'} : isSourcePath path.value = false → Replaced loader is is' →
      Replaced loader (.load loc path name? :: is) (.nativeInclude loc path.value :: is')
  | module {loc path name? name v vs is is'} : isSourcePath path.value → LoadAlias path name? name →
      loader.Reads path.value v → Replaced loader v.items vs → Replaced loader is is' →
      Replaced loader (.load loc path name? :: is) (.module loc name path.value none { v with items := vs } :: is')

def Program.aliases (u : Program) : List String := u.items.filterMap fun i => (item i).alias?.map (·.text)

namespace Node

def modules (n : Node) : List Name := n.nodes.filterMap alias?

variable {i : Item} {m : Node}

lemma eq_or_isInner_of_mem_nodes (hi : (item i).alias? = none) (hm : m ∈ (item i).nodes) : m = item i ∨ m.isInner := by
  rcases mem_nodes_iff.mp hm with rfl | ⟨c, hc, hm⟩
  · exact .inl rfl
  · refine .inr (isInner_of_mem_nodes ?_ hm)
    cases i with
    | module => cases hi
    | interrupt l d =>
      simp only [children, mem_cons, mem_ofBlock] at hc
      rcases hc with rfl | ⟨s, -, rfl⟩ <;> rfl
    | _ => exact isInner_of_mem_item rfl hc

lemma modules_unit (p : Program) : (unit p).modules = p.items.flatMap fun i => (item i).modules := by
  rw [modules, nodes_eq, filterMap_cons_none rfl, filterMap_flatMap, children, flatMap_map]
  rfl

lemma modules_module (l : Location) (name : Name) (path : String) (symbol : Option SymbolId) (p : Program) :
    (item (.module l name path symbol p)).modules = name :: (unit p).modules := by
  rw [modules, nodes_eq, filterMap_cons_some (f := alias?) (b := name) rfl]
  simp [children, modules]

lemma modules_eq_nil (hi : (item i).alias? = none) : (item i).modules = [] := by
  refine filterMap_eq_nil_iff.mpr fun m hm => ?_
  rcases eq_or_isInner_of_mem_nodes hi hm with rfl | hm
  · exact hi
  · cases m with
    | unit | item => cases hm
    | _ => rfl

end Node

namespace Linking

open Node

variable {loader : Loader} {stack used : List String} {links links' : Links} {is is' : List Item}
  {trace : List (List String)}

variable (h : Linking loader stack used links is (is', .ok links') trace)

include h

lemma replaced : Replaced loader is is' := by
  generalize hx : (is', Except.ok links') = x at h
  induction h generalizing is' links' with
  | nil =>
    cases hx
    exact .nil
  | keep hi _ ih =>
    cases hx
    exact .keep hi (ih rfl)
  | native hsource _ ih =>
    cases hx
    exact .native hsource (ih rfl)
  | refused => cases hx
  | failed => cases hx
  | loaded hsource hv _ _ ih ih' =>
    cases hx
    exact .module hsource (.of_aliasFor hv.aliased) hv.reads (ih rfl) (ih' rfl)

lemma length_units (hi : ∀ i ∈ is, (item i).alias? = none) :
    links'.units.length = links.units.length + (is'.flatMap fun i => (item i).modules).length := by
  generalize hx : (is', Except.ok links') = x at h
  induction h generalizing is' links' with
  | nil =>
    cases hx
    rfl
  | keep _ _ ih =>
    cases hx
    rw [flatMap_cons, modules_eq_nil (hi _ mem_cons_self)]
    exact ih (fun i hm => hi i (mem_cons_of_mem _ hm)) rfl
  | native _ _ ih =>
    cases hx
    rw [flatMap_cons, modules_eq_nil rfl]
    exact ih (fun i hm => hi i (mem_cons_of_mem _ hm)) rfl
  | refused => cases hx
  | failed => cases hx
  | @loaded _ _ links _ _ _ _ _ v _ _ vs _ _ _ _ hv _ _ ih ih' =>
    cases hx
    obtain ⟨text, -, htext⟩ := hv.reads
    have hinner := ih (fun i hm => (Program.inText_of_ofText htext hm).1) rfl
    have hrest := ih' (fun i hm => hi i (mem_cons_of_mem _ hm)) rfl
    have hadd : (links.add v).units.length = links.units.length + 1 := length_append
    have hunit : (unit { v with items := vs }).modules = vs.flatMap fun i => (item i).modules := modules_unit _
    rw [flatMap_cons, modules_module, hunit, length_append, length_cons]
    omega

lemma nodup_aliases
    (hi : ∀ i ∈ is, (item i).alias? = none) : ((is'.filterMap fun i => (item i).alias?.map (·.text)).Nodup ∧
      ∀ x ∈ is'.filterMap fun i => (item i).alias?.map (·.text), x ∉ used) ∧
    ∀ i ∈ is', ∀ u, unit u ∈ (item i).nodes → u.aliases.Nodup := by
  generalize hx : (is', Except.ok links') = x at h
  have hplain {i : Item} (hi : (item i).alias? = none) {u : Program} : unit u ∉ (item i).nodes := by
    intro hu
    rcases eq_or_isInner_of_mem_nodes hi hu with hu | hu <;> cases hu
  induction h generalizing is' links' with
  | nil =>
    cases hx
    simp
  | keep _ _ ih =>
    cases hx
    have hnone := hi _ mem_cons_self
    obtain ⟨haliases, hinner⟩ := ih (fun i hm => hi i (mem_cons_of_mem _ hm)) rfl
    rw [filterMap_cons_none (by rw [hnone, Option.map_none])]
    refine ⟨haliases, forall_mem_cons.mpr ⟨fun u hu => ?_, hinner⟩⟩
    exact absurd hu (hplain hnone)
  | native _ _ ih =>
    cases hx
    obtain ⟨haliases, hinner⟩ := ih (fun i hm => hi i (mem_cons_of_mem _ hm)) rfl
    rw [filterMap_cons_none rfl]
    refine ⟨haliases, forall_mem_cons.mpr ⟨fun u hu => ?_, hinner⟩⟩
    exact absurd hu (hplain rfl)
  | refused => cases hx
  | failed => cases hx
  | @loaded _ _ _ _ _ _ _ name _ _ _ _ _ _ _ _ hv _ _ ih ih' =>
    cases hx
    obtain ⟨text, -, htext⟩ := hv.reads
    obtain ⟨⟨hown, -⟩, hbelow⟩ := ih (fun i hm => (Program.inText_of_ofText htext hm).1) rfl
    obtain ⟨⟨hrest, hunused⟩, hinner⟩ := ih' (fun i hm => hi i (mem_cons_of_mem _ hm)) rfl
    rw [filterMap_cons_some (f := fun i => (item i).alias?.map (·.text)) (b := name.text) rfl]
    refine ⟨⟨nodup_cons.mpr ⟨fun hm => ?_, hrest⟩, forall_mem_cons.mpr ⟨hv.unused, fun x hm hx => ?_⟩⟩,
      forall_mem_cons.mpr ⟨fun u hu => ?_, hinner⟩⟩
    · exact hunused _ hm (by simp)
    · exact hunused x hm (by simp [hx])
    · -- The unit is that of the module, or stands below one of its items.
      rcases mem_nodes_iff.mp hu with hu | ⟨c, hc, hu⟩
      · cases hu
      · cases mem_singleton.mp hc
        rcases mem_nodes_iff.mp hu with hu | ⟨c, hc, hu⟩
        · cases hu
          exact hown
        · obtain ⟨i, hm, rfl⟩ := mem_map.mp hc
          exact hbelow i hm u hu

end Linking

lemma Replaced.no_loads {loader} {is is'} (h : Replaced loader is is')
    (hi : ∀ i ∈ is, (item i).alias? = none) {i} (hm : i ∈ is') {j : Item}
    (hj : .item j ∈ (item i).nodes) : j.isLoad = false := by
  have hplain {i j : Item} (hi : (item i).alias? = none) (hload : i.isLoad = false)
      (hj : .item j ∈ (item i).nodes) : j.isLoad = false := by
    rcases eq_or_isInner_of_mem_nodes hi hj with hj | hj
    · cases hj
      exact hload
    · cases hj
  induction h generalizing i with
  | nil => cases hm
  | keep hload _ ih =>
    rcases mem_cons.mp hm with rfl | hm
    · exact hplain (hi _ mem_cons_self) hload hj
    · exact ih (fun i hm => hi i (mem_cons_of_mem _ hm)) hm hj
  | native _ _ ih =>
    rcases mem_cons.mp hm with rfl | hm
    · exact hplain rfl rfl hj
    · exact ih (fun i hm => hi i (mem_cons_of_mem _ hm)) hm hj
  | module _ _ hv _ _ ih ih' =>
    rcases mem_cons.mp hm with rfl | hm
    · obtain ⟨text, -, htext⟩ := hv
      rcases mem_nodes_iff.mp hj with hj | ⟨c, hc, hj⟩
      · cases hj
        rfl
      · cases mem_singleton.mp hc
        rcases mem_nodes_iff.mp hj with hj | ⟨c, hc, hj⟩
        · cases hj
        · obtain ⟨i, hm, rfl⟩ := mem_map.mp hc
          exact ih (fun i hm => (Program.inText_of_ofText htext hm).1) hm hj
    · exact ih' (fun i hm => hi i (mem_cons_of_mem _ hm)) hm hj

namespace Linker

/-- If the linker goes on with the unit of a load without errors, it is in a run. -/
def Traces (k : Linker) : Prop :=
  ∀ links v path u links', k.loader.Reads path v → k.inner links v = .ok (u, links') → ∃ vs trace,
    u = { v with items := vs } ∧ Linking k.loader (k.stack ++ [path]) [] (links.add v) v.items (vs, .ok links') trace

variable {k : Linker} {used : List String} {links links' : Links} {is is' : List Item}

lemma Traces.linking (hk : k.Traces) (h : items k used links is = (is', .ok links')) :
    ∃ trace, Linking k.loader k.stack used links is (is', .ok links') trace := by
  induction is generalizing used links is' with
  | nil =>
    cases h
    exact ⟨[], .nil⟩
  | cons i is ih =>
    have hkeep (hi : i.isLoad = false) (hitems : items k used links (i :: is) =
        (i :: (items k used links is).1, (items k used links is).2)) :
        ∃ trace, Linking k.loader k.stack used links (i :: is) (is', .ok links') trace := by
      rw [hitems] at h
      obtain ⟨rfl, hresult⟩ := Prod.mk.inj h
      obtain ⟨trace, hl⟩ := ih (Prod.ext rfl hresult)
      exact ⟨trace, .keep hi hl⟩
    cases i with
    | load loc path name? =>
      by_cases hsource : isSourcePath path.value
      · rw [items, if_pos hsource] at h
        rcases k.loader.refuses_or_admits k.stack used path name? with ⟨r, hr⟩ | ⟨name, v, hv⟩
        · rw [module_of_refuses hr] at h
          cases h
        · rw [module_of_admits hv] at h
          cases hinner : k.inner links v with
          | error r =>
            rw [hinner] at h
            cases h
          | ok x =>
            rw [hinner] at h
            obtain ⟨rfl, hresult⟩ := Prod.mk.inj h
            obtain ⟨vs, trace, hu, hl⟩ := hk links v path.value x.1 x.2 hv.reads hinner
            obtain ⟨trace', hl'⟩ := ih (Prod.ext rfl hresult)
            rw [hu]
            exact ⟨_, .loaded hsource hv hl hl'⟩
      · rw [items, if_neg hsource] at h
        obtain ⟨rfl, hresult⟩ := Prod.mk.inj h
        obtain ⟨trace, hl⟩ := ih (Prod.ext rfl hresult)
        exact ⟨trace, .native (by simpa using hsource) hl⟩
    | _ => exact hkeep rfl rfl

lemma traces_ofDepth (loader : Loader) (n : Nat) (stack : List String) : (ofDepth loader n stack).Traces := by
  induction n generalizing stack with
  | zero =>
    intro links v path u links' _ hinner
    cases hinner
  | succ n ih =>
    intro links v path u links' hv hinner
    rw [inner_ofDepth_succ, hv.name_eq] at hinner
    cases hresult : ((ofDepth loader n (stack ++ [path])).unit links v).2 with
    | error r =>
      rw [hresult] at hinner
      cases hinner
    | ok links1 =>
      rw [hresult] at hinner
      cases hinner
      have hitems : (ofDepth loader n (stack ++ [path])).items [] (links.add v) v.items = (_, .ok links') :=
        Prod.ext rfl hresult
      obtain ⟨trace, hl⟩ := (ih (stack ++ [path])).linking hitems
      rw [loader_ofDepth, stack_ofDepth] at hl
      exact ⟨_, trace, rfl, by rwa [loader_ofDepth, stack_ofDepth]⟩

end Linker

namespace Program

variable {loader : Loader} {p p' : Program} {linked : Linked}

lemma modules_of_checkMain {links : Links} (h : p.checkMain links = .ok linked) :
    linked.modules = links.units.length - 1 := by
  unfold checkMain at h
  dsimp only at h
  split at h
  · split at h
    · cases h
      rfl
    · cases h
  · cases h
    rfl
  · split at h
    · cases h
      rfl
    · cases h

lemma linking_of_link (h : p.link loader = (p', .ok linked)) : ∃ is links trace,
    Linking loader [p.name] [] (Links.add {} p) p.items (is, .ok links) trace ∧ p' = { p with items := is } ∧
      p'.checkMain links = .ok linked := by
  rw [link_eq] at h
  dsimp only at h
  obtain ⟨rfl, hresult⟩ := Prod.mk.inj h
  obtain ⟨links, hitems, hcheck⟩ := bind_eq_ok hresult
  obtain ⟨trace, hl⟩ := (Linker.traces_ofDepth loader (loader.depth + 1) [p.name]).linking (Prod.ext rfl hitems)
  rw [Linker.loader_ofDepth, Linker.stack_ofDepth] at hl
  exact ⟨_, links, trace, hl, rfl, hcheck⟩

/-- If a program without modules is linked, its items are replaced in their places, no load is left in the tree, no two
modules of a unit have the same alias, and the number of modules is that of the modules in the tree. -/
theorem link_replaces_loads (hp : ∀ i ∈ p.items, (Node.item i).alias? = none)
    (h : p.link loader = (p', .ok linked)) :
    p'.name = p.name ∧ p'.mainMark = p.mainMark ∧ Replaced loader p.items p'.items ∧
    (∀ loc path name?, .item (.load loc path name?) ∉ (Node.unit p').nodes) ∧
    (∀ u, .unit u ∈ (Node.unit p').nodes → u.aliases.Nodup) ∧
    linked.modules = (Node.unit p').modules.length := by
  obtain ⟨is, links, trace, hl, rfl, hcheck⟩ := linking_of_link h
  obtain ⟨⟨hown, -⟩, hbelow⟩ := hl.nodup_aliases hp
  have hlength := hl.length_units hp
  refine ⟨rfl, rfl, hl.replaced, fun loc path name? hm => ?_, fun u hu => ?_, ?_⟩
  · rcases Node.mem_nodes_iff.mp hm with hm | ⟨c, hc, hm⟩
    · cases hm
    · obtain ⟨i, hi, rfl⟩ := mem_map.mp hc
      cases hl.replaced.no_loads hp hi hm
  · rcases Node.mem_nodes_iff.mp hu with hu | ⟨c, hc, hu⟩
    · cases hu
      exact hown
    · obtain ⟨i, hi, rfl⟩ := mem_map.mp hc
      exact hbelow i hi u hu
  · have hadd : (Links.add {} p).units.length = 1 := rfl
    have hunit : (Node.unit { p with items := is }).modules = is.flatMap fun i => (Node.item i).modules :=
      Node.modules_unit _
    rw [modules_of_checkMain hcheck, hunit]
    omega

end Program

namespace Sample

def partsText : String := "load <Servo.h>
load <lib/arm.ys> as left
signal stop
load <hand.ys>"

def partsFiles : List (String × String) := [("lib/arm.ys", "@main\nload <hand.ys>"), ("hand.ys", "signal open")]

theorem parts_replaced :
    let p := ofText partsText
    let p' := (p.link (.ofFiles partsFiles)).1
    (∀ i ∈ p.items, (Node.item i).alias? = none) ∧ p.link (.ofFiles partsFiles) = (p', .ok ⟨true, 3⟩) ∧
    Replaced (.ofFiles partsFiles) p.items p'.items ∧
    (∀ loc path name?, .item (.load loc path name?) ∉ (Node.unit p').nodes) ∧
    p'.aliases = ["left", "hand"] ∧ (∀ u, .unit u ∈ (Node.unit p').nodes → u.aliases.Nodup) ∧
    (Node.unit p').modules.length = 3 := by
  have hall : ((ofText partsText).items.all fun i => (Node.item i).alias?.isNone) ∧
      ((ofText partsText).link (.ofFiles partsFiles)).2.toOption = some ⟨true, 3⟩ ∧
      ((ofText partsText).link (.ofFiles partsFiles)).1.aliases = ["left", "hand"] := by decide +kernel
  generalize ofText partsText = p at hall ⊢
  obtain ⟨hitems, hlinked, haliases⟩ := hall
  intro p p'
  have hp : ∀ i ∈ p.items, (Node.item i).alias? = none :=
    fun i hi => Option.isNone_iff_eq_none.mp (all_eq_true.mp hitems i hi)
  have hlink : p.link (.ofFiles partsFiles) = (p', .ok ⟨true, 3⟩) := Prod.ext rfl (eq_ok_of_toOption hlinked)
  obtain ⟨-, -, hreplaced, hloads, hdistinct, hcount⟩ := Program.link_replaces_loads hp hlink
  exact ⟨hp, hlink, hreplaced, hloads, haliases, hdistinct, hcount.symm⟩

end Sample

end SketchCompiler
