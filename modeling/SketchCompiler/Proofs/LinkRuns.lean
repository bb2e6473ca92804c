import Mathlib
import SketchCompiler.Proofs.ReadTrees

namespace SketchCompiler

open List

variable {name : Name}

lemma Program.name_of_ofText {name text} {p : Program} (h : ofText name text = .ok p) : p.name = name :=
  (twin_of_ofText h).2

/-- The file is found, and its text is read as the unit. -/
def Loader.Reads (loader : Loader) (path : String) (v : Program) : Prop :=
  ∃ text, loader.read path = .ok text ∧ Program.ofText path text = .ok v

/-- The load is in order: its alias is new in the unit, its file is not being read, and is read as the unit `v`. -/
structure Loader.Admits (loader : Loader) (stack used : List String) (path : Located String) (name? : Option Name)
    (name : Name) (v : Program) : Prop where
  aliased : Linker.aliasFor path name? = .ok name
  unused : name.text ∉ used
  outside : path.value ∉ stack
  reads : loader.Reads path.value v

/-- Why a load is not in order. -/
inductive Loader.Refuses (loader : Loader) (stack used : List String) (path : Located String) (name? : Option Name) :
    Report → Prop
  | unnamed {r} : Linker.aliasFor path name? = .error r → Refuses loader stack used path name? r
  | used {name : Name} : Linker.aliasFor path name? = .ok name → name.text ∈ used →
      Refuses loader stack used path name? ((ModuleError.duplicateNamespace name.text).report name.loc)
  | cycle {name before between} : Linker.aliasFor path name? = .ok name → name.text ∉ used →
      stack = before ++ path.value :: between → path.value ∉ before →
      Refuses loader stack used path name? ((ModuleError.cycle (path.value :: between ++ [path.value])).report path.loc)
  | missing {name reason} : Linker.aliasFor path name? = .ok name → name.text ∉ used → path.value ∉ stack →
      loader.read path.value = .error reason →
      Refuses loader stack used path name? ((ModuleError.loadFailed path.value reason).report path.loc)
  | unreadable {name text r} : Linker.aliasFor path name? = .ok name → name.text ∉ used → path.value ∉ stack →
      loader.read path.value = .ok text → Program.ofText path.value text = .error r →
      Refuses loader stack used path name? r

def Item.sourceLoad? : Item → Option String
  | .load _ path _ => if isSourcePath path.value then some path.value else none
  | _ => none

def Item.isLoad : Item → Bool
  | .load .. => true
  | _ => false

/-- What becomes of the items of a unit while the units of `stack` are being read, and the stacks with which other units
are read in between, in order. The run ends with the first load that fails. -/
inductive Linking (loader : Loader) : (stack used : List String) → Links → List Item →
    List Item × Except Report Links → List (List String) → Prop
  | nil {stack used links} : Linking loader stack used links [] ([], .ok links) []
  | keep {stack used links i is is' result trace} : i.isLoad = false →
      Linking loader stack used links is (is', result) trace →
      Linking loader stack used links (i :: is) (i :: is', result) trace
  | native {stack used links loc path name? is is' result trace} : isSourcePath path.value = false →
      Linking loader stack used links is (is', result) trace →
      Linking loader stack used links (.load loc path name? :: is) (.nativeInclude loc path.value :: is', result) trace
  | refused {stack used links loc path name? is r} : isSourcePath path.value → loader.Refuses stack used path name? r →
      Linking loader stack used links (.load loc path name? :: is) (.load loc path name? :: is, .error r) []
  | failed {stack used links loc path name? name v is vs r trace} : isSourcePath path.value →
      loader.Admits stack used path name? name v →
      Linking loader (stack ++ [path.value]) [] (links.add v) v.items (vs, .error r) trace →
      Linking loader stack used links (.load loc path name? :: is) (.load loc path name? :: is, .error r)
        ((stack ++ [path.value]) :: trace)
  | loaded {stack used links links' loc path name? name v is is' vs result trace trace'} : isSourcePath path.value →
      loader.Admits stack used path name? name v →
      Linking loader (stack ++ [path.value]) [] (links.add v) v.items (vs, .ok links') trace →
      Linking loader stack (used ++ [name.text]) links' is (is', result) trace' →
      Linking loader stack used links (.load loc path name? :: is)
        (.module loc name path.value none { v with items := vs } :: is', result)
        ((stack ++ [path.value]) :: trace ++ trace')

lemma Loader.Reads.name_eq {loader : Loader} {path} {v : Program} (h : loader.Reads path v) : v.name = path := by
  obtain ⟨text, -, hv⟩ := h
  exact Program.name_of_ofText hv

namespace Linker

variable {k : Linker} {used : List String} {links : Links} {loc : Location} {path : Located String}
  {name? : Option Name}

lemma checkCycle_eq_ok (h : path.value ∉ k.stack) : checkCycle k path = .ok () := by
  have hnil : k.stack.dropWhile (· ≠ path.value) = [] := by
    rw [dropWhile_eq_nil_iff]
    intro x hx
    simpa using fun he : x = path.value => h (he ▸ hx)
  rw [checkCycle, hnil]

lemma checkCycle_eq_error {before between} (h : k.stack = before ++ path.value :: between)
    (hbefore : path.value ∉ before) :
    checkCycle k path = .error ((ModuleError.cycle (path.value :: between ++ [path.value])).report path.loc) := by
  have hdrop : k.stack.dropWhile (· ≠ path.value) = path.value :: between := by
    rw [h, dropWhile_append_of_pos]
    · simp
    · intro x hx
      simpa using fun he : x = path.value => hbefore (he ▸ hx)
  rw [checkCycle, hdrop]

lemma checkAlias_eq_ok (h : name.text ∉ used) : checkAlias used name = .ok () :=
  if_neg (by simpa using h)

lemma module_eq (hname : aliasFor path name? = .ok name) (hused : name.text ∉ used) (hstack : path.value ∉ k.stack) :
    module k used links loc path name? = read k path >>= fun v =>
      (k.inner links v).map fun x => (.module loc name path.value none x.1, used ++ [name.text], x.2) := by
  unfold module
  rw [hname]
  show (checkAlias used name >>= fun _ => checkCycle k path >>= fun _ => read k path >>= _) = _
  rw [checkAlias_eq_ok hused, checkCycle_eq_ok hstack]
  refine congrArg (read k path >>= ·) (funext fun v => ?_)
  cases k.inner links v <;> rfl

/-- The steps of a load come one after the other, and the first that fails decides. -/
lemma module_of_refuses {r} (h : k.loader.Refuses k.stack used path name? r) :
    module k used links loc path name? = .error r := by
  cases h with
  | unnamed hname =>
    rw [module, hname]
    rfl
  | @used name hname hused =>
    have hcheck : checkAlias used name = .error _ := if_pos (contains_iff_mem.mpr hused)
    rw [module, hname]
    show (checkAlias used name >>= _) = _
    rw [hcheck]
    rfl
  | @cycle name _ _ hname hused hstack hbefore =>
    rw [module, hname]
    show (checkAlias used name >>= fun _ => checkCycle k path >>= _) = _
    rw [checkAlias_eq_ok hused, checkCycle_eq_error hstack hbefore]
    rfl
  | missing hname hused hstack hfile =>
    rw [module_eq hname hused hstack, read, hfile]
    rfl
  | unreadable hname hused hstack hfile hread =>
    simp only [module_eq hname hused hstack, read, hfile, hread]
    rfl

lemma module_of_admits {v} (h : k.loader.Admits k.stack used path name? name v) :
    module k used links loc path name? =
      (k.inner links v).map fun x => (.module loc name path.value none x.1, used ++ [name.text], x.2) := by
  obtain ⟨hname, hused, hstack, text, hfile, hread⟩ := h
  simp only [module_eq hname hused hstack, read, hfile, hread]
  rfl

end Linker

namespace Loader

variable {loader : Loader} {stack used : List String} {path : Located String} {name? : Option Name} {name' : Name}
  {v v' : Program} {r r' : Report}

lemma refuses_or_admits (loader : Loader) (stack used : List String) (path : Located String) (name? : Option Name) :
    (∃ r, loader.Refuses stack used path name? r) ∨ ∃ name v, loader.Admits stack used path name? name v := by
  cases hname : Linker.aliasFor path name? with
  | error r => exact .inl ⟨r, .unnamed hname⟩
  | ok name =>
    by_cases hused : name.text ∈ used
    · exact .inl ⟨_, .used hname hused⟩
    by_cases hstack : path.value ∈ stack
    · obtain ⟨before, between, hstack, hbefore⟩ := eq_append_cons_of_mem hstack
      exact .inl ⟨_, .cycle hname hused hstack hbefore⟩
    cases hfile : loader.read path.value with
    | error reason => exact .inl ⟨_, .missing hname hused hstack hfile⟩
    | ok text =>
      cases hread : Program.ofText path.value text with
      | error r => exact .inl ⟨r, .unreadable hname hused hstack hfile hread⟩
      | ok v => exact .inr ⟨name, v, hname, hused, hstack, text, hfile, hread⟩

/-- What becomes of the load if its unit is linked by leaving it as it is. -/
def outcome (loader : Loader) (stack used : List String) (path : Located String) (name? : Option Name) :
    Except Report (Item × List String × Links) :=
  (⟨loader, stack, fun links v => .ok (v, links)⟩ : Linker).module used {} default path name?

lemma Refuses.unique (h : loader.Refuses stack used path name? r) (h' : loader.Refuses stack used path name? r') :
    r = r' := by
  have hr : loader.outcome stack used path name? = .error r := Linker.module_of_refuses h
  have hr' : loader.outcome stack used path name? = .error r' := Linker.module_of_refuses h'
  exact Except.error.inj (hr.symm.trans hr')

lemma Refuses.not_admits (h : loader.Refuses stack used path name? r) :
    ¬ loader.Admits stack used path name? name v := by
  intro h'
  have hr : loader.outcome stack used path name? = .error r := Linker.module_of_refuses h
  have hv : loader.outcome stack used path name? = .ok _ := Linker.module_of_admits h'
  cases hr.symm.trans hv

lemma Admits.unique (h : loader.Admits stack used path name? name v)
    (h' : loader.Admits stack used path name? name' v') : name = name' ∧ v = v' := by
  have hv : loader.outcome stack used path name? = .ok _ := Linker.module_of_admits h
  have hv' : loader.outcome stack used path name? = .ok _ := Linker.module_of_admits h'
  cases hv.symm.trans hv'
  exact ⟨rfl, rfl⟩

end Loader

/-- No unit is on the stack twice, and all but the main unit are files. -/
structure Stacked (files : List (String × String)) (stack : List String) : Prop where
  nonempty : stack ≠ []
  nodup : stack.Nodup
  tail_subset : stack.tail ⊆ files.map Prod.fst

namespace Stacked

variable {files : List (String × String)} {stack : List String} {path : String}

lemma singleton (files : List (String × String)) (name : String) : Stacked files [name] where
  nonempty := nofun
  nodup := nodup_singleton name
  tail_subset := nil_subset _

lemma concat (h : Stacked files stack) (hfile : path ∈ files.map Prod.fst) (hpath : path ∉ stack) :
    Stacked files (stack ++ [path]) where
  nonempty := by simp
  nodup := by
    rw [← concat_eq_append]
    exact h.nodup.concat hpath
  tail_subset := by
    rw [tail_append_of_ne_nil h.nonempty]
    exact append_subset.mpr ⟨h.tail_subset, by simpa using hfile⟩

lemma length_le (h : Stacked files stack) : stack.length ≤ (files.map Prod.fst).dedup.length + 1 := by
  have hsub : stack.tail ⊆ (files.map Prod.fst).dedup := fun x hx => mem_dedup.mpr (h.tail_subset hx)
  have hle := ((h.nodup.tail).subperm hsub).length_le
  rw [length_tail] at hle
  omega

end Stacked

lemma Loader.Reads.mem_files {files : List (String × String)} {path} {v}
    (h : (Loader.ofFiles files).Reads path v) : path ∈ files.map Prod.fst := by
  obtain ⟨text, htext, -⟩ := h
  simp only [ofFiles] at htext
  split at htext
  case h_1 text' hfile =>
    obtain ⟨before, behind, rfl, -⟩ := List.lookup_eq_some_iff.mp hfile
    simp
  case h_2 => cases htext

namespace Linker

variable {files : List (String × String)}

/-- The linker goes on with the unit of a load in a run, in which all is well with the stacks. -/
def Follows (files : List (String × String)) (k : Linker) : Prop :=
  ∀ links v path, k.loader.Reads path v → path ∉ k.stack → ∃ vs result trace,
    Linking k.loader (k.stack ++ [path]) [] (links.add v) v.items (vs, result) trace ∧
    k.inner links v = result.map (fun links => ({ v with items := vs }, links)) ∧
    ∀ stack ∈ (k.stack ++ [path]) :: trace, Stacked files stack

lemma linking_items {k : Linker} (hk : k.Follows files) (used : List String) (links : Links) (is : List Item) :
    ∃ trace, Linking k.loader k.stack used links is (items k used links is) trace ∧
      ∀ stack ∈ trace, Stacked files stack := by
  induction is generalizing used links with
  | nil => exact ⟨[], .nil, nofun⟩
  | cons i is ih =>
    have hkeep (hi : i.isLoad = false) (hitems : items k used links (i :: is) =
        (i :: (items k used links is).1, (items k used links is).2)) : ∃ trace,
        Linking k.loader k.stack used links (i :: is) (items k used links (i :: is)) trace ∧
          ∀ stack ∈ trace, Stacked files stack := by
      obtain ⟨trace, hl, hs⟩ := ih used links
      exact ⟨trace, hitems ▸ .keep hi hl, hs⟩
    cases i with
    | load loc path name? =>
      by_cases hsource : isSourcePath path.value
      · have hfail {r : Report} (h : module k used links loc path name? = .error r) :
            items k used links (.load loc path name? :: is) = (.load loc path name? :: is, .error r) := by
          rw [items, if_pos hsource, h]
        rcases k.loader.refuses_or_admits k.stack used path name? with ⟨r, hr⟩ | ⟨name, v, hv⟩
        · exact ⟨[], hfail (module_of_refuses hr) ▸ .refused hsource hr, nofun⟩
        · obtain ⟨vs, result, trace, hl, hinner, hs⟩ := hk links v path.value hv.reads hv.outside
          have hmodule : module k used links loc path name? = _ := module_of_admits hv
          rw [hinner] at hmodule
          cases result with
          | error r => exact ⟨_, hfail hmodule ▸ .failed hsource hv hl, hs⟩
          | ok links' =>
            obtain ⟨trace', hl', hs'⟩ := ih (used ++ [name.text]) links'
            have hitems : items k used links (.load loc path name? :: is) =
                (.module loc name path.value none { v with items := vs } ::
                  (items k (used ++ [name.text]) links' is).1, (items k (used ++ [name.text]) links' is).2) := by
              rw [items, if_pos hsource, hmodule]
              rfl
            rw [hitems]
            refine ⟨_, .loaded hsource hv hl hl', fun stack hstack => ?_⟩
            rcases mem_append.mp hstack with hstack | hstack
            · exact hs stack hstack
            · exact hs' stack hstack
      · obtain ⟨trace, hl, hs⟩ := ih used links
        have hitems : items k used links (.load loc path name? :: is) =
            (.nativeInclude loc path.value :: (items k used links is).1, (items k used links is).2) := by
          rw [items, if_neg hsource]
        exact ⟨trace, hitems ▸ .native (by simpa using hsource) hl, hs⟩
    | _ => exact hkeep rfl rfl

@[simp] lemma loader_ofDepth (loader : Loader) (n : Nat) (stack : List String) :
    (ofDepth loader n stack).loader = loader := by
  cases n <;> rfl

@[simp] lemma stack_ofDepth (loader : Loader) (n : Nat) (stack : List String) :
    (ofDepth loader n stack).stack = stack := by
  cases n <;> rfl

lemma inner_ofDepth_succ (loader : Loader) (n : Nat) (stack : List String) (links : Links) (v : Program) :
    (ofDepth loader (n + 1) stack).inner links v =
      ((ofDepth loader n (stack ++ [v.name])).unit links v).2.map fun links' =>
        (((ofDepth loader n (stack ++ [v.name])).unit links v).1, links') := by
  rw [ofDepth]
  dsimp only
  rcases (ofDepth loader n (stack ++ [v.name])).unit links v with ⟨u, r | links'⟩ <;> rfl

lemma follows_ofDepth (n : Nat) {stack : List String} (hs : Stacked files stack)
    (hn : (files.map Prod.fst).dedup.length + 1 ≤ n + stack.length) :
    (ofDepth (.ofFiles files) n stack).Follows files := by
  induction n generalizing stack with
  | zero =>
    -- With all files on the stack there is no other to read.
    intro links v path hv hpath
    rw [loader_ofDepth] at hv
    rw [stack_ofDepth] at hpath
    have hle := (hs.concat hv.mem_files hpath).length_le
    rw [length_append, length_singleton] at hle
    omega
  | succ n ih =>
    intro links v path hv hpath
    have hs' := hs.concat hv.mem_files hpath
    have hn' : (files.map Prod.fst).dedup.length + 1 ≤ n + (stack ++ [path]).length := by
      rw [length_append, length_singleton]
      omega
    obtain ⟨trace, hl, ht⟩ := linking_items (ih hs' hn') [] (links.add v) v.items
    rw [loader_ofDepth, stack_ofDepth] at hl
    refine ⟨_, _, trace, hl, ?_, fun s hmem => ?_⟩
    · obtain rfl := hv.name_eq
      rw [inner_ofDepth_succ]
      rfl
    · rcases mem_cons.mp hmem with rfl | hmem
      · exact hs'
      · exact ht s hmem

end Linker

namespace Linking

variable {loader : Loader} {stack used : List String} {links : Links} {is : List Item}
  {x x' : List Item × Except Report Links} {trace trace' : List (List String)}

lemma unique (h : Linking loader stack used links is x trace) (h' : Linking loader stack used links is x' trace') :
    x = x' ∧ trace = trace' := by
  induction h generalizing x' trace' with
  | nil =>
    cases h'
    exact ⟨rfl, rfl⟩
  | keep hi _ ih =>
    cases h' with
    | keep _ h' =>
      obtain ⟨hx, rfl⟩ := ih h'
      cases hx
      exact ⟨rfl, rfl⟩
    | _ => cases hi
  | native hsource _ ih =>
    cases h' with
    | keep hi => cases hi
    | native _ h' =>
      obtain ⟨hx, rfl⟩ := ih h'
      cases hx
      exact ⟨rfl, rfl⟩
    | _ => simp_all
  | refused hsource hr =>
    cases h' with
    | keep hi => cases hi
    | native => simp_all
    | refused _ hr' =>
      cases hr.unique hr'
      exact ⟨rfl, rfl⟩
    | failed _ hv => exact absurd hv hr.not_admits
    | loaded _ hv => exact absurd hv hr.not_admits
  | failed hsource hv _ ih =>
    cases h' with
    | keep hi => cases hi
    | native => simp_all
    | refused _ hr => exact absurd hv hr.not_admits
    | failed _ hv' h' =>
      obtain ⟨rfl, rfl⟩ := hv.unique hv'
      obtain ⟨hx, rfl⟩ := ih h'
      cases hx
      exact ⟨rfl, rfl⟩
    | loaded _ hv' h' =>
      obtain ⟨rfl, rfl⟩ := hv.unique hv'
      cases (ih h').1
  | loaded hsource hv _ _ ih ih' =>
    cases h' with
    | keep hi => cases hi
    | native => simp_all
    | refused _ hr => exact absurd hv hr.not_admits
    | failed _ hv' h' =>
      obtain ⟨rfl, rfl⟩ := hv.unique hv'
      cases (ih h').1
    | loaded _ hv' h' h'' =>
      obtain ⟨rfl, rfl⟩ := hv.unique hv'
      obtain ⟨hx, rfl⟩ := ih h'
      cases hx
      obtain ⟨hx, rfl⟩ := ih' h''
      cases hx
      exact ⟨rfl, rfl⟩

end Linking

end SketchCompiler
