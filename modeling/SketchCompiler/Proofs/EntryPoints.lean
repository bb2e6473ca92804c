import SketchCompiler.Proofs.LinkedTrees

namespace SketchCompiler

open List

variable {j : Nat}

/-- The unit `u` is reached from the program along loads of source files, given by the numbers of their items. -/
inductive Program.Reaches (loader : Loader) : Program → List Nat → Program → Prop
  | here (p : Program) : Reaches loader p [] p
  | load {p u v j a y} : p.items[j]?.bind Item.sourceLoad? = some y → loader.Reads y v → Reaches loader v a u →
      Reaches loader p (j :: a) u

def Program.mark? (u : Program) : Option (String × Location) := u.mainMark.map (u.name, ·)

/-- The units that are reached along the loads of items, numbered from `j` on, in the order of the ways to them. -/
structure Visits (loader : Loader) (j : Nat) (is : List Item) (vs : List (List Nat × Program)) : Prop where
  sorted : vs.Pairwise fun x y => x.1 < y.1
  mem_iff {a : List Nat} {u : Program} : (a, u) ∈ vs ↔
    ∃ n y v b, a = (j + n) :: b ∧ is[n]?.bind Item.sourceLoad? = some y ∧ loader.Reads y v ∧ v.Reaches loader b u

namespace Visits

variable {loader : Loader} {i : Item} {is : List Item} {vs vs' : List (List Nat × Program)} {y : String} {v : Program}

lemma nil : Visits loader j [] [] where
  sorted := .nil
  mem_iff := by simp

lemma skip (hi : i.sourceLoad? = none) (h : Visits loader (j + 1) is vs) : Visits loader j (i :: is) vs where
  sorted := h.sorted
  mem_iff {a u} := by
    rw [h.mem_iff]
    constructor
    · rintro ⟨n, y, v, b, rfl, hy, hv⟩
      exact ⟨n + 1, y, v, b, by rw [Nat.add_assoc, Nat.add_comm 1], hy, hv⟩
    · rintro ⟨n, y, v, b, rfl, hy, hv⟩
      cases n with
      | zero => cases hi.symm.trans hy
      | succ n => exact ⟨n, y, v, b, by rw [Nat.add_assoc, Nat.add_comm 1], hy, hv⟩

lemma load (hi : i.sourceLoad? = some y) (hv : loader.Reads y v) (h : Visits loader 0 v.items vs)
    (h' : Visits loader (j + 1) is vs') :
    Visits loader j (i :: is) (([j], v) :: vs.map (fun x => (j :: x.1, x.2)) ++ vs') where
  sorted := by
    have hhead {x : List Nat × Program} (hx : x ∈ vs') : ∃ n b, x.1 = (j + 1 + n) :: b := by
      obtain ⟨n, -, -, b, hb, -⟩ := h'.mem_iff.mp hx
      exact ⟨n, b, hb⟩
    refine pairwise_append.mpr ⟨pairwise_cons.mpr ⟨fun x hx => ?_, ?_⟩, h'.sorted, fun x hx x' hx' => ?_⟩
    · obtain ⟨⟨a, u⟩, hm, rfl⟩ := mem_map.mp hx
      obtain ⟨n, -, -, b, rfl, -⟩ := h.mem_iff.mp hm
      exact cons_lt_cons_iff.mpr (.inr ⟨rfl, nil_lt_cons _ _⟩)
    · refine pairwise_map.mpr (h.sorted.imp fun hlt => ?_)
      exact cons_lt_cons_iff.mpr (.inr ⟨rfl, hlt⟩)
    · obtain ⟨n, b, hb⟩ := hhead hx'
      rw [hb]
      rcases mem_cons.mp hx with rfl | hx
      · exact cons_lt_cons_iff.mpr (.inl (by omega))
      · obtain ⟨_, -, rfl⟩ := mem_map.mp hx
        exact cons_lt_cons_iff.mpr (.inl (by omega))
  mem_iff {a u} := by
    rw [cons_append, mem_cons, mem_append, h'.mem_iff, mem_map]
    constructor
    · rintro (hx | ⟨⟨b, w⟩, hm, hx⟩ | ⟨n, z, w, b, rfl, hz, hw⟩)
      · cases hx
        exact ⟨0, y, v, [], rfl, hi, hv, .here v⟩
      · cases hx
        obtain ⟨n, z, w', c, rfl, hz, hw, hr⟩ := h.mem_iff.mp hm
        exact ⟨0, y, v, _, rfl, hi, hv, .load (by rwa [Nat.zero_add]) hw hr⟩
      · exact ⟨n + 1, z, w, b, by rw [Nat.add_assoc, Nat.add_comm 1], hz, hw⟩
    · rintro ⟨n, z, w, b, rfl, hz, hw, hr⟩
      cases n with
      | succ n => exact .inr (.inr ⟨n, z, w, b, by rw [Nat.add_assoc, Nat.add_comm 1], hz, hw, hr⟩)
      | zero =>
        cases hi.symm.trans hz
        cases hv.unique hw
        cases hr with
        | here => exact .inl rfl
        | @load _ _ w' m c z' hz' hw' hr' =>
          refine .inr (.inl ⟨(m :: c, u), h.mem_iff.mpr ⟨m, z', w', c, by rw [Nat.zero_add], hz', hw', hr'⟩, rfl⟩)

lemma mem_cons_iff {p u : Program} {a} (h : Visits loader 0 p.items vs) :
    (a, u) ∈ ([], p) :: vs ↔ p.Reaches loader a u := by
  rw [mem_cons, h.mem_iff]
  constructor
  · rintro (hx | ⟨n, y, v, b, rfl, hy, hv, hr⟩)
    · cases hx
      exact .here p
    · exact .load (by rwa [Nat.zero_add]) hv hr
  · intro hr
    cases hr with
    | here => exact .inl rfl
    | @load _ _ v n b y hy hv hr => exact .inr ⟨n, y, v, b, by rw [Nat.zero_add], hy, hv, hr⟩

end Visits

namespace Linking

variable {loader : Loader} {stack used : List String} {links links' : Links} {is is' : List Item}
  {trace : List (List String)}

lemma exists_visits (h : Linking loader stack used links is (is', .ok links') trace) (j : Nat) :
    ∃ vs, Visits loader j is vs ∧ links' = vs.foldl (fun l x => l.add x.2) links ∧
      trace.map List.length = vs.map fun x => stack.length + x.1.length := by
  generalize hx : (is', Except.ok links') = x at h
  induction h generalizing is' links' j with
  | nil =>
    cases hx
    exact ⟨[], .nil, rfl, rfl⟩
  | @keep _ _ _ i _ _ _ _ hi _ ih =>
    cases hx
    have hnone : i.sourceLoad? = none := by
      cases i with
      | load => cases hi
      | _ => rfl
    obtain ⟨vs, hvs, hlinks, htrace⟩ := ih (j + 1) rfl
    exact ⟨vs, hvs.skip hnone, hlinks, htrace⟩
  | native hsource _ ih =>
    cases hx
    obtain ⟨vs, hvs, hlinks, htrace⟩ := ih (j + 1) rfl
    exact ⟨vs, hvs.skip (by simp [Item.sourceLoad?, hsource]), hlinks, htrace⟩
  | refused => cases hx
  | failed => cases hx
  | loaded hsource hv _ _ ih ih' =>
    cases hx
    obtain ⟨vs, hvs, hlinks, htrace⟩ := ih 0 rfl
    obtain ⟨vs', hvs', hlinks', htrace'⟩ := ih' (j + 1) rfl
    refine ⟨_, .load (by simp [Item.sourceLoad?, hsource]) hv.reads hvs hvs', ?_, ?_⟩
    · rw [cons_append, foldl_cons, foldl_append, foldl_map, ← hlinks, hlinks']
    · rw [map_append, map_append, map_cons, map_cons, htrace, htrace', map_map]
      simp [Function.comp_def, Nat.add_assoc, Nat.add_comm 1]

lemma items_eq (h : Linking loader stack used links is (is', .ok links') trace) {n : Nat}
    (hn : ∀ s ∈ trace, s.length ≤ n + stack.length) :
    (Linker.ofDepth loader n stack).items used links is = (is', .ok links') := by
  generalize hx : (is', Except.ok links') = x at h
  induction h generalizing is' links' n with
  | nil =>
    cases hx
    rfl
  | @keep _ used links i is _ _ _ hi _ ih =>
    cases hx
    have hitems (k : Linker) : k.items used links (i :: is) =
        (i :: (k.items used links is).1, (k.items used links is).2) := by
      cases i with
      | load => cases hi
      | _ => rfl
    rw [hitems, ih hn rfl]
  | native hsource _ ih =>
    cases hx
    rw [Linker.items, if_neg (by simp [hsource]), ih hn rfl]
  | refused => cases hx
  | failed => cases hx
  | @loaded stack used links links1 loc path name? name v _ _ vs _ trace _ hsource hv _ _ ih ih' =>
    cases hx
    obtain ⟨hinner, hrest⟩ := forall_mem_append.mp hn
    obtain ⟨hstack, htrace⟩ := forall_mem_cons.mp hinner
    have hlength : (stack ++ [path.value]).length = stack.length + 1 := length_append
    cases n with
    | zero => omega
    | succ n =>
      have hunit : (Linker.ofDepth loader (n + 1) stack).inner links v = .ok ({ v with items := vs }, links1) := by
        have hle : ∀ s ∈ trace, s.length ≤ n + (stack ++ [path.value]).length := by
          intro s hs
          have := htrace s hs
          omega
        have hname : stack ++ [v.name] = stack ++ [path.value] := by rw [hv.reads.name_eq]
        rw [Linker.inner_ofDepth_succ, hname, Linker.unit, ih hle rfl]
        rfl
      have hmodule : (Linker.ofDepth loader (n + 1) stack).module used links loc path name? = _ :=
        Linker.module_of_admits hv
      rw [Linker.items, if_pos hsource, hmodule, hunit]
      show (Item.module .. :: _, _) = _
      rw [ih' hrest rfl]

end Linking

lemma foldl_add (links : Links) (vs : List (List Nat × Program)) :
    (vs.foldl (fun l x => l.add x.2) links).units = links.units ++ vs.map (·.2.name) ∧
    (vs.foldl (fun l x => l.add x.2) links).marked = links.marked ++ vs.filterMap (·.2.mark?) := by
  induction vs generalizing links with
  | nil => simp
  | cons x vs ih =>
    obtain ⟨hunits, hmarked⟩ := ih (links.add x.2)
    rw [foldl_cons, hunits, hmarked]
    refine ⟨by simp [Links.add], ?_⟩
    cases hx : x.2.mainMark <;> simp [Links.add, Program.mark?, hx]

/-- The loads of the items succeed while the units of `stack` are being read: each takes an alias of its own, its file
is not being read, is found and can be read, and the loads of its unit succeed. -/
inductive Loadable (loader : Loader) : (stack used : List String) → List Item → Prop
  | nil {stack used} : Loadable loader stack used []
  | skip {stack used i is} : i.sourceLoad? = none → Loadable loader stack used is → Loadable loader stack used (i :: is)
  | load {stack used loc path name? name v is} : isSourcePath path.value → loader.Admits stack used path name? name v →
      Loadable loader (stack ++ [path.value]) [] v.items → Loadable loader stack (used ++ [name.text]) is →
      Loadable loader stack used (.load loc path name? :: is)

namespace Loadable

variable {loader : Loader} {stack used : List String} {is : List Item}

lemma exists_linking (h : Loadable loader stack used is) (links : Links) :
    ∃ is' links' trace, Linking loader stack used links is (is', .ok links') trace := by
  induction h generalizing links with
  | nil => exact ⟨_, _, _, .nil⟩
  | @skip _ _ i _ hi _ ih =>
    obtain ⟨is', links', trace, hl⟩ := ih links
    cases i with
    | load loc path name? =>
      have hsource : isSourcePath path.value = false := by simpa [Item.sourceLoad?] using hi
      exact ⟨_, _, _, .native hsource hl⟩
    | _ => exact ⟨_, _, _, .keep rfl hl⟩
  | load hsource hv _ _ ih ih' =>
    obtain ⟨vs, links1, trace, hl⟩ := ih (links.add _)
    obtain ⟨is', links', trace', hl'⟩ := ih' links1
    exact ⟨_, _, _, .loaded hsource hv hl hl'⟩

lemma of_linking {is'} {links links'} {trace}
    (h : Linking loader stack used links is (is', .ok links') trace) : Loadable loader stack used is := by
  generalize hx : (is', Except.ok links') = x at h
  induction h generalizing is' links' with
  | nil => exact .nil
  | @keep _ _ _ i _ _ _ _ hi _ ih =>
    cases hx
    refine .skip ?_ (ih rfl)
    cases i with
    | load => cases hi
    | _ => rfl
  | native hsource _ ih =>
    cases hx
    exact .skip (by simp [Item.sourceLoad?, hsource]) (ih rfl)
  | refused => cases hx
  | failed => cases hx
  | loaded hsource hv _ _ ih ih' =>
    cases hx
    exact .load hsource hv (ih rfl) (ih' rfl)

end Loadable

namespace Program

variable {loader : Loader} {p u v : Program} {a b : List Nat}

lemma Reaches.unique (h : p.Reaches loader a u) (h' : p.Reaches loader a v) : u = v := by
  induction h with
  | here =>
    cases h'
    rfl
  | load hy hw _ ih =>
    cases h' with
    | load hy' hw' h' =>
      cases hy.symm.trans hy'
      cases hw.unique hw'
      exact ih h'

lemma Reaches.reads (h : p.Reaches loader (j :: a) u) : loader.Reads u.name u := by
  generalize hb : j :: a = b at h
  induction h generalizing j a with
  | here => cases hb
  | @load _ _ w _ c _ _ hw h ih =>
    cases c with
    | nil =>
      cases h
      rwa [hw.name_eq]
    | cons => exact ih rfl

lemma Reaches.not_mem_stack {stack} (h : p.Reaches loader (j :: a) u) (hp : Clear loader stack p) : u.name ∉ stack := by
  generalize hb : j :: a = b at h
  induction h generalizing j a stack with
  | here => cases hb
  | @load _ _ w _ c y hy hw h ih =>
    obtain ⟨i, hi, hload⟩ := Option.bind_eq_some_iff.mp hy
    obtain ⟨hout, w', hw', hclear⟩ := hp.step (mem_filterMap.mpr ⟨i, mem_of_getElem? hi, hload⟩)
    cases hw.unique hw'
    cases c with
    | nil =>
      cases h
      rwa [hw.name_eq]
    | cons => exact fun hmem => ih hclear rfl (mem_append_left _ hmem)

lemma Reaches.eq_of_name (hp : Clear loader [p.name] p) (h : p.Reaches loader a u) (h' : p.Reaches loader b v)
    (hname : u.name = v.name) : u = v := by
  cases a with
  | nil =>
    cases h
    cases b with
    | nil =>
      cases h'
      rfl
    | cons => exact absurd (by simp [hname]) (h'.not_mem_stack hp)
  | cons =>
    cases b with
    | nil =>
      cases h'
      exact absurd (by simp [hname]) (h.not_mem_stack hp)
    | cons => exact h.reads.unique (hname ▸ h'.reads)

end Program

lemma ModuleError.missingMain_ne_multipleMain {units units'} {loc loc'} :
    (missingMain units).report loc ≠ (multipleMain units').report loc' := by
  intro h
  obtain ⟨rest, hrest⟩ := (missingMain units).stem_message
  obtain ⟨rest', hrest'⟩ := (multipleMain units').stem_message
  have hmessage := congrArg String.toList (message_eq_of_report h)
  rw [hrest, hrest', String.toList_append, String.toList_append] at hmessage
  simp [stem] at hmessage

namespace Program

variable {loader : Loader} {p u v : Program} {a b : List Nat} {links : Links} {vs : List (List Nat × Program)}

lemma checkMain_cases (p : Program) (units : List String) (marked : List (String × Location)) :
    marked = [] ∧ 2 ≤ units.length ∧
      p.checkMain ⟨units, marked⟩ = .error ((ModuleError.missingMain units).report p.start) ∨
    2 ≤ marked.length ∧ 2 ≤ units.length ∧ (∃ loc,
      p.checkMain ⟨units, marked⟩ = .error ((ModuleError.multipleMain (marked.map (·.1))).report loc)) ∨
    (marked.length = 1 ∨ units.length ≤ 1) ∧ p.checkMain ⟨units, marked⟩ = .ok ⟨!marked.isEmpty, units.length - 1⟩ := by
  unfold checkMain
  dsimp only
  rcases marked with _ | ⟨x, _ | ⟨⟨y, loc⟩, marked⟩⟩
  · by_cases hunits : units.length - 1 = 0
    · exact .inr (.inr ⟨.inr (by omega), if_pos hunits⟩)
    · exact .inl ⟨rfl, by omega, if_neg hunits⟩
  · exact .inr (.inr ⟨.inl rfl, rfl⟩)
  · by_cases hunits : units.length - 1 = 0
    · exact .inr (.inr ⟨.inr (by omega), if_pos hunits⟩)
    · exact .inr (.inl ⟨by simp, by omega, loc, if_neg hunits⟩)

lemma exists_visits (hp : Loadable loader [p.name] [] p.items)
    (hdepth : ∀ a u, p.Reaches loader a u → a.length ≤ loader.depth) :
    ∃ (is : List Item) (vs : List (List Nat × Program)), (vs.Pairwise fun x y => x.1 < y.1) ∧
      (∀ a u, (a, u) ∈ vs ↔ p.Reaches loader a u) ∧ (p.link loader).2 =
        ({ p with items := is } : Program).checkMain ⟨vs.map (·.2.name), vs.filterMap (·.2.mark?)⟩ := by
  obtain ⟨is, links, trace, hl⟩ := hp.exists_linking (Links.add {} p)
  obtain ⟨vs, hvs, hlinks, htrace⟩ := hl.exists_visits 0
  have hitems := hl.items_eq (n := loader.depth + 1) fun s hs => by
    obtain ⟨x, hx, hlength⟩ : ∃ x ∈ vs, [p.name].length + x.1.length = s.length := by
      rw [← mem_map, ← htrace]
      exact mem_map_of_mem hs
    have hle := hdepth x.1 x.2 (hvs.mem_cons_iff.mp (mem_cons_of_mem _ hx))
    omega
  refine ⟨is, ([], p) :: vs, pairwise_cons.mpr ⟨fun x hx => ?_, hvs.sorted⟩, fun a u => hvs.mem_cons_iff, ?_⟩
  · obtain ⟨n, -, -, b, hb, -⟩ := hvs.mem_iff.mp hx
    rw [hb]
    exact nil_lt_cons _ _
  · have hstart : Links.add {} p = ([([], p)] : List (List Nat × Program)).foldl (fun l x => l.add x.2) {} := rfl
    rw [hstart, ← foldl_append] at hlinks
    have hall : links = ⟨(([], p) :: vs).map (·.2.name), (([], p) :: vs).filterMap (·.2.mark?)⟩ := by
      obtain ⟨hunits, hmarked⟩ := foldl_add {} (([], p) :: vs)
      rw [hlinks]
      exact congr (congrArg Links.mk hunits) hmarked
    rw [link_eq, hitems, ← hall]
    rfl

lemma Reaches.length_le {files} (h : p.Reaches (.ofFiles files) a u)
    (hp : Loadable (.ofFiles files) [p.name] [] p.items) : a.length ≤ (Loader.ofFiles files).depth := by
  obtain ⟨is, links, trace, hl⟩ := hp.exists_linking (Links.add {} p)
  obtain ⟨is', result, trace', hl', -, hstacked⟩ := exists_linking files p
  obtain ⟨-, rfl⟩ := hl.unique hl'
  obtain ⟨vs, hvs, -, htrace⟩ := hl.exists_visits 0
  rcases mem_cons.mp (hvs.mem_cons_iff.mpr h) with hx | hx
  · cases hx
    exact Nat.zero_le _
  · have hlength : [p.name].length + a.length ∈ trace.map List.length := by
      rw [htrace]
      exact mem_map_of_mem (f := fun x => [p.name].length + x.1.length) hx
    obtain ⟨stack, hstack, hlength⟩ := mem_map.mp hlength
    have hle := (hstacked stack (mem_cons_of_mem _ hstack)).length_le
    have hfiles : (files.map Prod.fst).dedup.length ≤ (files.map Prod.fst).length := (dedup_sublist _).length_le
    rw [length_map] at hfiles
    rw [length_singleton] at hlength
    exact Nat.le_of_add_le_add_left (a := 1) (by simp only [Loader.ofFiles]; omega)

lemma two_marks_iff (hvs : vs.Pairwise fun x y => x.1 < y.1) : 2 ≤ (vs.filterMap (·.2.mark?)).length ↔
      ∃ x ∈ vs, ∃ y ∈ vs, x.1 ≠ y.1 ∧ x.2.mainMark.isSome ∧ y.2.mainMark.isSome := by
  have hmark (x : List Nat × Program) : x.2.mark?.isSome = x.2.mainMark.isSome := Option.isSome_map
  have hlength : (vs.filterMap (·.2.mark?)).length = (vs.filter fun x => x.2.mainMark.isSome).length := by
    rw [length_filterMap_eq_countP, ← countP_eq_length_filter]
    simp only [hmark]
  have hsorted := hvs.sublist (filter_sublist (p := fun x => x.2.mainMark.isSome))
  have hmem (x : List Nat × Program) : x ∈ vs.filter (fun x => x.2.mainMark.isSome) ↔ x ∈ vs ∧ x.2.mainMark.isSome :=
    mem_filter
  rw [hlength]
  generalize vs.filter (fun x => x.2.mainMark.isSome) = ws at hsorted hmem
  constructor
  · intro h
    match ws, h with
    | x :: y :: ws, _ =>
      obtain ⟨hx, hxm⟩ := (hmem x).mp (by simp)
      obtain ⟨hy, hym⟩ := (hmem y).mp (by simp)
      have hlt := (pairwise_cons.mp hsorted).1 y (by simp)
      exact ⟨x, hx, y, hy, ne_of_lt hlt, hxm, hym⟩
  · rintro ⟨x, hx, y, hy, hne, hxm, hym⟩
    have hx := (hmem x).mpr ⟨hx, hxm⟩
    have hy := (hmem y).mpr ⟨hy, hym⟩
    match ws, hx, hy with
    | [z], hx, hy =>
      rw [mem_singleton.mp hx, mem_singleton.mp hy] at hne
      exact absurd rfl hne
    | _ :: _ :: _, _, _ => simp

lemma two_visits_iff (hvs : vs.Pairwise fun x y => x.1 < y.1) (hmem : ∀ a u, (a, u) ∈ vs ↔ p.Reaches loader a u) :
    2 ≤ vs.length ↔ ∃ a u, a ≠ [] ∧ p.Reaches loader a u := by
  have hp := (hmem [] p).mpr (.here p)
  constructor
  · intro h
    match vs, h with
    | x :: y :: vs, _ =>
      have hlt := (pairwise_cons.mp hvs).1 y (by simp)
      refine ⟨y.1, y.2, fun hy => ?_, (hmem y.1 y.2).mp (by simp)⟩
      rw [hy] at hlt
      exact not_lt_nil _ hlt
  · rintro ⟨a, u, hne, hu⟩
    have hu := (hmem a u).mpr hu
    match vs, hp, hu with
    | [x], hp, hu =>
      cases (mem_singleton.mp hp).trans (mem_singleton.mp hu).symm
      exact absurd rfl hne
    | _ :: _ :: _, _, _ => simp

/-- If all loads of a program succeed, linking it reports several `@main` if and only if two units with different names
carry one, or a unit with one is reached along two ways. It reports none if and only if something is loaded and no unit
carries one. There are no other errors, and without them it tells whether a unit carries one. -/
theorem main_counted_by_visits (hp : Loadable loader [p.name] [] p.items)
    (hdepth : ∀ a u, p.Reaches loader a u → a.length ≤ loader.depth) :
    ((∃ units loc, (p.link loader).2 = .error ((ModuleError.multipleMain units).report loc)) ↔
      (∃ a b u v, p.Reaches loader a u ∧ p.Reaches loader b v ∧ u.name ≠ v.name ∧ u.mainMark.isSome ∧
        v.mainMark.isSome) ∨
      ∃ a b u, a ≠ b ∧ p.Reaches loader a u ∧ p.Reaches loader b u ∧ u.mainMark.isSome) ∧
    ((∃ units loc, (p.link loader).2 = .error ((ModuleError.missingMain units).report loc)) ↔
      (∃ a u, a ≠ [] ∧ p.Reaches loader a u) ∧ ∀ a u, p.Reaches loader a u → u.mainMark = none) ∧
    (∀ r, (p.link loader).2 = .error r → ∃ units loc,
      r = (ModuleError.multipleMain units).report loc ∨ r = (ModuleError.missingMain units).report loc) ∧
    ∀ linked, (p.link loader).2 = .ok linked →
      (linked.hasMain ↔ ∃ a u, p.Reaches loader a u ∧ u.mainMark.isSome) := by
  obtain ⟨is, vs, hsorted, hmem, hlink⟩ := exists_visits hp hdepth
  have hclear : Clear loader [p.name] p := ⟨_, hp.exists_linking {}⟩
  have htwo : 2 ≤ (vs.filterMap (·.2.mark?)).length ↔
      (∃ a b u v, p.Reaches loader a u ∧ p.Reaches loader b v ∧ u.name ≠ v.name ∧ u.mainMark.isSome ∧
        v.mainMark.isSome) ∨
      ∃ a b u, a ≠ b ∧ p.Reaches loader a u ∧ p.Reaches loader b u ∧ u.mainMark.isSome := by
    rw [two_marks_iff hsorted]
    constructor
    · rintro ⟨⟨a, u⟩, hu, ⟨b, v⟩, hv, hne, hum, hvm⟩
      have hu := (hmem a u).mp hu
      have hv := (hmem b v).mp hv
      by_cases hname : u.name = v.name
      · cases hu.eq_of_name hclear hv hname
        exact .inr ⟨a, b, u, hne, hu, hv, hum⟩
      · exact .inl ⟨a, b, u, v, hu, hv, hname, hum, hvm⟩
    · rintro (⟨a, b, u, v, hu, hv, hname, hum, hvm⟩ | ⟨a, b, u, hne, hu, hv, hum⟩)
      · refine ⟨(a, u), (hmem a u).mpr hu, (b, v), (hmem b v).mpr hv, ?_, hum, hvm⟩
        rintro rfl
        exact hname (by rw [hu.unique hv])
      · exact ⟨(a, u), (hmem a u).mpr hu, (b, u), (hmem b u).mpr hv, hne, hum, hum⟩
  have hnone : vs.filterMap (·.2.mark?) = [] ↔ ∀ a u, p.Reaches loader a u → u.mainMark = none := by
    simp only [filterMap_eq_nil_iff, Prod.forall, hmem, mark?, Option.map_eq_none_iff]
  have hloads : 2 ≤ (vs.map (·.2.name)).length ↔ ∃ a u, a ≠ [] ∧ p.Reaches loader a u := by
    rw [length_map]
    exact two_visits_iff hsorted hmem
  have hle : (vs.filterMap (·.2.mark?)).length ≤ (vs.map (·.2.name)).length := by
    rw [length_map]
    exact length_filterMap_le _ vs
  rw [hlink, ← htwo, ← hnone, ← hloads]
  rcases checkMain_cases { p with items := is } (vs.map (·.2.name)) (vs.filterMap (·.2.mark?)) with
    ⟨hmarked, hunits, hr⟩ | ⟨hmarked, hunits, loc, hr⟩ | ⟨hfew, hr⟩
  · rw [hr]
    refine ⟨⟨?_, ?_⟩, ⟨fun _ => ⟨hunits, hmarked⟩, fun _ => ⟨_, _, rfl⟩⟩, ?_, nofun⟩
    · rintro ⟨units, loc, he⟩
      exact absurd (Except.error.inj he) ModuleError.missingMain_ne_multipleMain
    · intro htwo
      rw [hmarked] at htwo
      cases htwo
    · rintro _ ⟨⟩
      exact ⟨_, _, .inr rfl⟩
  · rw [hr]
    refine ⟨⟨fun _ => hmarked, fun _ => ⟨_, _, rfl⟩⟩, ⟨?_, ?_⟩, ?_, nofun⟩
    · rintro ⟨units, loc, he⟩
      exact absurd (Except.error.inj he).symm ModuleError.missingMain_ne_multipleMain
    · rintro ⟨-, hempty⟩
      rw [hempty] at hmarked
      cases hmarked
    · rintro _ ⟨⟩
      exact ⟨_, _, .inl rfl⟩
  · rw [hr]
    refine ⟨⟨nofun, fun htwo => ?_⟩, ⟨nofun, ?_⟩, nofun, ?_⟩
    · omega
    · rintro ⟨hunits, hempty⟩
      rw [hempty, length_nil] at hfew
      omega
    · rintro _ ⟨⟩
      rw [← not_iff_not]
      simpa [List.isEmpty_iff] using hnone

end Program

namespace Sample

def sharedFiles : List (String × String) := [("a.ys", "load <c.ys>"), ("b.ys", "load <c.ys>"), ("c.ys", "@main")]

def sharedText : String := "load <a.ys>
load <b.ys>"

def fileUnit (path : String) : Program :=
  match (sharedFiles.lookup path).map (Program.ofText path) with
  | some (.ok p) => p
  | _ => unit []

lemma reads_fileUnit {path text} (hfile : sharedFiles.lookup path = some text)
    (hread : (Program.ofText path text).isOk) : (Loader.ofFiles sharedFiles).Reads path (fileUnit path) := by
  refine ⟨text, by simp [Loader.ofFiles, hfile], ?_⟩
  unfold fileUnit
  rw [hfile, Option.map_some]
  cases hp : Program.ofText path text with
  | ok p => rfl
  | error r => simp [hp, Except.isOk, Except.toBool] at hread

lemma sourceLoad_of_map {is : List Item} {y}
    (h : (is.map Item.sourceLoad?)[j]? = some (some y)) : is[j]?.bind Item.sourceLoad? = some y := by
  rw [getElem?_map] at h
  obtain ⟨i, hi, hy⟩ := Option.map_eq_some_iff.mp h
  rw [hi]
  exact hy

lemma loadable_of_isOk {loader} {p : Program} {n} {links}
    (h : ((Linker.ofDepth loader n [p.name]).items [] links p.items).2.isOk) : Loadable loader [p.name] [] p.items := by
  cases hresult : ((Linker.ofDepth loader n [p.name]).items [] links p.items).2 with
  | error r => simp [hresult, Except.isOk, Except.toBool] at h
  | ok links' =>
    obtain ⟨trace, hl⟩ := (Linker.traces_ofDepth loader n [p.name]).linking (Prod.ext rfl hresult)
    rw [Linker.loader_ofDepth, Linker.stack_ofDepth] at hl
    exact .of_linking hl

/-- Only one unit carries `@main`, and it is found at two visits. -/
theorem shared_main_counted_twice :
    let p := ofText sharedText
    let loader := Loader.ofFiles sharedFiles
    Loadable loader [p.name] [] p.items ∧ (∀ a u, p.Reaches loader a u → a.length ≤ loader.depth) ∧
    p.Reaches loader [0, 0] (fileUnit "c.ys") ∧ p.Reaches loader [1, 0] (fileUnit "c.ys") ∧
    (fileUnit "c.ys").mainMark.isSome ∧ p.mainMark = none ∧ (fileUnit "a.ys").mainMark = none ∧
    (fileUnit "b.ys").mainMark = none ∧
    ∃ units loc, (p.link loader).2 = .error ((ModuleError.multipleMain units).report loc) := by
  have hall : (Program.ofText "a.ys" "load <c.ys>").isOk ∧ (Program.ofText "b.ys" "load <c.ys>").isOk ∧
      (Program.ofText "c.ys" "@main").isOk ∧
      (ofText sharedText).items.map Item.sourceLoad? = [some "a.ys", some "b.ys"] ∧
      (fileUnit "a.ys").items.map Item.sourceLoad? = [some "c.ys"] ∧
      (fileUnit "b.ys").items.map Item.sourceLoad? = [some "c.ys"] ∧ (fileUnit "c.ys").mainMark.isSome ∧
      (ofText sharedText).mainMark = none ∧ (fileUnit "a.ys").mainMark = none ∧ (fileUnit "b.ys").mainMark = none ∧
      ((Linker.ofDepth (.ofFiles sharedFiles) 4 [(ofText sharedText).name]).items [] (Links.add {} (ofText sharedText))
        (ofText sharedText).items).2.isOk := by decide +kernel
  obtain ⟨ha, hb, hc, hitems, hitemsA, hitemsB, hmark, hplain, hplainA, hplainB, hok⟩ := hall
  have hreadA := reads_fileUnit rfl ha
  have hreadB := reads_fileUnit rfl hb
  have hreadC := reads_fileUnit rfl hc
  generalize fileUnit "a.ys" = ua at *
  generalize fileUnit "b.ys" = ub at *
  generalize fileUnit "c.ys" = uc at *
  generalize ofText sharedText = p at *
  intro p loader
  have hload : Loadable loader [p.name] [] p.items := loadable_of_isOk hok
  have hdepth : ∀ a u, p.Reaches loader a u → a.length ≤ loader.depth := fun a u h => h.length_le hload
  have hleft : p.Reaches loader [0, 0] uc :=
    .load (sourceLoad_of_map (by rw [hitems]; rfl)) hreadA
      (.load (sourceLoad_of_map (by rw [hitemsA]; rfl)) hreadC (.here uc))
  have hright : p.Reaches loader [1, 0] uc :=
    .load (sourceLoad_of_map (by rw [hitems]; rfl)) hreadB
      (.load (sourceLoad_of_map (by rw [hitemsB]; rfl)) hreadC (.here uc))
  refine ⟨hload, hdepth, hleft, hright, hmark, hplain, hplainA, hplainB, ?_⟩
  exact (Program.main_counted_by_visits hload hdepth).1.mpr (.inr ⟨_, _, uc, by decide, hleft, hright, hmark⟩)

end Sample

end SketchCompiler
