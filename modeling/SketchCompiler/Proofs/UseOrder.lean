import SketchCompiler.Proofs.DeviceUses
import SketchCompiler.Proofs.NamesInForce

namespace SketchCompiler

open List

section Lists

variable {α : Type} {a b : List Nat}

lemma append_lt_of_lt (h : a < b) (hp : ¬ a <+: b) (c : List Nat) : a ++ c < b := by
  induction a generalizing b with
  | nil => exact absurd nil_prefix hp
  | cons i a ih =>
    cases b with
    | nil => cases h
    | cons j b =>
      rw [cons_append, cons_lt_cons_iff]
      rcases cons_lt_cons_iff.mp h with hij | ⟨rfl, hab⟩
      · exact .inl hij
      · refine .inr ⟨rfl, ih hab fun hpre => hp ?_⟩
        exact cons_prefix_cons.mpr ⟨rfl, hpre⟩

lemma exists_split_of_pairwise {l : List (List Nat × α)} {x : List Nat × α} (hl : l.Pairwise fun y z => y.1 < z.1)
    (hx : x ∈ l) : ∃ before after, l = before ++ x :: after ∧ (∀ y ∈ before, y.1 < x.1) ∧ ∀ y ∈ after, x.1 < y.1 := by
  obtain ⟨before, after, rfl⟩ := append_of_mem hx
  obtain ⟨-, hafter, hbefore⟩ := pairwise_append.mp hl
  refine ⟨before, after, rfl, fun y hy => ?_, (pairwise_cons.mp hafter).1⟩
  exact hbefore y hy x mem_cons_self

end Lists

namespace Node

variable {l lm : Location} {object : Expr} {method : Name} {symbol : Option SymbolId} {args : List Expr}

/-- The place below the node of the `i`-th node that is walked next. -/
def walkedPlace (n : Node) (i : Nat) : List Nat :=
  match n with
  | var d => if d.device?.isSome then [(ofRange? d.range).length, i] else [i]
  | _ => [i]

variable {n m c : Node} {a b : List Nat} {i j : Nat} {u : DeviceUse}

lemma walked_cases (n : Node) : (n.walked = n.children ∧ ∀ i, n.walkedPlace i = [i]) ∨
    ∃ d l type args, n = var d ∧ d.device?.isSome ∧ n.children = ofRange? d.range ++ [expr (.new l type args)] ∧
      n.walked = args.map expr ∧ ∀ i, n.walkedPlace i = [(ofRange? d.range).length, i] := by
  cases n with
  | var d =>
    cases hd : d.device? with
    | none => exact .inl ⟨by simp [walked, hd], by simp [walkedPlace, hd]⟩
    | some x =>
      obtain ⟨device, l, args⟩ := x
      obtain ⟨type, hi, -⟩ := VarDecl.device?_eq_some hd
      refine .inr ⟨d, l, type, args, rfl, by simp [hd], ?_, ?_, ?_⟩
      · simp [children, hi, ofExpr?]
      · simp [walked, hd]
      · simp [walkedPlace, hd]
  | _ => exact .inl ⟨rfl, fun _ => rfl⟩

lemma at?_walkedPlace (h : n.walked[i]? = some c) : n.at? (n.walkedPlace i) = some c := by
  rcases n.walked_cases with ⟨hw, hp⟩ | ⟨d, l, type, args, -, -, hc, hw, hp⟩
  · rw [hw] at h
    simp [hp, at?, h]
  · rw [hw] at h
    have hnew : (expr (.new l type args)).children[i]? = some c := h
    simp [hp, at?, hc, hnew]

lemma walkedPlace_lt (hij : i < j) : n.walkedPlace i ++ a < n.walkedPlace j ++ b := by
  have hlt : [i] ++ a < [j] ++ b := cons_lt_cons_iff.mpr (.inl hij)
  rcases n.walked_cases with ⟨-, hp⟩ | ⟨d, l, type, args, -, -, -, -, hp⟩
  · rw [hp, hp]
    exact hlt
  · rw [hp, hp]
    exact cons_lt_cons_iff.mpr (.inr ⟨rfl, hlt⟩)

lemma nil_lt_walkedPlace : [] < n.walkedPlace i ++ a := by
  rcases n.walked_cases with ⟨-, hp⟩ | ⟨d, l, type, args, -, -, -, -, hp⟩
  · rw [hp]
    exact nil_lt_cons _ _
  · rw [hp]
    exact nil_lt_cons _ _

lemma walkedPlace_lt_length (hi : i < n.walked.length) : n.walkedPlace i ++ a < [n.children.length] := by
  rcases n.walked_cases with ⟨hw, hp⟩ | ⟨d, l, type, args, -, -, hc, -, hp⟩
  · rw [hw] at hi
    rw [hp]
    exact cons_lt_cons_iff.mpr (.inl hi)
  · rw [hp, hc]
    exact cons_lt_cons_iff.mpr (.inl (by simp))

/-- The uses at and below a node, each with the place where it is met. -/
def placedUses (n : Node) : List (List Nat × DeviceUse) :=
  n.useBefore.map (([], ·)) ++
    ((List.finRange n.walked.length).flatMap fun i =>
      (placedUses (n.walked.get i)).map fun x => (n.walkedPlace i ++ x.1, x.2)) ++
    n.useAfter.map (([n.children.length], ·))
termination_by sizeOf n
decreasing_by exact sizeOf_lt_of_mem_walked (get_mem _ _)

lemma inductWalked {P : Node → Prop} (h : ∀ n, (∀ c ∈ n.walked, P c) → P n) (n : Node) : P n :=
  h n fun c _ => inductWalked h c
termination_by sizeOf n
decreasing_by exact sizeOf_lt_of_mem_walked ‹_›

lemma map_placedUses (n : Node) : n.placedUses.map (·.2) = n.uses := by
  induction n using inductWalked with
  | h n ih =>
    have hw : (List.finRange n.walked.length).flatMap (fun i => (n.walked.get i).placedUses.map (·.2)) =
        n.walked.flatMap uses := by
      rw [← map_get_finRange n.walked, flatMap_map, map_get_finRange]
      exact flatMap_congr fun i _ => ih _ (get_mem _ _)
    rw [placedUses, uses_eq, ← hw]
    simp [map_flatMap, Function.comp_def]

lemma useBefore_short (n : Node) : n.useBefore.length ≤ 1 := by
  unfold useBefore
  split <;> simp

lemma useAfter_short (n : Node) : n.useAfter.length ≤ 1 := by
  unfold useAfter
  split
  · split <;> simp
  · simp

lemma pairwise_of_short {α : Type} {R : α → α → Prop} {l : List α} (h : l.length ≤ 1) : l.Pairwise R := by
  match l with
  | [] => exact .nil
  | [x] => exact pairwise_singleton R x
  | _ :: _ :: _ => simp at h

lemma pairwise_placedUses (n : Node) : n.placedUses.Pairwise fun x y => x.1 < y.1 := by
  induction n using inductWalked with
  | h n ih =>
    rw [placedUses]
    -- The node's own use comes first, then what is below, node by node, and last the device that is declared.
    refine pairwise_append.mpr ⟨pairwise_append.mpr ⟨?_, pairwise_flatMap.mpr ⟨?_, ?_⟩, ?_⟩, ?_, ?_⟩
    · exact pairwise_of_short (by simpa using n.useBefore_short)
    · intro i _
      refine pairwise_map.mpr ((ih _ (get_mem _ _)).imp ?_)
      intro x y h
      exact append_left_lt h
    · refine (pairwise_lt_finRange _).imp ?_
      rintro i j hij
      simp only [mem_map]
      rintro _ ⟨x, -, rfl⟩ _ ⟨y, -, rfl⟩
      exact walkedPlace_lt hij
    · simp only [mem_map, mem_flatMap]
      rintro _ ⟨u, -, rfl⟩ _ ⟨i, -, x, -, rfl⟩
      exact nil_lt_walkedPlace
    · exact pairwise_of_short (by simpa using n.useAfter_short)
    · simp only [mem_append, mem_map, mem_flatMap]
      rintro x (⟨u, -, rfl⟩ | ⟨i, -, y, -, rfl⟩) _ ⟨v, -, rfl⟩
      · exact nil_lt_cons _ _
      · exact walkedPlace_lt_length i.isLt

lemma mem_placedUses_below (hc : n.walked[i]? = some c) (hu : (a, u) ∈ c.placedUses) :
    (n.walkedPlace i ++ a, u) ∈ n.placedUses := by
  obtain ⟨hi, rfl⟩ := List.getElem?_eq_some_iff.mp hc
  rw [placedUses]
  refine mem_append_left _ (mem_append_right _ (mem_flatMap.mpr ⟨⟨i, hi⟩, mem_finRange _, ?_⟩))
  exact mem_map.mpr ⟨(a, u), hu, rfl⟩

lemma exists_of_mem_placedUses (h : (a, u) ∈ n.placedUses) : ∃ b m, n.at? b = some m ∧
    (u ∈ m.useBefore ∧ a = b ∨ u ∈ m.useAfter ∧ a = b ++ [m.children.length]) := by
  induction n using inductWalked generalizing a with
  | h n ih =>
    rw [placedUses, mem_append, mem_append] at h
    rcases h with (h | h) | h
    · obtain ⟨v, hv, he⟩ := mem_map.mp h
      cases he
      exact ⟨[], n, rfl, .inl ⟨hv, rfl⟩⟩
    · obtain ⟨i, -, h⟩ := mem_flatMap.mp h
      obtain ⟨⟨a', v⟩, hv, he⟩ := mem_map.mp h
      cases he
      obtain ⟨b, m, hm, hb⟩ := ih _ (get_mem _ _) hv
      refine ⟨n.walkedPlace i ++ b, m, ?_, hb.imp ?_ ?_⟩
      · rw [at?_append, at?_walkedPlace (getElem?_eq_getElem i.isLt)]
        exact hm
      · rintro ⟨hu, rfl⟩
        exact ⟨hu, rfl⟩
      · rintro ⟨hu, rfl⟩
        exact ⟨hu, by simp⟩
    · obtain ⟨v, hv, he⟩ := mem_map.mp h
      cases he
      exact ⟨[], n, rfl, .inr ⟨hv, rfl⟩⟩

/-- The place lies in the range of a variable that is a device. -/
def InDeviceRange (n : Node) (a : List Nat) : Prop :=
  ∃ b d i c, n.at? b = some (var d) ∧ d.device?.isSome ∧ i < (ofRange? d.range).length ∧ a = b ++ i :: c

lemma InDeviceRange.below (hc : n.at? b = some c) (h : c.InDeviceRange a) : n.InDeviceRange (b ++ a) := by
  obtain ⟨b', d, i, a', hd, hdev, hi, rfl⟩ := h
  refine ⟨b ++ b', d, i, a', ?_, hdev, hi, by simp⟩
  rw [at?_append, hc]
  exact hd

lemma call_mem_placedUses (h : n.at? a = some (expr (.call l (.member lm object method symbol) args)))
    (ha : ¬ n.InDeviceRange a) : (a, .call lm object method args.length) ∈ n.placedUses := by
  induction n using inductWalked generalizing a with
  | h n ih =>
    have below {i : Nat} {c : Node} {a' : List Nat} (hc : n.walked[i]? = some c)
        (hc' : c.at? a' = some (expr (.call l (.member lm object method symbol) args)))
        (ha' : a = n.walkedPlace i ++ a') : (a, .call lm object method args.length) ∈ n.placedUses := by
      subst ha'
      refine mem_placedUses_below hc (ih c (mem_of_getElem? hc) hc' fun hr => ha ?_)
      exact hr.below (at?_walkedPlace hc)
    cases a with
    | nil =>
      cases h
      rw [placedUses]
      exact mem_append_left _ (mem_append_left _ (mem_map.mpr ⟨_, mem_singleton_self _, rfl⟩))
    | cons i a =>
      obtain ⟨c, hc, hca⟩ := Option.bind_eq_some_iff.mp h
      rcases n.walked_cases with ⟨hw, hp⟩ | ⟨d, l', type, args', rfl, hd, hch, hw, hp⟩
      · exact below (hw ▸ hc) hca (by simp [hp])
      · have hr : ¬ i < (ofRange? d.range).length := fun hi => ha ⟨[], d, i, a, rfl, hd, hi, rfl⟩
        rw [hch] at hc
        obtain rfl : i = (ofRange? d.range).length := by
          have hlt := lt_of_getElem? hc
          rw [length_append, length_singleton] at hlt
          omega
        rw [getElem?_append_right le_rfl, Nat.sub_self] at hc
        cases hc
        cases a with
        | nil => cases hca
        | cons j a =>
          obtain ⟨c, hc, hca⟩ := Option.bind_eq_some_iff.mp hca
          have hc' : (var d).walked[j]? = some c := hw ▸ hc
          exact below hc' hca (by simp [hp])

/-- All of what is at and below `b` stands before `a`. -/
def EndsBefore (b a : List Nat) : Prop := b < a ∧ ¬ b <+: a

lemma endsBefore_iff (ha : n.at? a = some c) (hb : n.at? b = some m) :
    EndsBefore b a ↔ b ++ [m.children.length] < a := by
  constructor
  · rintro ⟨hlt, hp⟩
    exact append_lt_of_lt hlt hp _
  · intro hlt
    refine ⟨List.lt_trans ?_ hlt, ?_⟩
    · simpa using (Program.append_lt_append_iff b).mpr (nil_lt_cons m.children.length [])
    · rintro ⟨d, rfl⟩
      have hlt := (Program.append_lt_append_iff b).mp hlt
      cases d with
      | nil => cases hlt
      | cons i d =>
        -- The place goes through a child of the node.
        rw [at?_append, hb, Option.bind_some] at ha
        obtain ⟨k, hk, -⟩ := Option.bind_eq_some_iff.mp ha
        have hi := lt_of_getElem? hk
        rcases cons_lt_cons_iff.mp hlt with hlt | ⟨rfl, -⟩
        · exact Nat.lt_asymm hi hlt
        · exact Nat.lt_irrefl _ hi

lemma exists_of_declare_mem {device} (h : (a, .declare symbol device l args) ∈ n.placedUses) :
    ∃ b d, n.at? b = some (var d) ∧ d.symbol = symbol ∧
      d.device? = some (device, l, args) ∧ a = b ++ [(var d).children.length] := by
  obtain ⟨b, m, hm, ⟨hu, -⟩ | ⟨hu, rfl⟩⟩ := exists_of_mem_placedUses h
  · unfold useBefore at hu
    split at hu <;> simp at hu
  · unfold useAfter at hu
    split at hu
    case h_1 d =>
      split at hu
      case h_1 hd =>
        obtain ⟨rfl, rfl, rfl, rfl⟩ : symbol = d.symbol ∧ _ := by simpa using hu
        exact ⟨b, d, hm, rfl, hd, rfl⟩
      case h_2 => cases hu
    case h_2 => cases hu

/-- The use declares a device only for a variable at a place with this property. -/
def DeclaredAt (n : Node) (P : List Nat → Prop) (u : DeviceUse) : Prop :=
  ∀ symbol device l args, u = .declare symbol device l args → ∃ b d, n.at? b = some (var d) ∧ d.symbol = symbol ∧ P b

lemma declaredAt_of_mem (h : (b, u) ∈ n.placedUses) (ha : n.at? a = some c) :
    (b < a → n.DeclaredAt (EndsBefore · a) u) ∧ (a < b → n.DeclaredAt (¬ EndsBefore · a) u) := by
  refine ⟨fun hlt symbol device l args hu => ?_, fun hlt symbol device l args hu => ?_⟩
  · subst hu
    obtain ⟨b', d, hd, hs, -, rfl⟩ := exists_of_declare_mem h
    exact ⟨b', d, hd, hs, (endsBefore_iff ha hd).mpr hlt⟩
  · subst hu
    obtain ⟨b', d, hd, hs, -, rfl⟩ := exists_of_declare_mem h
    exact ⟨b', d, hd, hs, fun he => List.lt_asymm hlt ((endsBefore_iff ha hd).mp he)⟩

lemma uses_split (h : n.at? a = some (expr (.call l (.member lm object method symbol) args)))
    (ha : ¬ n.InDeviceRange a) : ∃ earlier later, n.uses = earlier ++ .call lm object method args.length :: later ∧
      (∀ u ∈ earlier, n.DeclaredAt (EndsBefore · a) u) ∧ ∀ u ∈ later, n.DeclaredAt (¬ EndsBefore · a) u := by
  obtain ⟨before, after, he, hbefore, hafter⟩ := exists_split_of_pairwise n.pairwise_placedUses
    (call_mem_placedUses h ha)
  have mem {x : List Nat × DeviceUse} (hx : x ∈ before ∨ x ∈ after) : x ∈ n.placedUses := by
    rw [he]
    exact mem_append.mpr (hx.imp_right (mem_cons_of_mem _))
  refine ⟨before.map (·.2), after.map (·.2), ?_, ?_, ?_⟩
  · rw [← map_placedUses, he]
    simp
  · rw [forall_mem_map]
    exact fun x hx => (declaredAt_of_mem (mem (.inl hx)) h).1 (hbefore x hx)
  · rw [forall_mem_map]
    exact fun x hx => (declaredAt_of_mem (mem (.inr hx)) h).2 (hafter x hx)

end Node

end SketchCompiler
