import SketchCompiler.Proofs.Scoping
import SketchCompiler.Sketch.Program

namespace SketchCompiler

open List Node

variable {a : List Nat} {α β : Type} {j n : Nat} {items : List Item} {x : List Nat × Role}

/-- What an item is written for: the two ends of its namespace, its type, its prototype, its code, or the bodies of its
methods. The gap behind the prototypes belongs to no item. -/
inductive Role where
  | opening | types | prototypes | gap | code | methods | closing
deriving DecidableEq, Repr

structure SketchPiece where
  place : List Nat
  role : Role
  lines : List Line

def SketchPiece.key (x : SketchPiece) : List Nat × Role := (x.place, x.role)

def SketchPiece.below (j : Nat) (x : SketchPiece) : SketchPiece := { x with place := j :: 0 :: x.place }

variable (k : Scene) (path : List String) (root : Bool)

def Item.roleLines : Role → Item → Emit (List Line)
  | .opening, .module _ aliasName _ _ _ => return [.code 0 s!"namespace {aliasName.text} \x7b", .blank]
  | .closing, .module _ aliasName _ _ _ => return [.code 0 s!"\x7d // namespace {aliasName.text}", .blank]
  | .types, i => return i.typeLines k
  | .prototypes, i => return i.prototypeLines
  | .code, i => i.lines k path root
  | .methods, i => i.methodLines k
  | _, _ => return []

/-- A piece for each item, from item `j` on. -/
def itemPieces (role : Role) (j : Nat) : List Item → Emit (List SketchPiece)
  | [] => return []
  | i :: is => return ⟨[j], role, ← i.roleLines k path root role⟩ :: (← itemPieces role (j + 1) is)

def unitPieces (items : List Item) : Emit (List SketchPiece) := do
  let types ← itemPieces k path root .types 0 items
  let prototypes ← itemPieces k path root .prototypes 0 items
  let gap := if (items.flatMap (·.prototypeLines)).isEmpty then [] else [Line.blank]
  let code ← itemPieces k path root .code 0 items
  let methods ← itemPieces k path root .methods 0 items
  return types ++ prototypes ++ ⟨[], .gap, gap⟩ :: code ++ methods

mutual

def Item.modulePieces (path : List String) (j : Nat) : Item → Emit (List SketchPiece)
  | .module _ aliasName _ _ program => do
    let pieces ← program.pieces (path ++ [aliasName.text]) false
    return ⟨[j], .opening, [.code 0 s!"namespace {aliasName.text} \x7b", .blank]⟩ :: pieces.map (·.below j) ++
      [⟨[j], .closing, [.code 0 s!"\x7d // namespace {aliasName.text}", .blank]⟩]
  | _ => return []

def modulePieces (path : List String) (j : Nat) : List Item → Emit (List SketchPiece)
  | [] => return []
  | i :: is => return (← i.modulePieces path j) ++ (← modulePieces path (j + 1) is)

def Program.pieces (path : List String) (root : Bool) : Program → Emit (List SketchPiece)
  | ⟨_, _, items⟩ => return (← modulePieces path 0 items) ++ (← unitPieces k path root items)

end

def Program.sketchPieces (p : Program) : List SketchPiece :=
  ((do
    if let some baud := k.config.uart then Emit.defer s!"Serial.begin({baud});"
    p.pieces k [] true : Emit (List SketchPiece)).run {}).1

namespace Emit

/-- The first step writes the lines of the second, in pieces. -/
def Cuts (m : Emit (List SketchPiece)) (m' : Emit (List Line)) : Prop := (fun xs => xs.flatMap (·.lines)) <$> m = m'

lemma Cuts.append {m n} {m' n'} (hm : Cuts m m') (hn : Cuts n n') :
    Cuts (do return (← m) ++ (← n)) (do return (← m') ++ (← n')) := by
  unfold Cuts at hm hn ⊢
  subst hm hn
  simp only [map_eq_pure_bind, bind_assoc, pure_bind, flatMap_append]

lemma cuts_itemPieces (role : Role) (j : Nat) (items : List Item) :
    Cuts (itemPieces k path root role j items) (List.flatten <$> items.mapM (·.roleLines k path root role)) := by
  unfold Cuts
  induction items generalizing j with
  | nil => rfl
  | cons i is ih =>
    have hrest := congrArg (fun m => i.roleLines k path root role >>= fun ls => (ls ++ ·) <$> m) (ih (j + 1))
    rw [itemPieces, mapM_cons]
    simpa only [map_eq_pure_bind, bind_assoc, pure_bind, flatMap_cons, flatten_cons] using hrest

lemma cuts_unitPieces (items : List Item) :
    Cuts (unitPieces k path root items) (unitLines k path root items) := by
  have hpieces := (cuts_itemPieces k path root · 0 items)
  unfold Cuts at *
  let gap := if (items.flatMap (·.prototypeLines)).isEmpty then [] else [Line.blank]
  calc
    _ = (do
          let types ← (List.flatMap (·.lines)) <$> itemPieces k path root .types 0 items
          let prototypes ← (List.flatMap (·.lines)) <$> itemPieces k path root .prototypes 0 items
          let code ← (List.flatMap (·.lines)) <$> itemPieces k path root .code 0 items
          let methods ← (List.flatMap (·.lines)) <$> itemPieces k path root .methods 0 items
          return types ++ prototypes ++ gap ++ code ++ methods) := by
        simp only [unitPieces, map_eq_pure_bind, bind_assoc, pure_bind, flatMap_append, flatMap_cons, gap, append_assoc]
    _ = _ := by
        rw [hpieces .types, hpieces .prototypes, hpieces .code, hpieces .methods]
        simp only [Item.roleLines, unitLines, mapM_pure, map_eq_pure_bind, bind_assoc, pure_bind, flatMap_def, gap]

end Emit

open Emit

mutual

lemma Item.cuts_modulePieces (path : List String) (j : Nat) (i : Item) :
    Cuts (i.modulePieces k path j) (i.moduleLines k path) := by
  cases i with
  | module l aliasName p symbol program =>
    have h := program.cuts_pieces (path ++ [aliasName.text]) false
    unfold Cuts at h
    rw [Item.modulePieces, Item.moduleLines, ← h]
    simp only [Cuts, map_eq_pure_bind, bind_assoc, pure_bind]
    simp [flatMap_map, SketchPiece.below]
  | _ => exact map_pure _ _

lemma cuts_modulePieces (path : List String) (j : Nat) (items : List Item) :
    Cuts (modulePieces k path j items) (moduleLines k path items) := by
  cases items with
  | nil => exact map_pure _ _
  | cons i is => exact (i.cuts_modulePieces path j).append (cuts_modulePieces path (j + 1) is)

lemma Program.cuts_pieces (path : List String) (root : Bool) (p : Program) :
    Cuts (p.pieces k path root) (p.lines k path root) := by
  obtain ⟨_, _, items⟩ := p
  exact (cuts_modulePieces path 0 items).append (cuts_unitPieces k path root items)

end

/-- The keys of the pieces that `n` items have in one role. -/
def roleKeys (n : Nat) (role : Role) : List (List Nat × Role) := (List.range' 0 n).map (([·], role))

def unitKeys (n : Nat) : List (List Nat × Role) :=
  roleKeys n .types ++ (roleKeys n .prototypes ++ ([], .gap) :: (roleKeys n .code ++ roleKeys n .methods))

mutual

def Item.moduleKeys (j : Nat) : Item → List (List Nat × Role)
  | .module _ _ _ _ program =>
    ([j], .opening) :: program.keys.map (fun x => (j :: 0 :: x.1, x.2)) ++ [([j], .closing)]
  | _ => []

def moduleKeys (j : Nat) : List Item → List (List Nat × Role)
  | [] => []
  | i :: is => i.moduleKeys j ++ moduleKeys (j + 1) is

def Program.keys : Program → List (List Nat × Role)
  | ⟨_, _, items⟩ => moduleKeys 0 items ++ unitKeys items.length

end

namespace Program

/-- Writes the piece with the given key, for a unit below the aliases `path`. -/
def writes (p : Program) (x : List Nat × Role) : Emit (List Line) :=
  match (unit p).at? x.1 with
  | some (.item i) => i.roleLines k (path ++ p.aliasesTo x.1) (root && x.1.length = 1) x.2
  | some (.unit u) => return if (u.items.flatMap (·.prototypeLines)).isEmpty then [] else [Line.blank]
  | _ => return []

def writePiece (p : Program) (x : List Nat × Role) : Emit SketchPiece :=
  return ⟨x.1, x.2, ← p.writes k path root x⟩

section

variable {k : Scene} {p q : Program} {path : List String} {root : Bool} {i : Item} {j : Nat} {r : Role}

lemma writes_item (h : (unit p).at? a = some (.item i)) :
    p.writes k path root (a, r) = i.roleLines k (path ++ p.aliasesTo a) (root && a.length = 1) r := by
  simp [writes, h]

lemma at?_of_items (h : p.items[j]? = some i) : (unit p).at? [j] = some (.item i) := by
  simp [at?, children, h]

lemma writes_own (h : p.items[j]? = some i) : p.writes k path root ([j], r) = i.roleLines k path root r := by
  rw [writes_item (at?_of_items h)]
  simp [aliasesTo]

variable {l : Location} {aliasName : Name} {file : String} {symbol : Option SymbolId}

lemma writePiece_below (h : p.items[j]? = some (.module l aliasName file symbol q)) (x : List Nat × Role) :
    p.writePiece k path root (j :: 0 :: x.1, x.2) =
      (·.below j) <$> q.writePiece k (path ++ [aliasName.text]) false x := by
  have hat : (unit p).at? (j :: 0 :: x.1) = (unit q).at? x.1 := by
    simp [at?, children, h]
  have hwrites : p.writes k path root (j :: 0 :: x.1, x.2) = q.writes k (path ++ [aliasName.text]) false x := by
    simp [writes, hat, aliasesTo_below h]
  simp only [writePiece, hwrites, map_eq_pure_bind, bind_assoc, pure_bind]
  rfl

end

end Program

lemma run_mapM_cons {σ : Type} (f : α → StateM σ β) (a : α) (as : List α) (s : σ) : ((a :: as).mapM f).run s =
    (((f a).run s).1 :: ((as.mapM f).run ((f a).run s).2).1, ((as.mapM f).run ((f a).run s).2).2) := by
  rw [mapM_cons]
  rfl

lemma mapM_comp_map {γ : Type} (f : α → Emit β) (g : β → γ) (as : List α) :
    as.mapM (fun a => g <$> f a) = List.map g <$> as.mapM f := by
  induction as with
  | nil => rfl
  | cons a as ih =>
    rw [mapM_cons, ih, mapM_cons]
    simp only [map_eq_pure_bind, bind_assoc, pure_bind, map_cons]

lemma exists_of_mem_mapM {f : α → Emit β} {as : List α} {s} {b : β} (h : b ∈ ((as.mapM f).run s).1) :
    ∃ a ∈ as, ∃ s', b = ((f a).run s').1 := by
  induction as generalizing s with
  | nil => cases h
  | cons a as ih =>
    rw [mapM_cons] at h
    rcases mem_cons.mp h with rfl | h
    · exact ⟨a, mem_cons_self, s, rfl⟩
    · obtain ⟨a', ha', s', rfl⟩ := ih h
      exact ⟨a', mem_cons_of_mem a ha', s', rfl⟩

lemma of_drop_eq_cons {as : List α} {a} {bs} (h : as.drop j = a :: bs) : as[j]? = some a ∧ as.drop (j + 1) = bs := by
  rw [← head?_drop, ← tail_drop, h]
  exact ⟨rfl, rfl⟩

lemma itemPieces_eq {k} {p : Program} {path} {root : Bool} {r}
    (h : p.items.drop j = items) : itemPieces k path root r j items =
      ((List.range' j items.length).map (([·], r))).mapM (p.writePiece k path root) := by
  induction items generalizing j with
  | nil => rfl
  | cons i is ih =>
    obtain ⟨hi, his⟩ := of_drop_eq_cons h
    rw [itemPieces, ih his, length_cons, List.range'_succ, map_cons, mapM_cons, Program.writePiece,
      Program.writes_own hi]
    simp only [bind_assoc, pure_bind]

lemma unitPieces_eq (k : Scene) (p : Program) (path : List String) (root : Bool) :
    unitPieces k path root p.items = (unitKeys p.items.length).mapM (p.writePiece k path root) := by
  have hrole (r : Role) : itemPieces k path root r 0 p.items =
      (roleKeys p.items.length r).mapM (p.writePiece k path root) := itemPieces_eq rfl
  simp only [unitPieces, unitKeys, hrole, mapM_append, mapM_cons, bind_assoc, pure_bind, append_assoc, cons_append]
  rfl

mutual

lemma Item.modulePieces_eq (k : Scene) (path : List String) (root : Bool) {p : Program} {j : Nat} (i : Item)
    (hi : p.items[j]? = some i) : i.modulePieces k path j = (i.moduleKeys j).mapM (p.writePiece k path root) := by
  cases i with
  | module l aliasName file symbol program =>
    have hinner : (program.keys.map fun x => (j :: 0 :: x.1, x.2)).mapM (p.writePiece k path root) =
        List.map (·.below j) <$> program.pieces k (path ++ [aliasName.text]) false := by
      rw [program.pieces_eq, ← mapM_comp_map, List.mapM_map]
      exact congrArg (program.keys.mapM ·) (funext (Program.writePiece_below hi))
    have hend (r : Role) : p.writePiece k path root ([j], r) = (do
        return ⟨[j], r, ← (Item.module l aliasName file symbol program).roleLines k path root r⟩) := by
      rw [Program.writePiece, Program.writes_own hi]
    rw [Item.modulePieces, Item.moduleKeys, cons_append, mapM_cons, mapM_append, hinner, hend,
      mapM_cons, hend, mapM_nil]
    simp only [Item.roleLines, map_eq_pure_bind, bind_assoc, pure_bind, cons_append]
  | _ => rfl

lemma modulePieces_eq (k : Scene) (path : List String) (root : Bool) {p : Program} {j : Nat} (items : List Item)
    (h : p.items.drop j = items) :
    modulePieces k path j items = (moduleKeys j items).mapM (p.writePiece k path root) := by
  cases items with
  | nil => rfl
  | cons i is =>
    obtain ⟨hi, his⟩ := of_drop_eq_cons h
    rw [modulePieces, moduleKeys, mapM_append, i.modulePieces_eq k path root hi, modulePieces_eq k path root is his]

lemma Program.pieces_eq (k : Scene) (path : List String) (root : Bool) (p : Program) :
    p.pieces k path root = p.keys.mapM (p.writePiece k path root) := by
  obtain ⟨name, mainMark, items⟩ := p
  rw [Program.pieces, Program.keys, mapM_append,
    modulePieces_eq k path root (p := ⟨name, mainMark, items⟩) items rfl,
    ← unitPieces_eq k ⟨name, mainMark, items⟩ path root]

end

def Scene.start : Emission where
  setup := match k.config.uart with
    | some baud => [.line s!"Serial.begin({baud});"]
    | none => []

lemma mem_moduleKeys : x ∈ moduleKeys j items ↔ ∃ (m : Nat) (i : Item), items[m]? = some i ∧ x ∈ i.moduleKeys
    (j + m) := by
  induction items generalizing j with
  | nil => simp [moduleKeys]
  | cons i is ih =>
    rw [moduleKeys, mem_append, ih]
    constructor
    · rintro (hx | ⟨m, i', hm, hx⟩)
      · exact ⟨0, i, rfl, hx⟩
      · exact ⟨m + 1, i', hm, by rwa [Nat.add_assoc, Nat.add_comm 1 m] at hx⟩
    · rintro ⟨m, i', hm, hx⟩
      cases m with
      | zero =>
        cases hm
        exact .inl hx
      | succ m => exact .inr ⟨m, i', hm, by rwa [Nat.add_assoc, Nat.add_comm 1 m]⟩

/-- Each item has a piece in this role. -/
def Role.isCommon : Role → Bool
  | types | prototypes | code | methods => true
  | opening | gap | closing => false

lemma mem_unitKeys : x ∈ unitKeys n ↔ x = ([], .gap) ∨ ∃ j r, j < n ∧ Role.isCommon r ∧ x = ([j], r) := by
  have hrole (r : Role) : x ∈ roleKeys n r ↔ ∃ j, j < n ∧ x = ([j], r) := by
    simp [roleKeys, mem_range', eq_comm]
  simp only [unitKeys, mem_append, mem_cons, hrole]
  constructor
  · rintro (⟨j, hj, rfl⟩ | ⟨j, hj, rfl⟩ | rfl | ⟨j, hj, rfl⟩ | ⟨j, hj, rfl⟩)
    case inr.inr.inl => exact .inl rfl
    all_goals exact .inr ⟨j, _, hj, rfl, rfl⟩
  · rintro (rfl | ⟨j, r, hj, hr, rfl⟩)
    · exact .inr (.inr (.inl rfl))
    · cases r with
      | types => exact .inl ⟨j, hj, rfl⟩
      | prototypes => exact .inr (.inl ⟨j, hj, rfl⟩)
      | code => exact .inr (.inr (.inr (.inl ⟨j, hj, rfl⟩)))
      | methods => exact .inr (.inr (.inr (.inr ⟨j, hj, rfl⟩)))
      | _ => cases hr

namespace Program

variable {k : Scene} {p : Program} {xs ys : List (List Nat × Role)} {x : List Nat × Role}

/-- The state once the pieces with the given keys are written. -/
def stateAfter (k : Scene) (p : Program) (xs : List (List Nat × Role)) : Emission :=
  ((xs.mapM (p.writePiece k [] true)).run k.start).2

lemma stateAfter_concat : p.stateAfter k (xs ++ [x]) = ((p.writes k [] true x).run (p.stateAfter k xs)).2 := by
  rw [stateAfter, mapM_append]
  rfl

lemma sketchPieces_eq (k : Scene) (p : Program) :
    p.sketchPieces k = ((p.keys.mapM (p.writePiece k [] true)).run k.start).1 := by
  rw [← p.pieces_eq k [] true]
  unfold sketchPieces Scene.start
  cases k.config.uart <;> rfl

lemma sketchPieces_split (k : Scene) (h : p.keys = xs ++ x :: ys) : ∃ zs ws, p.sketchPieces k =
    zs ++ ⟨x.1, x.2, ((p.writes k [] true x).run (p.stateAfter k xs)).1⟩ :: ws := by
  rw [sketchPieces_eq, h, mapM_append, mapM_cons]
  exact ⟨_, _, rfl⟩

lemma keys_sketchPieces (k : Scene) (p : Program) : (p.sketchPieces k).map SketchPiece.key = p.keys := by
  rw [sketchPieces_eq]
  generalize k.start = s
  induction p.keys generalizing s with
  | nil => rfl
  | cons x xs ih =>
    rw [mapM_cons]
    exact congrArg (x :: ·) (ih _)

lemma lines_of_mem_sketchPieces {x : SketchPiece} (h : x ∈ p.sketchPieces k) :
    ∃ s, x.lines = ((p.writes k [] true x.key).run s).1 := by
  rw [sketchPieces_eq] at h
  obtain ⟨y, -, s, rfl⟩ := exists_of_mem_mapM h
  exact ⟨s, rfl⟩

lemma sketchLines_of_state (k : Scene) (p : Program) : ((p.sketchLines k).run {}).1 =
    p.headLines k ++ (p.sketchPieces k).flatMap (·.lines) ++ ((setupLines k).run (p.stateAfter k p.keys)).1 ++
      ((loopLines k).run ((setupLines k).run (p.stateAfter k p.keys)).2).1 := by
  have h := p.cuts_pieces k [] true
  unfold Cuts at h
  unfold sketchLines
  rw [stateAfter, sketchPieces_eq, ← p.pieces_eq k [] true, ← h]
  unfold Scene.start
  cases k.config.uart <;> rfl

lemma item_of_mem_keys {p : Program} {a : List Nat} {r} (h : (a, r) ∈ p.keys) (hr : r ≠ .gap) :
    ∃ i, (unit p).at? a = some (.item i) := by
  obtain ⟨name, mainMark, items⟩ := p
  rcases mem_append.mp h with h | h
  · obtain ⟨m, i, hm, h⟩ := mem_moduleKeys.mp h
    have hplace : (unit ⟨name, mainMark, items⟩).at? [m] = some (.item i) := at?_of_items hm
    cases i with
    | module l aliasName file symbol q =>
      simp only [Item.moduleKeys, cons_append, mem_cons, mem_append, mem_map, not_mem_nil,
        or_false, Nat.zero_add, Prod.mk.injEq] at h
      rcases h with ⟨rfl, -⟩ | ⟨⟨b, r'⟩, hb, rfl, rfl⟩ | ⟨rfl, -⟩
      · exact ⟨_, hplace⟩
      · obtain ⟨i, hi⟩ := item_of_mem_keys hb hr
        exact ⟨i, by simpa [at?, children, hm] using hi⟩
      · exact ⟨_, hplace⟩
    | _ => cases h
  · rcases mem_unitKeys.mp h with hx | ⟨j, r', hj, -, hx⟩
    · exact absurd (Prod.mk.inj hx).2 hr
    · obtain ⟨rfl, -⟩ := Prod.mk.inj hx
      exact ⟨_, at?_of_items (getElem?_eq_getElem hj)⟩
termination_by a.length

end Program

/-- The piece holds what the item at its place writes in its role. The root flag is on only for items of `p` itself. -/
def SketchPiece.WrittenBy (k : Scene) (p : Program) (root : Bool) (x : SketchPiece) : Prop :=
  x.role ≠ .gap → ∃ i path s, (unit p).at? x.place = some (.item i) ∧
    x.lines = ((i.roleLines k path (root && x.place.length = 1) x.role).run s).1

/-- The sketch is its head, the pieces, `setup()` and `loop()`, and each piece is what its item writes in its role. -/
structure Program.CutInto (k : Scene) (p : Program) (xs : List SketchPiece) : Prop where
  text : ∃ s, p.sketch k = renderLines (p.headLines k ++ xs.flatMap (·.lines) ++ ((setupLines k).run s).1 ++
    ((loopLines k).run ((setupLines k).run s).2).1)
  written : ∀ x ∈ xs, x.WrittenBy k p true

lemma Program.cutInto_sketchPieces (k : Scene) (p : Program) : p.CutInto k (p.sketchPieces k) where
  text := ⟨p.stateAfter k p.keys, congrArg renderLines (p.sketchLines_of_state k)⟩
  written := by
    intro x hx hrole
    have hkey : x.key ∈ p.keys := p.keys_sketchPieces k ▸ mem_map_of_mem hx
    obtain ⟨i, hi⟩ := item_of_mem_keys hkey hrole
    obtain ⟨s, hs⟩ := lines_of_mem_sketchPieces hx
    rw [SketchPiece.key, writes_item hi] at hs
    exact ⟨i, _, s, hi, hs⟩

namespace Role

/-- The part of its unit that a piece belongs to; the first one are the modules. -/
def stage : Role → Nat
  | opening | closing => 0
  | types => 1
  | prototypes => 2
  | gap => 3
  | code => 4
  | methods => 5

/-- The rank of a piece, by which pieces are ordered like words in a dictionary. -/
def rank (r : Role) : List Nat → List Nat
  | [] => [r.stage]
  | [j] =>
    match r with
    | opening => [0, j, 0]
    | closing => [0, j, 2]
    | r => [r.stage, j]
  | j :: _ :: a => 0 :: j :: 1 :: r.rank a

lemma rank_of_isCommon {r : Role} (hr : r.isCommon) (j : Nat) : r.rank [j] = [r.stage, j] := by
  cases r <;> first | rfl | cases hr

lemma stage_pos {r : Role} (hr : r.isCommon) : 0 < r.stage := by
  cases r <;> first | decide | cases hr

end Role

/-- The key with the lower rank comes first. -/
def KeyLT (x y : List Nat × Role) : Prop := x.2.rank x.1 < y.2.rank y.1

lemma keyLT_of_head {y : List Nat × Role} {m : Nat} {c d : List Nat} (hx : x.2.rank x.1 = m :: c)
    (hy : y.2.rank y.1 = n :: d) (h : m < n) : KeyLT x y := by
  rw [KeyLT, hx, hy]
  exact cons_lt_cons_iff.mpr (.inl h)

section UnitKeys

variable {n : Nat} {r : Role} {x : List Nat × Role}

lemma rank_of_mem_roleKeys (hr : r.isCommon) (hx : x ∈ roleKeys n r) : ∃ j, x.2.rank x.1 = [r.stage, j] := by
  obtain ⟨j, -, rfl⟩ := mem_map.mp hx
  exact ⟨j, Role.rank_of_isCommon hr j⟩

lemma pairwise_roleKeys (hr : r.isCommon) : (roleKeys n r).Pairwise KeyLT := by
  refine pairwise_map.mpr (List.Pairwise.imp (fun {i j} hij => ?_) pairwise_lt_range')
  rw [KeyLT, Role.rank_of_isCommon hr, Role.rank_of_isCommon hr]
  simpa [cons_lt_cons_iff] using hij

lemma pairwise_unitKeys (n : Nat) : (unitKeys n).Pairwise KeyLT := by
  have cross {r r' : Role} (h : r.isCommon ∧ r'.isCommon ∧ r.stage < r'.stage) {x y : List Nat × Role}
      (hx : x ∈ roleKeys n r) (hy : y ∈ roleKeys n r') : KeyLT x y := by
    obtain ⟨i, hi⟩ := rank_of_mem_roleKeys h.1 hx
    obtain ⟨j, hj⟩ := rank_of_mem_roleKeys h.2.1 hy
    exact keyLT_of_head hi hj h.2.2
  have before {r : Role} (h : r.isCommon ∧ r.stage < 3) {x : List Nat × Role} (hx : x ∈ roleKeys n r) :
      KeyLT x ([], .gap) := by
    obtain ⟨i, hi⟩ := rank_of_mem_roleKeys h.1 hx
    exact keyLT_of_head hi rfl h.2
  have behind {r : Role} (h : r.isCommon ∧ 3 < r.stage) {y : List Nat × Role} (hy : y ∈ roleKeys n r) :
      KeyLT ([], .gap) y := by
    obtain ⟨j, hj⟩ := rank_of_mem_roleKeys h.1 hy
    exact keyLT_of_head rfl hj h.2
  simp only [unitKeys, pairwise_append, pairwise_cons, mem_append, mem_cons]
  refine ⟨pairwise_roleKeys rfl, ⟨pairwise_roleKeys rfl, ⟨?_, pairwise_roleKeys rfl, pairwise_roleKeys rfl, ?_⟩, ?_⟩,
    ?_⟩
  · rintro y (hy | hy)
    · exact behind (by decide) hy
    · exact behind (by decide) hy
  · exact fun x hx y hy => cross (by decide) hx hy
  · rintro x hx y (rfl | hy | hy)
    · exact before (by decide) hx
    · exact cross (by decide) hx hy
    · exact cross (by decide) hx hy
  · rintro x hx y (hy | rfl | hy | hy)
    · exact cross (by decide) hx hy
    · exact before (by decide) hx
    · exact cross (by decide) hx hy
    · exact cross (by decide) hx hy

lemma rank_of_mem_unitKeys (hx : x ∈ unitKeys n) : ∃ m c, 0 < m ∧ x.2.rank x.1 = m :: c := by
  rcases mem_unitKeys.mp hx with rfl | ⟨j, r, -, hr, rfl⟩
  · exact ⟨3, [], by decide, rfl⟩
  · exact ⟨r.stage, [j], Role.stage_pos hr, Role.rank_of_isCommon hr j⟩

end UnitKeys

lemma rank_of_mem_moduleKeys {i : Item} (hx : x ∈ i.moduleKeys j) : ∃ c, x.2.rank x.1 = 0 :: j :: c := by
  cases i with
  | module l aliasName path symbol program =>
    simp only [Item.moduleKeys, cons_append, mem_cons, mem_append, mem_map, not_mem_nil, or_false] at hx
    rcases hx with rfl | ⟨y, -, rfl⟩ | rfl
    · exact ⟨[0], rfl⟩
    · exact ⟨_, rfl⟩
    · exact ⟨[2], rfl⟩
  | _ => cases hx

lemma rank_of_mem_modulesKeys (hx : x ∈ moduleKeys j items) : ∃ i c, j ≤ i ∧ x.2.rank x.1 = 0 :: i :: c := by
  obtain ⟨m, i, -, hx⟩ := mem_moduleKeys.mp hx
  obtain ⟨c, hc⟩ := rank_of_mem_moduleKeys hx
  exact ⟨j + m, c, Nat.le_add_right j m, hc⟩

mutual

lemma Item.pairwise_moduleKeys (j : Nat) (i : Item) : (i.moduleKeys j).Pairwise KeyLT := by
  cases i with
  | module l aliasName path symbol program =>
    have hinside : (program.keys.map fun x => (j :: 0 :: x.1, x.2)).Pairwise KeyLT := by
      refine pairwise_map.mpr (program.pairwise_keys.imp fun h => ?_)
      simpa [KeyLT, Role.rank] using h
    rw [Item.moduleKeys, cons_append, pairwise_cons]
    refine ⟨?_, pairwise_append.mpr ⟨hinside, pairwise_singleton _ _, ?_⟩⟩
    · intro y hy
      rcases mem_append.mp hy with hy | hy
      · obtain ⟨x, -, rfl⟩ := mem_map.mp hy
        simp [KeyLT, Role.rank, cons_lt_cons_iff]
      · rw [mem_singleton.mp hy]
        simp [KeyLT, Role.rank, cons_lt_cons_iff]
    · intro x hx y hy
      obtain ⟨z, -, rfl⟩ := mem_map.mp hx
      rw [mem_singleton.mp hy]
      simp [KeyLT, Role.rank, cons_lt_cons_iff]
  | _ => exact .nil

lemma pairwise_moduleKeys (j : Nat) (items : List Item) : (moduleKeys j items).Pairwise KeyLT := by
  cases items with
  | nil => exact .nil
  | cons i is =>
    refine pairwise_append.mpr ⟨i.pairwise_moduleKeys j, pairwise_moduleKeys (j + 1) is, fun x hx y hy => ?_⟩
    obtain ⟨c, hc⟩ := rank_of_mem_moduleKeys hx
    obtain ⟨i', d, hi', hd⟩ := rank_of_mem_modulesKeys hy
    rw [KeyLT, hc, hd]
    exact cons_lt_cons_iff.mpr (.inr ⟨rfl, cons_lt_cons_iff.mpr (.inl hi')⟩)

lemma Program.pairwise_keys (p : Program) : p.keys.Pairwise KeyLT := by
  obtain ⟨_, _, items⟩ := p
  refine pairwise_append.mpr ⟨pairwise_moduleKeys 0 items, pairwise_unitKeys items.length, fun x hx y hy => ?_⟩
  obtain ⟨i, c, -, hc⟩ := rank_of_mem_modulesKeys hx
  obtain ⟨m, d, hm, hd⟩ := rank_of_mem_unitKeys hy
  exact keyLT_of_head hc hd hm

end

/-- Both pieces are in the sketch, and that with the key `x` comes first. -/
def Program.Precedes (k : Scene) (p : Program) (x y : List Nat × Role) : Prop :=
  ∃ a b, [a, b].Sublist (p.sketchPieces k) ∧ a.key = x ∧ b.key = y

lemma pair_sublist_or {l : List α} {x y : α} (hx : x ∈ l) (hy : y ∈ l) (hne : x ≠ y) :
    [x, y].Sublist l ∨ [y, x].Sublist l := by
  induction l with
  | nil => cases hx
  | cons z l ih =>
    rcases mem_cons.mp hx with rfl | hxl
    · have hyl := (mem_cons.mp hy).resolve_left hne.symm
      exact .inl ((singleton_sublist.mpr hyl).cons_cons x)
    · rcases mem_cons.mp hy with rfl | hyl
      · exact .inr ((singleton_sublist.mpr hxl).cons_cons y)
      · exact (ih hxl hyl).imp (.cons z) (.cons z)

namespace Program

variable {k : Scene} {p : Program} {x y : List Nat × Role}

lemma precedes_iff_sublist : p.Precedes k x y ↔ [x, y].Sublist p.keys := by
  rw [← p.keys_sketchPieces k, sublist_map_iff]
  constructor
  · rintro ⟨a, b, hab, rfl, rfl⟩
    exact ⟨[a, b], hab, rfl⟩
  · rintro ⟨l, hl, hkeys⟩
    match l, hkeys with
    | [a, b], hkeys =>
      simp only [map_cons, map_nil, List.cons.injEq, and_true] at hkeys
      exact ⟨a, b, hl, hkeys.1.symm, hkeys.2.symm⟩

lemma precedes_iff_keyLT (hx : x ∈ p.keys) (hy : y ∈ p.keys) : p.Precedes k x y ↔ KeyLT x y := by
  have hsorted {x y : List Nat × Role} (h : [x, y].Sublist p.keys) : KeyLT x y :=
    pairwise_iff_forall_sublist.mp p.pairwise_keys h
  rw [precedes_iff_sublist]
  refine ⟨hsorted, fun h => ?_⟩
  have hne : x ≠ y := by
    rintro rfl
    exact absurd h (List.lt_irrefl _)
  refine (pair_sublist_or hx hy hne).resolve_right fun h' => ?_
  exact List.lt_asymm h (hsorted h')

end Program

namespace Role

/-- What an item at the place `b` has in the role `r` comes before what an item at the place `a` has in the role `r'`.
All pieces of a module come before those of the unit around it, and modules come in their order. -/
def Before (r r' : Role) : List Nat → List Nat → Prop
  | i :: _ :: b, j :: _ :: a => i < j ∨ i = j ∧ Before r r' b a
  | _ :: _ :: _, [_] => True
  | [i], [j] => r.stage < r'.stage ∨ r.stage = r'.stage ∧ i < j
  | [i], j :: _ :: _ => r = .opening ∧ i ≤ j
  | _, _ => False

instance decidableBefore (r r' : Role) : (b a : List Nat) → Decidable (r.Before r' b a)
  | i :: _ :: b, j :: _ :: a =>
    have := decidableBefore r r' b a
    inferInstanceAs (Decidable (i < j ∨ i = j ∧ r.Before r' b a))
  | _ :: _ :: _, [_] => .isTrue trivial
  | [i], [j] => inferInstanceAs (Decidable (r.stage < r'.stage ∨ r.stage = r'.stage ∧ i < j))
  | [i], j :: _ :: _ => inferInstanceAs (Decidable (r = .opening ∧ i ≤ j))
  | [], _ => .isFalse (by simp [Before])
  | _ :: _, [] => .isFalse (by simp [Before])

/-- The item has a piece in this role, and its namespace does not count by its end. -/
def Suits (r : Role) (i : Item) : Prop :=
  r.isCommon ∨ r = opening ∧ ∃ l aliasName path symbol p, i = .module l aliasName path symbol p

end Role

namespace Program

lemma mem_keys {p : Program} {a : List Nat} {i} {r : Role} (h : (unit p).at? a = some (.item i))
    (hr : r.Suits i) : (a, r) ∈ p.keys := by
  cases p
  rcases item_at?_cases h with ⟨j, rfl, hj⟩ | ⟨j, b, l, aliasName, path, symbol, q, rfl, hj, hb⟩
  · rcases hr with hr | ⟨rfl, l, aliasName, path, symbol, q, rfl⟩
    · exact mem_append_right _ (mem_unitKeys.mpr (.inr ⟨j, r, lt_of_getElem? hj, hr, rfl⟩))
    · refine mem_append_left _ (mem_moduleKeys.mpr ⟨j, _, hj, ?_⟩)
      rw [Nat.zero_add]
      exact mem_cons_self
  · refine mem_append_left _ (mem_moduleKeys.mpr ⟨j, _, hj, ?_⟩)
    rw [Nat.zero_add]
    exact mem_cons_of_mem _ (mem_append_left _ (mem_map.mpr ⟨(b, r), mem_keys hb hr, rfl⟩))
termination_by a.length

lemma keyLT_iff_before {p} {a b : List Nat} {i i'} {r r' : Role}
    (hb : (unit p).at? b = some (.item i)) (ha : (unit p).at? a = some (.item i')) (hr : r.Suits i)
    (hr' : r'.isCommon) : KeyLT (b, r) (a, r') ↔ r.Before r' b a := by
  have hlast (j : Nat) : r'.rank [j] = [r'.stage, j] := Role.rank_of_isCommon hr' j
  have hpos : 0 < r'.stage := Role.stage_pos hr'
  unfold KeyLT
  rcases item_at?_cases hb with ⟨m, rfl, hm⟩ | ⟨m, b, l, aliasName, path, symbol, q, rfl, hm, hb⟩
  · rcases item_at?_cases ha with ⟨j, rfl, hj⟩ | ⟨j, a, l, aliasName, path, symbol, q, rfl, hj, ha⟩
    · rw [hlast, Role.Before]
      rcases hr with hr | ⟨rfl, -⟩
      · rw [Role.rank_of_isCommon hr]
        simp [cons_lt_cons_iff]
      · exact iff_of_true (cons_lt_cons_iff.mpr (.inl hpos)) (.inl hpos)
    · rw [Role.Before]
      rcases hr with hr | ⟨rfl, -⟩
      · rw [Role.rank_of_isCommon hr, Role.rank]
        have hne : r ≠ .opening := by
          rintro rfl
          cases hr
        have hstage := Role.stage_pos hr
        refine iff_of_false (fun h => ?_) fun h => hne h.1
        rcases cons_lt_cons_iff.mp h with h | ⟨h, -⟩ <;> omega
      · simp only [Role.rank, cons_lt_cons_iff, Nat.lt_irrefl, Nat.zero_lt_one, true_or, and_true, false_or,
          true_and, Nat.le_iff_lt_or_eq]
  · rcases item_at?_cases ha with ⟨j, rfl, hj⟩ | ⟨j, a, l, aliasName, path, symbol, q', rfl, hj, ha⟩
    · rw [hlast, Role.rank, Role.Before]
      exact iff_of_true (cons_lt_cons_iff.mpr (.inl hpos)) trivial
    · simp only [Role.rank, Role.Before, cons_lt_cons_iff, Nat.lt_irrefl, false_or, true_and]
      refine or_congr_right (and_congr_right ?_)
      rintro rfl
      cases hm.symm.trans hj
      exact keyLT_iff_before hb ha hr hr'
termination_by a.length

lemma precedes_iff_before {k} {p : Program} {b : List Nat} {i i'} {r r' : Role}
    (hb : (unit p).at? b = some (.item i)) (ha : (unit p).at? a = some (.item i')) (hr : r.Suits i)
    (hr' : r'.isCommon) : p.Precedes k (b, r) (a, r') ↔ r.Before r' b a :=
  (precedes_iff_keyLT (mem_keys hb hr) (mem_keys ha (.inl hr'))).trans (keyLT_iff_before hb ha hr hr')

lemma exists_piece {p : Program} {i : Item} {r : Role} (k : Scene)
    (h : (unit p).at? a = some (.item i)) (hr : r.Suits i) : ∃ x ∈ p.sketchPieces k, x.key = (a, r) ∧
      ∃ path root s, x.lines = ((i.roleLines k path root r).run s).1 := by
  have hkey : (a, r) ∈ (p.sketchPieces k).map SketchPiece.key := by
    rw [keys_sketchPieces]
    exact mem_keys h hr
  obtain ⟨x, hx, hxkey⟩ := mem_map.mp hkey
  obtain ⟨rfl, rfl⟩ := Prod.mk.inj hxkey
  have hgap : x.role ≠ .gap := by
    intro hgap
    rcases hr with hr | ⟨hr, -⟩ <;> rw [hgap] at hr <;> cases hr
  obtain ⟨i', path, s, hi', hlines⟩ := (p.cutInto_sketchPieces k).written x hx hgap
  cases h.symm.trans hi'
  exact ⟨x, hx, rfl, path, _, s, hlines⟩

end Program

end SketchCompiler
