import SketchCompiler.Proofs.DeclarationOrder
import SketchCompiler.Proofs.FoundMembers
import SketchCompiler.Proofs.SketchBodies

namespace SketchCompiler

open List Node

variable {j : Nat} {l : Location}

namespace ClassDecl

/-- The members as they are written in the class: the name and the line of each. -/
def members (k : Scene) (d : ClassDecl) : List (String × Line) :=
  d.fields.map (fun f => (f.value.name.text, .code 1 (f.value.code k ++ ";"))) ++
    d.methods.map fun m => (m.value.name.text, .code 1 (m.value.signature m.value.name.text ++ ";"))

def memberNames (d : ClassDecl) : List String := d.fields.map (·.value.name.text) ++ d.methods.map (·.value.name.text)

variable {k : Scene} {d : ClassDecl}

lemma map_members (k : Scene) (d : ClassDecl) : (d.members k).map (·.1) = d.memberNames := by
  simp [members, memberNames, Function.comp_def]

lemma memberNames_transform (f : Transform) (d : ClassDecl) : (d.transform f).memberNames = d.memberNames := by
  have hname (x : VarDecl) : (x.transform f).name = x.name := by cases x; rfl
  simp [memberNames, ClassDecl.transform, FunctionDecl.transform, hname, Function.comp_def]

lemma line_mem_lines {m : String × Line} (hm : m ∈ d.members k) : m.2 ∈ d.lines k := by
  rcases mem_append.mp hm with hm | hm
  · obtain ⟨f, hf, rfl⟩ := mem_map.mp hm
    have hline : Line.code 1 (f.value.code k ++ ";") ∈ d.fields.map fun f => Line.code 1 (f.value.code k ++ ";") :=
      mem_map_of_mem hf
    simp only [lines, mem_cons, mem_append]
    exact .inl (.inl (.inl (.inl (.inr (.inr hline)))))
  · obtain ⟨f, hf, rfl⟩ := mem_map.mp hm
    have hline : Line.code 1 (f.value.signature f.value.name.text ++ ";") ∈
        d.methods.map fun m => Line.code 1 (m.value.signature m.value.name.text ++ ";") := mem_map_of_mem hf
    simp only [lines, mem_cons, mem_append]
    exact .inl (.inr hline)

lemma stmt_of_child {n} (hj : d.fields.length ≤ j)
    (hn : (item (.classDecl l d)).children[j]? = some n) : ∃ f ∈ d.callables, ∃ s ∈ f.2, n = .stmt s := by
  rw [children, append_assoc, getElem?_append_right (by simpa using hj)] at hn
  rcases mem_append.mp (mem_of_getElem? hn) with hm | hm
  · cases hc : d.constructor with
    | none => simp [hc, ofConstructor?] at hm
    | some c =>
      rw [hc] at hm
      obtain ⟨s, hs, rfl⟩ := mem_ofBlock.mp hm
      exact ⟨_, mem_append_left _ (mem_map_of_mem (Option.mem_toList.mpr hc)), s, hs, rfl⟩
  · obtain ⟨m, hmethod, hm⟩ := mem_flatMap.mp hm
    obtain ⟨s, hs, rfl⟩ := mem_ofBlock.mp hm
    exact ⟨_, mem_append_right _ (mem_map_of_mem hmethod), s, hs, rfl⟩

end ClassDecl

/-- The class at `b` is written with the lines of its members, and its functions are written outside of it. -/
structure Program.WritesClass (k : Scene) (p : Program) (b : List Nat) (d : ClassDecl) : Prop where
  names : (d.members k).map (·.1) = d.memberNames
  members : ∃ x ∈ p.sketchPieces k, x.key = (b, .types) ∧ ∀ m ∈ d.members k, m.2 ∈ x.lines
  functions : ∃ x ∈ p.sketchPieces k, x.key = (b, .methods) ∧
    ∀ f ∈ d.callables, ∃ s, ((functionLines k f.1 f.2).run s).1 <:+: x.lines

lemma Program.writesClass (k : Scene) {p : Program} {b : List Nat} {d}
    (h : (unit p).at? b = some (.item (.classDecl l d))) : p.WritesClass k b d where
  names := d.map_members k
  members := by
    obtain ⟨x, hx, hkey, path, root, s, hlines⟩ := exists_piece (r := .types) k h (.inl rfl)
    refine ⟨x, hx, hkey, fun m hm => ?_⟩
    rw [hlines]
    exact ClassDecl.line_mem_lines hm
  functions := by
    obtain ⟨x, hx, hkey, path, root, s, hlines⟩ := exists_piece (r := .methods) k h (.inl rfl)
    refine ⟨x, hx, hkey, fun f hf => ?_⟩
    rw [hlines]
    exact ClassDecl.functionLines_infix hf s

/-- Where the target finds a bare name: in a block of the source, among the names around these blocks, or at the top. -/
inductive Found where
  | block | around | top
deriving DecidableEq, Repr

namespace Program

/-- None of the blocks around `a`, but for the outermost, which is that of the unit, has the name in force. -/
def FreeInBlocks (q : Program) (a : List Nat) (name : String) : Prop :=
  ∀ B ∈ (q.blocksAt a).dropLast, ∀ x, q.InForce a B x → x.name.text ≠ name

/-- The target looks for a bare name in the blocks around the place, then among the given names, which it knows around
these blocks, and then at the top. -/
inductive TargetFinds (q : Program) (names : List String) (a : List Nat) (name : String) : Found → Prop
  | block : ¬ q.FreeInBlocks a name → TargetFinds q names a name .block
  | around : q.FreeInBlocks a name → name ∈ names → TargetFinds q names a name .around
  | top : q.FreeInBlocks a name → name ∉ names → TargetFinds q names a name .top

variable {p q q' : Program} {t : SymbolTable} {ranges : RangeTable} {a b : List Nat} {id : SymbolId} {name : String}

lemma targetFinds_iff {names} {found} (h : q.FreeInBlocks a name) :
    q.TargetFinds names a name found ↔ found = if name ∈ names then .around else .top := by
  constructor
  · intro hf
    cases hf with
    | block hb => exact absurd h hb
    | around _ hm => rw [if_pos hm]
    | top _ hm => rw [if_neg hm]
  · rintro rfl
    split
    · exact .around h ‹_›
    · exact .top h ‹_›

lemma Denotes.freeInBlocks {blockOf : ScopeId → Block} (h : q.Denotes t blockOf a name id) (ht : t.Sound)
    (hmain : t.MainScoped) (hs : (t.get id).scope = SymbolTable.root + 1) : q.FreeInBlocks a name := by
  cases h with
  | @declared inside outer x hscopes hfree =>
    obtain ⟨hblocks, hchain⟩ := hscopes
    have houter : outer = [] := by
      cases outer with
      | nil => rfl
      | cons s outer =>
        rw [hs, append_assoc, cons_append] at hchain
        have htail := (isChain_append.mp hchain).2.1
        have hparent := (isChain_cons_cons.mp htail).1
        -- The outermost scope would have a parent as well.
        obtain rfl := Option.some.inj (hmain.parent.symm.trans hparent)
        have hroot : ∃ s', (t.scope SymbolTable.root).parent = some s' := by
          cases outer with
          | nil => exact ⟨_, (isChain_cons_cons.mp (isChain_cons_cons.mp htail).2).1⟩
          | cons s' outer => exact ⟨_, (isChain_cons_cons.mp (isChain_cons_cons.mp htail).2).1⟩
        obtain ⟨s', hs'⟩ := hroot
        cases ht.root_parent.symm.trans hs'
    subst houter
    intro B hB y hy
    rw [← hblocks, map_append, map_singleton, dropLast_concat] at hB
    obtain ⟨s, hs, rfl⟩ := mem_map.mp hB
    exact hfree s hs y hy
  | builtin _ _ hroot => exact absurd (hs.symm.trans hroot) (by decide)

lemma code_of_main {k : Scene} {r : Reference} (hmain : k.table.MainScoped) (hid : r.symbol = some id)
    (hs : (k.table.get id).scope = SymbolTable.root + 1) (hname : (k.table.get id).name = r.name.text) :
    (Expr.name l r).code k = r.name.text := by
  have hqualified : k.table.qualifiedName id "::" = r.name.text := by
    rw [SymbolTable.qualifiedName, SymbolTable.qualifiedPath, hs, hmain.path, hname]
    rfl
  change k.reference r = _
  unfold Scene.reference
  rw [hid]
  dsimp only
  split
  · exact hqualified
  · rfl

/-- Take a bare name in the constructor or in a method of a class that stands for a declaration at the top of the main
unit. The class is written with its members, and the name stands in a function written for the class, as it is. No local
name hides it, and the target finds a member of the class for it just if there is one of that name. -/
theorem name_captured_iff {k : Scene} {l l' : Location} {d : ClassDecl} {r : Reference} {j : Nat} {c : List Nat}
    (hp : p.Read) (h : p.resolveNames = (q, .ok t)) (hr : q.clampRanges = (q', .ok ranges)) (hk : k.table = t)
    (hb : (Node.unit q).at? b = some (.item (.classDecl l d))) (hj : d.fields.length ≤ j)
    (ha : (Node.unit q).at? (b ++ j :: c) = some (.expr (.name l' r))) (hid : r.symbol = some id)
    (hs : (t.get id).scope = SymbolTable.root + 1) :
    ∃ d' f s, (Node.unit q').at? b = some (.item (.classDecl l d')) ∧ d'.memberNames = d.memberNames ∧
      q'.WritesClass k b d' ∧ f ∈ d'.callables ∧ s ∈ f.2 ∧ (Node.unit q').at? (b ++ [j]) = some (.stmt s) ∧
      ((Node.unit q').within? (b ++ j :: c)).map Node.inside = some (.expr (.name l' r)) ∧
      (Expr.name l' r).code k = (t.get id).name ∧ (t.get id).name = r.name.text ∧
      ∀ found, q.TargetFinds d'.memberNames (b ++ j :: c) r.name.text found ↔
        found = if r.name.text ∈ d.memberNames then .around else .top := by
  obtain ⟨F, ht, hsorted, hq⟩ := unitsResolved h
  obtain ⟨blockOf, hF⟩ := exists_blockOf hsorted
  obtain ⟨hname, hden⟩ := hp.name_found h hq hF ha hid
  have hfree := hden.freeInBlocks ht (mainScoped h) hs
  have hb' : (Node.unit q').at? b =
      some (.item (.classDecl l ((d.transform commonUnits).transform (Node.clamps ranges)))) := by
    rw [eq_insertClamps hr]
    exact Node.item_at?_transform _ (Node.item_at?_transform _ hb)
  have hnames : ((d.transform commonUnits).transform (Node.clamps ranges)).memberNames = d.memberNames := by
    rw [ClassDecl.memberNames_transform, ClassDecl.memberNames_transform]
  -- The statement that holds the name is child `j` of the class.
  obtain ⟨n, hn⟩ : ∃ n,
      (Node.item (.classDecl l ((d.transform commonUnits).transform (Node.clamps ranges)))).children[j]? = some n := by
    rw [Node.at?_append, hb, Option.bind_some] at ha
    obtain ⟨n, hn, -⟩ := Option.bind_eq_some_iff.mp ha
    have hchildren (f : Transform) (d : ClassDecl) : (Node.item (.classDecl l (d.transform f))).children =
        (Node.item (.classDecl l d)).children.map (Node.transform f) :=
      Node.children_transform (n := .item (.classDecl l d)) f rfl
    exact ⟨_, by rw [hchildren, hchildren, getElem?_map, getElem?_map, hn]; rfl⟩
  have hfields : ((d.transform commonUnits).transform (Node.clamps ranges)).fields.length ≤ j := by
    simpa [ClassDecl.transform] using hj
  obtain ⟨f, hf, s, hsf, rfl⟩ := ClassDecl.stmt_of_child hfields hn
  subst hk
  refine ⟨_, f, s, hb', hnames, writesClass k hb', hf, hsf, ?_, ?_, ?_, hname, fun found => ?_⟩
  · rw [Node.at?_concat, hb', Option.bind_some, hn]
  · rw [map_inside_clampRanges hp h hr, ha]
    rfl
  · rw [code_of_main (mainScoped h) hid hs hname, hname]
  · rw [targetFinds_iff hfree, hnames]

end Program

namespace Sample

/-- A method uses two variables, and the class has a field with the name of one of them. -/
def counterText : String := "mut int count = 0
mut int total = 0
class C {
    mut int count = 1
    fn inc() {
        count = count + 1
        total = 2
    }
}"

/-- The class at `b` and the name at `c` below its child `j`, behind the fields, that stands for a declaration of the
main unit; and whether the class has a member of that name. -/
def usedInClass? (t : SymbolTable) (p : Program) (b : List Nat) (j : Nat) (c : List Nat) : Option (String × Bool) :=
  match (Node.unit p).at? b, (Node.unit p).at? (b ++ j :: c) with
  | some (.item (.classDecl _ d)), some (.expr (.name _ r)) =>
    if d.fields.length ≤ j && r.symbol.any fun id => (t.get id).scope = SymbolTable.root + 1 then
      some (r.name.text, d.memberNames.contains r.name.text)
    else none
  | _, _ => none

lemma of_usedInClass? {t : SymbolTable} {p} {b c : List Nat} {name} {captured : Bool}
    (h : usedInClass? t p b j c = some (name, captured)) : ∃ l l' d r id,
      (Node.unit p).at? b = some (.item (.classDecl l d)) ∧ d.fields.length ≤ j ∧
      (Node.unit p).at? (b ++ j :: c) = some (.expr (.name l' r)) ∧ r.symbol = some id ∧
      (t.get id).scope = SymbolTable.root + 1 ∧ r.name.text = name ∧ d.memberNames.contains name = captured := by
  unfold usedInClass? at h
  split at h
  case h_2 => cases h
  case h_1 l d l' r hb ha =>
    split at h
    case isFalse => cases h
    case isTrue hcond =>
      simp only [Bool.and_eq_true, decide_eq_true_eq, Option.any_eq_true] at hcond
      obtain ⟨hj, id, hid, hs⟩ := hcond
      simp only [Option.some.injEq, Prod.mk.injEq] at h
      obtain ⟨rfl, rfl⟩ := h
      exact ⟨l, l', d, r, id, hb, hj, ha, hid, hs, rfl, rfl⟩

/-- The name is written bare in a function of the class, and this is what the target finds for it. -/
def FoundInMethod (k : Scene) (q q' : Program) (b : List Nat) (j : Nat) (c : List Nat) (name : String)
    (found : Found) : Prop :=
  ∃ l l' d r, (Node.unit q').at? b = some (.item (.classDecl l d)) ∧
    ((Node.unit q').within? (b ++ j :: c)).map Node.inside = some (.expr (.name l' r)) ∧
    (Expr.name l' r).code k = name ∧ q.TargetFinds d.memberNames (b ++ j :: c) name found

/-- The store into `count` in the method goes to the field, and that into `total` to the variable. -/
theorem count_captured : ∃ q q' ranges, (ofText counterText).Read ∧
    (ofText counterText).resolveNames = (q, .ok (tableOf (ofText counterText))) ∧ q.clampRanges = (q', .ok ranges) ∧
    FoundInMethod (plainScene (ofText counterText)) q q' [2] 1 [0] "count" .around ∧
    FoundInMethod (plainScene (ofText counterText)) q q' [2] 2 [0] "total" .top := by
  have hall : passes counterText = true ∧
      let q := (ofText counterText).resolveNames.1
      usedInClass? (tableOf (ofText counterText)) q [2] 1 [0] = some ("count", true) ∧
        usedInClass? (tableOf (ofText counterText)) q [2] 2 [0] = some ("total", false) := by decide +kernel
  obtain ⟨hpasses, hcount, htotal⟩ := hall
  obtain ⟨hread, h, hr⟩ := of_passes counterText hpasses
  have hk := plainScene_table (ofText counterText)
  generalize (ofText counterText).resolveNames.1 = q at *
  generalize q.clampRanges.1 = q' at *
  generalize plainScene (ofText counterText) = k at *
  have finds {j : Nat} {c : List Nat} {name : String} {captured : Bool}
      (hu : usedInClass? (tableOf (ofText counterText)) q [2] j c = some (name, captured)) :
      FoundInMethod k q q' [2] j c name (if captured then .around else .top) := by
    obtain ⟨l, l', d, r, id, hb, hj, ha, hid, hs, rfl, rfl⟩ := of_usedInClass? hu
    obtain ⟨d', f, s, hb', -, -, -, -, -, hplace, hcode, hname, hfinds⟩ :=
      Program.name_captured_iff hread h hr hk hb hj ha hid hs
    refine ⟨l, l', d', r, hb', hplace, hcode.trans hname, (hfinds _).mpr ?_⟩
    simp only [contains_iff_mem]
  exact ⟨q, q', _, hread, h, hr, finds hcount, finds htotal⟩

end Sample

end SketchCompiler
