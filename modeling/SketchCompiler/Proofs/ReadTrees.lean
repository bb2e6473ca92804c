import SketchCompiler.Module.Link
import SketchCompiler.Proofs.ReadTwins
import SketchCompiler.Proofs.Scoping
import SketchCompiler.Proofs.Spelling

namespace SketchCompiler

open List

variable {α : Type} {name text : String}

lemma Program.ofText_eq_ok {p} (h : ofText name text = .ok p) :
    ∃ tokens, (SourceText.ofString text name).tokenize = .ok tokens ∧
      ofTokens tokens name (SourceText.ofString text name).start = .ok p := by
  unfold ofText at h
  dsimp only at h
  split at h
  · cases h
  · rename_i tokens ht
    split at h
    · cases h
    · rename_i hp
      cases h
      exact ⟨tokens, ht, hp⟩

/-- Any places, and tokens that can be written. -/
def Correspondence.spelled : Correspondence := ⟨fun _ _ => True, Token.IsSpelled, fun _ _ => trivial⟩

lemma Program.twin_of_ofText {p : Program} (h : ofText name text = .ok p) : p.Twin .spelled p ∧ p.name = name := by
  obtain ⟨tokens, ht, hp⟩ := ofText_eq_ok h
  exact twin_of_ofTokens (fun t hm => ⟨SourceText.isSpelled_of_tokenize ht hm, trivial⟩) trivial hp

namespace Node

def Plain (n : Node) : Prop := ∀ m ∈ n.nodes, ∃ e, m = expr e

/-- The settings and the bounds that the node holds. -/
def settings : Node → List Node
  | item (.config _ entries) => entries.map fun f => expr f.value
  | var d => ofRange? d.range
  | _ => []

def isClamp : Node → Bool
  | expr (.clamp ..) => true
  | _ => false

/-- The words that a name, a member, a type or a module is read from. -/
def words : Node → List String
  | expr (.name _ r) => [r.name.text]
  | expr (.member _ _ name _) => [name.text]
  | expr (.convert _ _ type) => type.value.path
  | item (.load _ _ aliasName) => (aliasName.map (·.text)).toList
  | item (.module _ aliasName _ _ _) => [aliasName.text]
  | _ => []

def number? : Node → Option Number
  | expr (.literal _ (.number v _)) => some v
  | _ => none

def member? : Node → Option SymbolId
  | expr (.member _ _ _ symbol) => symbol
  | _ => none

/-- What the node itself holds can be written, and a member is not found yet. -/
def IsWritten (n : Node) : Prop :=
  (∀ x ∈ n.words, IsWord x.toList) ∧ (∀ v, n.number? = some v → ∃ unit, (Token.number v unit).IsSpelled) ∧
    n.member? = none

/-- A node as it is read: without numbers, not a clamp, and with plain settings. -/
def IsFresh (n : Node) : Prop :=
  (∀ symbol ∈ n.numbers, symbol = none) ∧ n.isClamp = false ∧ (∀ c ∈ n.settings, c.Plain) ∧ n.IsWritten

def Fresh (n : Node) : Prop := ∀ m ∈ n.nodes, m.IsFresh

variable {n : Node}

lemma plain_iff : n.Plain ↔ (∃ e, n = expr e) ∧ ∀ c ∈ n.children, c.Plain := forall_nodes_iff

lemma fresh_iff : n.Fresh ↔ n.IsFresh ∧ ∀ c ∈ n.children, c.Fresh := forall_nodes_iff

lemma IsFresh.of_nil (hn : n.numbers = []) (hc : n.isClamp = false) (hs : n.settings = []) (hw : n.words = [])
    (hv : n.number? = none) (hm : n.member? = none) : n.IsFresh := by
  refine ⟨by simp [hn], hc, by simp [hs], by simp [hw], fun v h => ?_, hm⟩
  cases hv.symm.trans h

end Node

namespace Node

variable {c : Correspondence}

/-- The nodes of twins. -/
inductive Twin (c : Correspondence) : Node → Node → Prop where
  | unit {p p'} (h : p.Twin c p') : Twin c (unit p) (unit p')
  | item {i i' : Item} (h : i.Twin c i') : Twin c (item i) (item i')
  | var {d d'} (h : d.Twin c d') : Twin c (var d) (var d')
  | stmt {s s' : Stmt} (h : s.Twin c s') : Twin c (stmt s) (stmt s')
  | expr {e e' : Expr} (h : e.StoredTwin c e') : Twin c (expr e) (expr e')

abbrev Twins (c : Correspondence) : List Node → List Node → Prop := List.Forall₂ (Twin c)

lemma twins_map {R : α → α → Prop} {f : α → Node} (hf : ∀ a a', R a a' → (f a).Twin c (f a'))
    {as as' : List α} (h : Forall₂ R as as') : Twins c (as.map f) (as'.map f) := by
  rw [Twins, forall₂_map_left_iff, forall₂_map_right_iff]
  exact h.imp hf

lemma twins_flatMap {R : α → α → Prop} {f : α → List Node}
    (hf : ∀ a a', R a a' → Twins c (f a) (f a')) {as as' : List α} (h : Forall₂ R as as') :
    Twins c (as.flatMap f) (as'.flatMap f) :=
  rel_flatMap h hf

lemma twins_ofBlock {body body'} (h : Stmt.Twins c body body') : Twins c (ofBlock body) (ofBlock body') :=
  twins_map (f := stmt) (fun _ _ => .stmt) h

lemma twins_ofBlock? {body body'} (h : Option.Rel (Stmt.Twins c) body body') :
    Twins c (ofBlock? body) (ofBlock? body') := by
  cases h with
  | none => exact .nil
  | some h => exact twins_ofBlock h

lemma twins_ofExpr? {e e'} (h : Option.Rel (Expr.Twin c) e e') : Twins c (ofExpr? e) (ofExpr? e') := by
  cases h with
  | none => exact .nil
  | some h => exact .cons (.expr (.plain h)) .nil

lemma twins_ofStmt? {s s'} (h : Option.Rel (Stmt.Twin c) s s') : Twins c (ofStmt? s) (ofStmt? s') := by
  cases h with
  | none => exact .nil
  | some h => exact .cons (.stmt h) .nil

lemma twins_ofBranch (b b' : Branch) (h : b.Twin c b') : Twins c (ofBranch b) (ofBranch b') := by
  cases h with
  | mk he hb => exact .cons (.expr (.plain he)) (twins_ofBlock hb)

lemma twins_ofPattern (p p' : Pattern) (h : p.Twin c p') : Twins c (ofPattern p) (ofPattern p') := by
  cases h with
  | wildcard => exact .nil
  | value _ he => exact .cons (.expr (.plain he)) .nil

lemma twins_ofArm (a a' : Arm) (h : a.Twin c a') : Twins c (ofArm a) (ofArm a') := by
  cases h with
  | mk hps hb => exact rel_append (twins_flatMap twins_ofPattern hps) (twins_ofBlock hb)

lemma twins_ofConstructor? {k k'} (h : Option.Rel (Constructor.Twin c) k k') :
    Twins c (ofConstructor? k) (ofConstructor? k') := by
  cases h with
  | none => exact .nil
  | some h => exact twins_ofBlock h.body

end Node

lemma Expr.Twin.parts {c} {e e' : Expr} (h : e.Twin c e') :
    ∃ es es', (Node.expr e).children = es.map .expr ∧ (Node.expr e').children = es'.map .expr ∧
      Forall₂ (Expr.Twin c) es es' := by
  cases h with
  | binary _ ha hb => exact ⟨[_, _], [_, _], rfl, rfl, .cons ha (.cons hb .nil)⟩
  | unary _ he => exact ⟨[_], [_], rfl, rfl, .cons he .nil⟩
  | call _ he hargs => exact ⟨_ :: _, _ :: _, rfl, rfl, .cons he hargs⟩
  | member _ he _ => exact ⟨[_], [_], rfl, rfl, .cons he .nil⟩
  | new _ _ hargs => exact ⟨_, _, rfl, rfl, hargs⟩
  | array _ hes => exact ⟨_, _, rfl, rfl, hes⟩
  | subscript _ ha hi => exact ⟨[_, _], [_, _], rfl, rfl, .cons ha (.cons hi .nil)⟩
  | convert _ he _ => exact ⟨[_], [_], rfl, rfl, .cons he .nil⟩
  | @struct _ _ _ _ fields fields' _ _ hfields =>
    refine ⟨fields.map (·.value), fields'.map (·.value), by simp [Node.children], by simp [Node.children], ?_⟩
    rw [forall₂_map_left_iff, forall₂_map_right_iff]
    exact hfields.imp fun f f' hf => by
      cases hf with
      | mk _ he => exact he
  | _ => exact ⟨[], [], rfl, rfl, .nil⟩

namespace Node

variable {c : Correspondence} {n n' : Node}

lemma Twin.children (h : n.Twin c n') : Twins c n.children n'.children := by
  cases h with
  | unit h => exact twins_map (f := Node.item) (fun _ _ => .item) h.items
  | item h =>
    cases h with
    | config _ hfs =>
      refine twins_map (fun f f' hf => ?_) hfs
      cases hf with
      | mk _ he => exact .expr (.plain he)
    | var _ hd => exact .cons (.var hd) .nil
    | aliasDecl _ _ he => exact .cons (.expr (.plain he)) .nil
    | function _ hd => exact twins_ofBlock hd.body
    | classDecl _ hd =>
      refine rel_append (rel_append (twins_map (fun _ _ hf => .var hf.value) hd.fields) ?_) ?_
      · exact twins_ofConstructor? hd.constructor
      · exact twins_flatMap (fun _ _ hm => twins_ofBlock hm.value.body) hd.methods
    | event _ _ hb => exact twins_ofBlock hb
    | interrupt _ _ hp hb => exact .cons (.expr (.plain hp)) (twins_ofBlock hb)
    | task _ _ he hb => exact rel_append (twins_ofExpr? he) (twins_ofBlock hb)
    | _ => exact .nil
  | var h =>
    cases h with
    | mk _ _ he hr =>
      refine rel_append ?_ ?_
      · cases hr with
        | none => exact .nil
        | some hr => exact .cons (.expr (.plain hr.min)) (.cons (.expr (.plain hr.max)) .nil)
      · cases he with
        | none => exact .nil
        | some he => exact .cons (.expr he) .nil
  | stmt h =>
    cases h with
    | var _ hd => exact .cons (.var hd) .nil
    | assign _ ht he => exact .cons (.expr (.plain ht)) (.cons (.expr he) .nil)
    | expr _ he => exact .cons (.expr he) .nil
    | cond _ hbs ho => exact rel_append (twins_flatMap twins_ofBranch hbs) (twins_ofBlock? ho)
    | whileLoop _ he hb => exact .cons (.expr (.plain he)) (twins_ofBlock hb)
    | forLoop _ hi he hu hb =>
      exact rel_append (rel_append (rel_append (twins_ofStmt? hi) (twins_ofExpr? he)) (twins_ofStmt? hu))
        (twins_ofBlock hb)
    | repeatLoop _ he hb => exact .cons (.expr (.plain he)) (twins_ofBlock hb)
    | choose _ he ha => exact .cons (.expr (.plain he)) (twins_flatMap twins_ofArm ha)
    | switch _ he hbs ho =>
      exact .cons (.expr (.plain he)) (rel_append (twins_flatMap twins_ofBranch hbs) (twins_ofBlock? ho))
    | atomic _ hb => exact twins_ofBlock hb
    | ret _ he => exact twins_ofExpr? he
    | _ => exact .nil
  | expr h =>
    cases h with
    | plain h =>
      obtain ⟨es, es', hes, hes', h⟩ := h.parts
      rw [hes, hes']
      exact twins_map (fun _ _ he => .expr (.plain he)) h
    | guarded _ he hh => exact .cons (.expr (.plain he)) (twins_ofBlock hh)
    | device _ _ he => exact .cons (.expr he) .nil

lemma Twin.forall_nodes {P : Node → Prop} (hP : ∀ n n', Twin c n n' → P n) (h : n.Twin c n') : ∀ m ∈ n.nodes, P m := by
  induction n using induct generalizing n' with
  | h n ih =>
    intro m hm
    rcases mem_nodes_iff.mp hm with rfl | ⟨k, hk, hm⟩
    · exact hP _ _ h
    · obtain ⟨k', -, hk'⟩ := exists_mem_of_forall₂ h.children hk
      exact ih k hk hk' m hm

lemma plain_of_twin {e e' : Expr} (h : e.Twin c e') : (expr e).Plain := by
  have hall : ∀ n : Node, ∀ e e', n = .expr e → e.Twin c e' → n.Plain := by
    intro n
    induction n using induct with
    | h n ih =>
      rintro e e' rfl h
      refine plain_iff.mpr ⟨⟨e, rfl⟩, fun k hk => ?_⟩
      obtain ⟨es, es', hes, -, hall⟩ := h.parts
      obtain ⟨x, hx, rfl⟩ := mem_map.mp (hes ▸ hk)
      obtain ⟨x', -, hx'⟩ := exists_mem_of_forall₂ hall hx
      exact ih _ hk x x' rfl hx'
  exact hall _ e e' rfl h

lemma symbols_of_params {ps ps' : List Param} (h : Forall₂ (Param.Twin c) ps ps') :
    ∀ symbol ∈ ps.map (·.symbol), symbol = none := by
  intro symbol hm
  obtain ⟨x, hx, rfl⟩ := mem_map.mp hm
  obtain ⟨x', -, hx⟩ := exists_mem_of_forall₂ h hx
  exact hx.symbol.1

lemma symbols_of_function {d d' : FunctionDecl} (h : d.Twin c d') :
    ∀ symbol ∈ d.symbol :: d.params.map (·.symbol), symbol = none :=
  forall_mem_cons.mpr ⟨h.symbol.1, symbols_of_params h.params⟩

lemma symbols_of_class {l} {d d' : ClassDecl} (h : d.Twin c d') :
    ∀ symbol ∈ (item (.classDecl l d)).numbers, symbol = none := by
  intro symbol hm
  rcases mem_append.mp hm with hm | hm
  · rcases mem_cons.mp hm with rfl | hm
    · exact h.symbol.1
    · obtain ⟨_, _, constructor, _, _⟩ := d
      obtain ⟨_, _, constructor', _, _⟩ := d'
      cases h.constructor with
      | none => cases hm
      | some hk => exact symbols_of_params hk.params _ hm
  · obtain ⟨m, hmethod, hm⟩ := mem_flatMap.mp hm
    obtain ⟨m', -, hm'⟩ := exists_mem_of_forall₂ h.methods hmethod
    exact symbols_of_function hm'.value _ hm

lemma Twin.isFresh (h : n.Twin .spelled n') : n.IsFresh := by
  cases h with
  | unit h => exact .of_nil rfl rfl rfl rfl rfl rfl
  | var h =>
    cases h with
    | mk _ _ _ hr =>
      refine ⟨by simp [numbers], rfl, fun k hk => ?_, forall_mem_nil _, nofun, rfl⟩
      cases hr with
      | none => cases hk
      | some hr =>
        rcases mem_pair.mp hk with rfl | rfl
        · exact plain_of_twin hr.min
        · exact plain_of_twin hr.max
  | stmt h =>
    cases h with
    | emit => exact ⟨by simp [numbers, reference?], rfl, forall_mem_nil _, forall_mem_nil _, nofun, rfl⟩
    | _ => exact .of_nil rfl rfl rfl rfl rfl rfl
  | item h =>
    cases h with
    | config _ hfs =>
      refine ⟨by simp [numbers, reference?], rfl, fun k hk => ?_, forall_mem_nil _, nofun, rfl⟩
      obtain ⟨f, hf, rfl⟩ := mem_map.mp hk
      obtain ⟨f', -, hf⟩ := exists_mem_of_forall₂ hfs hf
      cases hf with
      | mk _ he => exact plain_of_twin he
    | load _ _ hx =>
      refine ⟨by simp [numbers, reference?], rfl, forall_mem_nil _, fun w hw => ?_, nofun, rfl⟩
      cases hx with
      | none => cases hw
      | some hx =>
        cases mem_singleton.mp hw
        exact Token.IsSpelled.isWord hx.word
    | event _ hk _ =>
      refine ⟨?_, rfl, forall_mem_nil _, forall_mem_nil _, nofun, rfl⟩
      cases hk <;> simp [numbers, reference?]
    | function _ hd =>
      exact ⟨symbols_of_function hd, rfl, forall_mem_nil _, forall_mem_nil _, nofun, rfl⟩
    | classDecl _ hd => exact ⟨symbols_of_class hd, rfl, forall_mem_nil _, forall_mem_nil _, nofun, rfl⟩
    | _ => exact ⟨by simp [numbers, reference?], rfl, forall_mem_nil _, forall_mem_nil _, nofun, rfl⟩
  | expr h =>
    cases h with
    | plain h =>
      cases h with
      | number _ hv =>
        refine ⟨forall_mem_nil _, rfl, forall_mem_nil _, forall_mem_nil _, ?_, rfl⟩
        rintro _ ⟨⟩
        exact ⟨_, hv⟩
      | name _ hx =>
        refine ⟨by simp [numbers, reference?], rfl, forall_mem_nil _, ?_, nofun, rfl⟩
        exact forall_mem_singleton.mpr (Token.IsSpelled.isWord hx.word)
      | member _ _ hx =>
        refine ⟨forall_mem_nil _, rfl, forall_mem_nil _, ?_, nofun, rfl⟩
        exact forall_mem_singleton.mpr (Token.IsSpelled.isWord hx.word)
      | convert _ _ ht =>
        exact ⟨forall_mem_nil _, rfl, forall_mem_nil _, fun w hw => Token.IsSpelled.isWord (ht.words w hw), nofun, rfl⟩
      | _ => exact .of_nil rfl rfl rfl rfl rfl rfl
    | guarded => exact .of_nil rfl rfl rfl rfl rfl rfl
    | device => exact .of_nil rfl rfl rfl rfl rfl rfl

lemma fresh_unit {p : Program} : (unit p).Fresh ↔ ∀ i ∈ p.items, (item i).Fresh := by
  rw [fresh_iff]
  have hp : (unit p).IsFresh := .of_nil rfl rfl rfl rfl rfl rfl
  simp [hp, children]

end Node

lemma Program.fresh_of_ofText {p} (h : ofText name text = .ok p) : (Node.unit p).Fresh :=
  (Node.Twin.unit (twin_of_ofText h).1).forall_nodes fun _ _ => Node.Twin.isFresh

lemma bind_eq_ok {ε β : Type} {x : Except ε α} {f : α → Except ε β} {b : β} (h : (x >>= f) = .ok b) :
    ∃ a, x = .ok a ∧ f a = .ok b := by
  cases x with
  | error e => cases h
  | ok a => exact ⟨a, rfl, h⟩

namespace Linker

variable {k : Linker} {path : Located String} {p : Program} {name? : Option Name}

/-- Linking one more unit keeps it fresh. -/
def LinksFresh (k : Linker) : Prop :=
  ∀ links p p' links', k.inner links p = .ok (p', links') → (Node.unit p).Fresh → (Node.unit p').Fresh

lemma fresh_read (h : k.read path = .ok p) : (Node.unit p).Fresh := by
  unfold read at h
  split at h
  · exact Program.fresh_of_ofText h
  · cases h

lemma isWord_aliasFor {name : Name} (h : aliasFor path name? = .ok name)
    (hn : ∀ x, name? = some x → IsWord x.text.toList) : IsWord name.text.toList := by
  unfold aliasFor at h
  split at h
  · cases h
    exact hn _ rfl
  · split at h
    case h_1 text ht =>
      cases h
      unfold namespaceOf? at ht
      split at ht
      · split at ht
        · rename_i c cs _ hc
          cases ht
          obtain ⟨hc, hcs⟩ := Bool.and_eq_true_iff.mp hc
          exact ⟨c, cs, String.toList_ofList, hc, fun x hx => all_eq_true.mp hcs x hx⟩
        · cases ht
      · cases ht
    case h_2 => cases h

lemma fresh_module (hk : k.LinksFresh) {used used'} {links links'} {loc} {i}
    (hn : ∀ x, name? = some x → IsWord x.text.toList)
    (h : module k used links loc path name? = .ok (i, used', links')) : (Node.item i).Fresh := by
  obtain ⟨name, hname, h⟩ := bind_eq_ok h
  obtain ⟨-, -, h⟩ := bind_eq_ok h
  obtain ⟨-, -, h⟩ := bind_eq_ok h
  obtain ⟨p, hp, h⟩ := bind_eq_ok h
  obtain ⟨⟨p', links''⟩, hp', h⟩ := bind_eq_ok h
  cases h
  refine Node.fresh_iff.mpr ⟨⟨by simp [Node.numbers], rfl, forall_mem_nil _, ?_, nofun, rfl⟩, ?_⟩
  · simpa [Node.words] using isWord_aliasFor hname hn
  · simpa [Node.children] using hk _ _ _ _ hp' (fresh_read hp)

lemma fresh_items (hk : k.LinksFresh) (used : List String) (links : Links) {is}
    (h : ∀ i ∈ is, (Node.item i).Fresh) : ∀ i ∈ (items k used links is).1, (Node.item i).Fresh := by
  induction is generalizing used links with
  | nil => exact forall_mem_nil _
  | cons i is ih =>
    have his : ∀ i ∈ is, (Node.item i).Fresh := fun i hi => h i (mem_cons_of_mem _ hi)
    have hi := h i mem_cons_self
    have hcons (used : List String) (links : Links) (i : Item) (hi : (Node.item i).Fresh) :
        ∀ j ∈ i :: (items k used links is).1, (Node.item j).Fresh := by
      simpa using ⟨hi, ih used links his⟩
    cases i with
    | load loc path name? =>
      rw [items]
      split
      · split
        · rename_i hm
          have hwords := (Node.fresh_iff.mp hi).1.2.2.2.1
          exact hcons _ _ _ (fresh_module hk (by simpa [Node.words] using hwords) hm)
        · exact h
      · exact hcons _ _ _ (Node.fresh_iff.mpr ⟨.of_nil rfl rfl rfl rfl rfl rfl, forall_mem_nil _⟩)
    | _ => exact hcons _ _ _ hi

lemma fresh_linked (hk : k.LinksFresh) (links : Links) (hp : (Node.unit p).Fresh) :
    (Node.unit (unit k links p).1).Fresh :=
  Node.fresh_unit.mpr (fresh_items hk _ _ (Node.fresh_unit.mp hp))

lemma linksFresh_ofDepth (loader : Loader) (n : Nat) (stack : List String) : (ofDepth loader n stack).LinksFresh := by
  induction n generalizing stack with
  | zero =>
    intro links p p' links' h
    cases h
  | succ n ih =>
    intro links p p' links' h hp
    have hu := fresh_linked (ih (stack ++ [p.name])) links hp
    simp only [ofDepth] at h
    split at h
    · rename_i he
      rw [he] at hu
      cases h
      exact hu
    · cases h

end Linker

/-- A program is read from text, and its loads may have been replaced. -/
inductive Program.Read : Program → Prop
  | text {name text p} : ofText name text = .ok p → Read p
  | link {p} (loader : Loader) : Read p → Read (p.link loader).1

lemma Program.fresh_link {p : Program} (loader : Loader) (hp : (Node.unit p).Fresh) :
    (Node.unit (p.link loader).1).Fresh := by
  have hu := Linker.fresh_linked (Linker.linksFresh_ofDepth loader (loader.depth + 1) [p.name]) {} hp
  unfold link
  split
  · rename_i he
    rw [he] at hu
    exact hu
  · rename_i he
    rw [he] at hu
    exact hu

lemma Program.Read.fresh {p : Program} (h : p.Read) : (Node.unit p).Fresh := by
  induction h with
  | text h => exact fresh_of_ofText h
  | link loader _ ih => exact fresh_link loader ih

end SketchCompiler
