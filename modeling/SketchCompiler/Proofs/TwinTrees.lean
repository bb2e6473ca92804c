import Mathlib.Data.List.Forall2
import SketchCompiler.Token
import SketchCompiler.Tree.Program

namespace SketchCompiler

/-- Which places correspond, and which tokens are met there. -/
structure Correspondence where
  place : Location → Location → Prop
  token : Token → Prop
  through {a a' b b' : Location} : place a a' → place b b' → place (a.through b) (a'.through b')

variable (c : Correspondence)

structure Name.Twin (x x' : Name) : Prop where
  text : x'.text = x.text
  loc : c.place x.loc x'.loc
  word : c.token (.id x.text)

structure TypeName.Twin (t t' : Located TypeName) : Prop where
  value : t'.value = t.value
  loc : c.place t.loc t'.loc
  words : ∀ w ∈ t.value.path, c.token (.id w)

mutual

inductive Expr.Twin : Expr → Expr → Prop where
  | number {l l' v unit} (hl : c.place l l') (hv : c.token (.number v unit)) :
      Expr.Twin (.literal l (.number v unit)) (.literal l' (.number v unit))
  | str {l l' text} (hl : c.place l l') : Expr.Twin (.literal l (.str text)) (.literal l' (.str text))
  | bool {l l' b} (hl : c.place l l') : Expr.Twin (.literal l (.bool b)) (.literal l' (.bool b))
  | name {l l' x x'} (hl : c.place l l') (hx : x.Twin c x') : Expr.Twin (.name l ⟨x, none⟩) (.name l' ⟨x', none⟩)
  | self {l l'} (hl : c.place l l') : Expr.Twin (.self l) (.self l')
  | binary {l l' a a' b b' op} (hl : c.place l l') (ha : Expr.Twin a a') (hb : Expr.Twin b b') :
      Expr.Twin (.binary l a op b) (.binary l' a' op b')
  | unary {l l' e e' op} (hl : c.place l l') (he : Expr.Twin e e') : Expr.Twin (.unary l op e) (.unary l' op e')
  | call {l l' e e' args args'} (hl : c.place l l') (he : Expr.Twin e e') (hargs : List.Forall₂ Expr.Twin args args') :
      Expr.Twin (.call l e args) (.call l' e' args')
  | member {l l' e e' x x'} (hl : c.place l l') (he : Expr.Twin e e') (hx : x.Twin c x') :
      Expr.Twin (.member l e x none) (.member l' e' x' none)
  | new {l l' type type' args args'} (hl : c.place l l') (ht : TypeName.Twin c type type')
      (hargs : List.Forall₂ Expr.Twin args args') : Expr.Twin (.new l type args) (.new l' type' args')
  | array {l l' es es'} (hl : c.place l l') (hes : List.Forall₂ Expr.Twin es es') :
      Expr.Twin (.array l es) (.array l' es')
  | subscript {l l' a a' i i'} (hl : c.place l l') (ha : Expr.Twin a a') (hi : Expr.Twin i i') :
      Expr.Twin (.subscript l a i) (.subscript l' a' i')
  | convert {l l' e e' type type'} (hl : c.place l l') (he : Expr.Twin e e') (ht : TypeName.Twin c type type') :
      Expr.Twin (.convert l e type) (.convert l' e' type')
  | struct {l l' type type' fields fields'} (hl : c.place l l') (ht : TypeName.Twin c type type')
      (hfields : List.Forall₂ FieldValue.Twin fields fields') :
      Expr.Twin (.struct l type fields) (.struct l' type' fields')

inductive FieldValue.Twin : FieldValue → FieldValue → Prop where
  | mk {x x' e e'} (hx : x.Twin c x') (he : Expr.Twin e e') : FieldValue.Twin ⟨x, e⟩ ⟨x', e'⟩

end

structure Range.Twin (r r' : Range) : Prop where
  min : r.min.Twin c r'.min
  max : r.max.Twin c r'.max

inductive Pattern.Twin : Pattern → Pattern → Prop where
  | wildcard {l l'} (hl : c.place l l') : Twin (.wildcard l) (.wildcard l')
  | value {l l' e e'} (hl : c.place l l') (he : e.Twin c e') : Twin (.value l e) (.value l' e')

mutual

/-- Values that are stored, which may have handlers and may be made devices. -/
inductive Expr.StoredTwin : Expr → Expr → Prop where
  | plain {e e'} (he : e.Twin c e') : Expr.StoredTwin e e'
  | guarded {l l' e e' handler handler'} (hl : c.place l l') (he : e.Twin c e')
      (hh : List.Forall₂ Stmt.Twin handler handler') : Expr.StoredTwin (.guarded l e handler) (.guarded l' e' handler')
  | device {l l' type type' e e'} (hl : c.place l l') (ht : TypeName.Twin c type type') (he : Expr.StoredTwin e e') :
      Expr.StoredTwin (.new l type [e]) (.new l' type' [e'])

inductive VarDecl.Twin : VarDecl → VarDecl → Prop where
  | mk {qualifier type type' x x' e e' range range'} (ht : TypeName.Twin c type type') (hx : x.Twin c x')
      (he : Option.Rel Expr.StoredTwin e e') (hr : Option.Rel (Range.Twin c) range range') :
      VarDecl.Twin ⟨qualifier, type, x, e, range, none⟩ ⟨qualifier, type', x', e', range', none⟩

inductive Stmt.Twin : Stmt → Stmt → Prop where
  | var {l l' d d'} (hl : c.place l l') (hd : VarDecl.Twin d d') : Stmt.Twin (.var l d) (.var l' d')
  | assign {l l' target target' e e'} (hl : c.place l l') (ht : target.Twin c target') (he : Expr.StoredTwin e e') :
      Stmt.Twin (.assign l target e) (.assign l' target' e')
  | expr {l l' e e'} (hl : c.place l l') (he : Expr.StoredTwin e e') : Stmt.Twin (.expr l e) (.expr l' e')
  | cond {l l' bs bs' otherwise otherwise'} (hl : c.place l l') (hbs : List.Forall₂ Branch.Twin bs bs')
      (ho : Option.Rel (List.Forall₂ Stmt.Twin) otherwise otherwise') :
      Stmt.Twin (.cond l bs otherwise) (.cond l' bs' otherwise')
  | whileLoop {l l' e e' body body'} (hl : c.place l l') (he : e.Twin c e') (hb : List.Forall₂ Stmt.Twin body body') :
      Stmt.Twin (.whileLoop l e body) (.whileLoop l' e' body')
  | forLoop {l l' init init' update update' e e' body body'} (hl : c.place l l') (hi : Option.Rel Stmt.Twin init init')
      (he : Option.Rel (Expr.Twin c) e e') (hu : Option.Rel Stmt.Twin update update')
      (hb : List.Forall₂ Stmt.Twin body body') : Stmt.Twin (.forLoop l init e update body)
      (.forLoop l' init' e' update' body')
  | repeatLoop {l l' e e' body body'} (hl : c.place l l') (he : e.Twin c e') (hb : List.Forall₂ Stmt.Twin body body') :
      Stmt.Twin (.repeatLoop l e body) (.repeatLoop l' e' body')
  | choose {l l' e e' arms arms'} (hl : c.place l l') (he : e.Twin c e') (ha : List.Forall₂ Arm.Twin arms arms') :
      Stmt.Twin (.choose l e arms) (.choose l' e' arms')
  | switch {l l' e e' bs bs' otherwise otherwise'} (hl : c.place l l') (he : e.Twin c e')
      (hbs : List.Forall₂ Branch.Twin bs bs') (ho : Option.Rel (List.Forall₂ Stmt.Twin) otherwise otherwise') :
      Stmt.Twin (.switch l e bs otherwise) (.switch l' e' bs' otherwise')
  | atomic {l l' body body'} (hl : c.place l l') (hb : List.Forall₂ Stmt.Twin body body') :
      Stmt.Twin (.atomic l body) (.atomic l' body')
  | emit {l l' x x'} (hl : c.place l l') (hx : x.Twin c x') : Stmt.Twin (.emit l ⟨x, none⟩) (.emit l' ⟨x', none⟩)
  | ret {l l' e e'} (hl : c.place l l') (he : Option.Rel (Expr.Twin c) e e') : Stmt.Twin (.ret l e) (.ret l' e')
  | breakLoop {l l'} (hl : c.place l l') : Stmt.Twin (.breakLoop l) (.breakLoop l')
  | continueLoop {l l'} (hl : c.place l l') : Stmt.Twin (.continueLoop l) (.continueLoop l')
  | native {l l' text} (hl : c.place l l') : Stmt.Twin (.native l text) (.native l' text)

inductive Branch.Twin : Branch → Branch → Prop where
  | mk {e e' body body'} (he : e.Twin c e') (hb : List.Forall₂ Stmt.Twin body body') : Branch.Twin ⟨e, body⟩ ⟨e', body'⟩

inductive Arm.Twin : Arm → Arm → Prop where
  | mk {ps ps' body body'} (hps : List.Forall₂ (Pattern.Twin c) ps ps') (hb : List.Forall₂ Stmt.Twin body body') :
      Arm.Twin ⟨ps, body⟩ ⟨ps', body'⟩

end

abbrev Stmt.Twins : List Stmt → List Stmt → Prop := List.Forall₂ (Stmt.Twin c)

structure Param.Twin (x x' : Param) : Prop where
  type : TypeName.Twin c x.type x'.type
  name : x.name.Twin c x'.name
  symbol : x.symbol = none ∧ x'.symbol = none

structure FunctionDecl.Twin (d d' : FunctionDecl) : Prop where
  name : d.name.Twin c d'.name
  params : List.Forall₂ (Param.Twin c) d.params d'.params
  returnType : Option.Rel (TypeName.Twin c) d.returnType d'.returnType
  body : Stmt.Twins c d.body d'.body
  symbol : d.symbol = none ∧ d'.symbol = none

structure Constructor.Twin (k k' : Constructor) : Prop where
  loc : c.place k.loc k'.loc
  params : List.Forall₂ (Param.Twin c) k.params k'.params
  body : Stmt.Twins c k.body k'.body

structure Located.Twin {α : Type} (R : α → α → Prop) (x x' : Located α) : Prop where
  value : R x.value x'.value
  loc : c.place x.loc x'.loc

structure ClassDecl.Twin (d d' : ClassDecl) : Prop where
  name : d.name.Twin c d'.name
  fields : List.Forall₂ (Located.Twin c (VarDecl.Twin c)) d.fields d'.fields
  constructor : Option.Rel (Constructor.Twin c) d.constructor d'.constructor
  methods : List.Forall₂ (Located.Twin c (FunctionDecl.Twin c)) d.methods d'.methods
  symbol : d.symbol = none ∧ d'.symbol = none

structure StructField.Twin (f f' : StructField) : Prop where
  type : TypeName.Twin c f.type f'.type
  name : f.name.Twin c f'.name

inductive Event.Twin : Event → Event → Prop where
  | start : Twin .start .start
  | loop : Twin .loop .loop
  | signal {x x'} (hx : x.Twin c x') : Twin (.signal ⟨x, none⟩) (.signal ⟨x', none⟩)

/-- Items as they are read: modules and includes come from linking. -/
inductive Item.Twin : Item → Item → Prop where
  | config {l l' fs fs'} (hl : c.place l l') (hfs : List.Forall₂ (FieldValue.Twin c) fs fs') :
      Twin (.config l fs) (.config l' fs')
  | load {l l' m m' path x x'} (hl : c.place l l') (hm : c.place m m') (hx : Option.Rel (Name.Twin c) x x') :
      Twin (.load l ⟨path, m⟩ x) (.load l' ⟨path, m'⟩ x')
  | var {l l' d d'} (hl : c.place l l') (hd : d.Twin c d') : Twin (.var l d) (.var l' d')
  | aliasDecl {l l' x x' e e'} (hl : c.place l l') (hx : x.Twin c x') (he : e.Twin c e') :
      Twin (.aliasDecl l x e none) (.aliasDecl l' x' e' none)
  | function {l l' d d'} (hl : c.place l l') (hd : d.Twin c d') : Twin (.function l d) (.function l' d')
  | classDecl {l l' d d'} (hl : c.place l l') (hd : d.Twin c d') : Twin (.classDecl l d) (.classDecl l' d')
  | enumDecl {l l' x x' xs xs'} (hl : c.place l l') (hx : x.Twin c x') (hxs : List.Forall₂ (Name.Twin c) xs xs') :
      Twin (.enumDecl l ⟨x, xs, none⟩) (.enumDecl l' ⟨x', xs', none⟩)
  | structDecl {l l' x x' fs fs'} (hl : c.place l l') (hx : x.Twin c x')
      (hfs : List.Forall₂ (StructField.Twin c) fs fs') :
      Twin (.structDecl l ⟨x, fs, none⟩) (.structDecl l' ⟨x', fs', none⟩)
  | signal {l l' x x'} (hl : c.place l l') (hx : x.Twin c x') : Twin (.signal l x none) (.signal l' x' none)
  | event {l l' kind kind' body body'} (hl : c.place l l') (hk : kind.Twin c kind') (hb : Stmt.Twins c body body') :
      Twin (.event l kind body) (.event l' kind' body')
  | interrupt {l l' x x' pin pin' trigger body body'} (hl : c.place l l') (hx : Option.Rel (Name.Twin c) x x')
      (hp : pin.Twin c pin') (hb : Stmt.Twins c body body') :
      Twin (.interrupt l ⟨x, pin, trigger, body⟩) (.interrupt l' ⟨x', pin', trigger, body'⟩)
  | task {l l' x x' e e' body body'} (hl : c.place l l') (hx : x.Twin c x') (he : Option.Rel (Expr.Twin c) e e')
      (hb : Stmt.Twins c body body') : Twin (.task l ⟨x, e, body, none⟩) (.task l' ⟨x', e', body', none⟩)
  | native {l l' text} (hl : c.place l l') : Twin (.native l text) (.native l' text)

structure Program.Twin (p p' : Program) : Prop where
  name : p'.name = p.name
  mark : Option.Rel c.place p.mainMark p'.mainMark
  items : List.Forall₂ (Item.Twin c) p.items p'.items

end SketchCompiler
