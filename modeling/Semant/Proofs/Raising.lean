import Semant.Proofs.Load

/-!
# Lowering loses nothing

A document can be read off its tree again (`Program.raise`). Two things are not in the tree: the initial
value of a parameter, which lowering does not look at, and whether the place of a name was given or
follows from the layout. So what comes back is the document with the former left out and the latter
written out (`Document.spelled`).

The place of a declaration is that of its first token, which is not always part of the tree. If the
declaration begins with a keyword, the type's name stands so many columns behind, and going back by
as many columns finds the place again. No column overflows on the way, or the tree would not have
been built; but going back would undo even that, since columns are words.
-/

set_option autoImplicit false

namespace Semant

/-! ## Places -/

namespace Document.Place

/-- The place behind a word and a blank. -/
def behind (place : Place) (word : String) : Place :=
  { place with column := place.column + UInt32.ofNat (word.length + 1) }

/-- The place of a word that is followed by a blank and this place. -/
def before (place : Place) (word : String) : Place :=
  { place with column := place.column - UInt32.ofNat (word.length + 1) }

theorem before_behind (place : Place) (word : String) : (place.behind word).before word = place := by
  unfold behind before
  rw [UInt32.add_sub_cancel]

/-- The place behind a keyword that may stand in front. -/
def behindIf (place : Place) (front : Bool) (kind : TokenKind) : Place :=
  if front then place.behind kind.text else place

def beforeIf (place : Place) (front : Bool) (kind : TokenKind) : Place :=
  if front then place.before kind.text else place

theorem beforeIf_behindIf (place : Place) (front : Bool) (kind : TokenKind) :
    (place.behindIf front kind).beforeIf front kind = place := by
  cases front with
  | false => rfl
  | true => exact before_behind place kind.text

end Document.Place

/-- The place of a position in its file. -/
def Position.place (p : Position) : Document.Place := ⟨p.line, p.column⟩

/-! ## From trees to documents -/

mutual

/-- The expression of a document that gives this one. -/
def Expr.raise : Expr → Document.Expr
  | .literal _ token given =>
    .literal ((given.map Ty.text).getD "") token.raw token.position.place
  | .var _ _ name => .var name.name name.position.place
  | .call _ _ callee args => .call callee.name callee.position.place (Expr.raiseList args)
  | .binary _ op token lhs rhs => .binary op.text token.position.place lhs.raise rhs.raise
  | .unary _ op token operand => .unary op.text token.position.place operand.raise
  | .cast _ target operand => .cast target.raw target.position.place operand.raise
  | .grouped _ inner => .group inner.raise
  | .format _ token args => .format token.raw token.position.place (Expr.raiseList args)

def Expr.raiseList : List Expr → List Document.Expr
  | [] => []
  | e :: rest => e.raise :: Expr.raiseList rest

end

/-- A declaration with an initial value, if it is data and has one. -/
def Decl.raise (d : Decl) (init : Option Expr) : Document.Decl :=
  { isConst := d.isConst
    type := d.type.raw
    name := d.name.name
    place := d.type.position.place.beforeIf d.isConst .constWord
    namePlace := some d.name.position.place
    init := init.map Expr.raise }

mutual

def Stmt.raise : Stmt → Document.Stmt
  | .data definition => .data (definition.decl.raise definition.init)
  | .assign a => .assign a.target.name a.target.position.place a.value.raise
  | .expr value => .expr value.raise
  | .branch conditional => conditional.raise
  | .whileLoop keyword cond body =>
    .whileLoop keyword.position.place (cond.map Expr.raise) body.raise
  | .doLoop keyword body cond => .doLoop keyword.position.place body.raise (cond.map Expr.raise)
  | .ret keyword value => .ret keyword.position.place (value.map Expr.raise)
  | .yield keyword value => .yield keyword.position.place (value.map Expr.raise)
  | .brk keyword => .brk keyword.position.place
  | .cont keyword => .cont keyword.position.place
  | .inline keyword text => .inline keyword.position.place text
  | .block body => .block body.position.place body.raise

/-- The statements of a block. -/
def Block.raise : Block → List Document.Stmt
  | .mk _ _ body => Stmt.raiseList body

def Stmt.raiseList : List Stmt → List Document.Stmt
  | [] => []
  | s :: rest => s.raise :: Stmt.raiseList rest

def Conditional.raise : Conditional → Document.Stmt
  | .mk keyword cond body otherwise =>
    .branch keyword.position.place cond.raise body.raise otherwise.raise

def Else.raise : Else → Option Document.Stmt
  | .none => none
  | .elseIf next => some next.raise
  | .block body => some (.block body.position.place body.raise)

end

def Item.raise : Item → Document.Item
  | .imports i => .imports i.path i.keyword.position.place
  | .data definition => .data (definition.decl.raise definition.init)
  | .function f =>
    .function f.isIterator f.returns.raw f.name.name
      (f.returns.position.place.beforeIf f.isIterator .iteratorWord) (some f.name.position.place)
      (f.params.map (·.raise none)) f.body.raise
  | .start s => .start s.keyword.position.place s.body.raise

/-- The document that gives this tree. -/
def Program.raise (p : Program) : Document := ⟨p.file, p.items.map Item.raise⟩

/-! ## Documents in full -/

namespace Document

/-- The declaration with the place of its name written out. -/
def Decl.spelled (d : Decl) : Decl :=
  let following := (d.place.behindIf d.isConst .constWord).behind d.type
  { d with namePlace := some (d.namePlace.getD following) }

/-- The declaration as far as it matters for a parameter. -/
def Decl.spelledParam (d : Decl) : Decl := { d.spelled with init := none }

mutual

def Stmt.spelled : Stmt → Stmt
  | .data decl => .data decl.spelled
  | .branch place cond body otherwise =>
    .branch place cond (Stmt.spelledList body) (Stmt.spelledOption otherwise)
  | .whileLoop place cond body => .whileLoop place cond (Stmt.spelledList body)
  | .doLoop place body cond => .doLoop place (Stmt.spelledList body) cond
  | .block place body => .block place (Stmt.spelledList body)
  | s => s

def Stmt.spelledList : List Stmt → List Stmt
  | [] => []
  | s :: rest => s.spelled :: Stmt.spelledList rest

def Stmt.spelledOption : Option Stmt → Option Stmt
  | none => none
  | some s => some s.spelled

end

def Item.spelled : Item → Item
  | .imports path place => .imports path place
  | .data decl => .data decl.spelled
  | .function isIterator returns name place namePlace params body =>
    .function isIterator returns name place
      (some (namePlace.getD ((place.behindIf isIterator .iteratorWord).behind returns)))
      (params.map Decl.spelledParam) (Stmt.spelledList body)
  | .start place body => .start place (Stmt.spelledList body)

/-- The document with the places of all names written out, and without the initial values of
parameters. -/
def spelled (d : Document) : Document := { d with items := d.items.map Item.spelled }

end Document

/-! ## The builder -/

/-- Where the cursor is. -/
def Builder.place (b : Builder) : Document.Place := ⟨b.line, b.column⟩

namespace Build

variable {α : Type} {b b' : Builder}

theorem token_placed {kind : TokenKind} {raw : String} {t : Token}
    (h : (token kind raw).run b = .ok t b') :
    t.raw = raw ∧ t.position.place = b.place ∧ b'.place = b.place.behind raw ∧ b'.file = b.file := by
  simp only [token, advance?, EStateM.run_bind, EStateM.run_get] at h
  split at h
  · cases h
  · rename_i column hcolumn
    split at hcolumn
    · cases hcolumn
      cases h
      refine ⟨rfl, rfl, ?_, rfl⟩
      show Document.Place.mk _ (UInt32.ofNat (b.column.toNat + raw.length + 1)) = _
      rw [Nat.add_assoc, UInt32.ofNat_add, UInt32.ofNat_toNat]
      rfl
    · cases hcolumn

theorem identifier_placed {name : String} {i : Identifier}
    (h : (identifier name).run b = .ok i b') :
    i.name = name ∧ i.position.place = b.place ∧ b'.file = b.file := by
  obtain ⟨t, b₁, ht, h⟩ := bind_ok.mp h
  obtain ⟨rfl, rfl⟩ := pure_ok.mp h
  obtain ⟨-, hplace, -, hfile⟩ := token_placed ht
  exact ⟨rfl, hplace, hfile⟩

end Build

namespace Document

variable {α : Type} {b b' : Builder}

theorem moveTo_placed {place : Place} {x : Build α} {r : α}
    (h : (do moveTo place; x : Build α).run b = .ok r b') :
    ∃ b₁ : Builder, b₁.place = place ∧ b₁.file = b.file ∧ x.run b₁ = .ok r b' :=
  ⟨{ b with line := place.line, column := place.column }, rfl, rfl, h⟩

/-- A node with one token, at the place that was given for it. -/
theorem numbered_placed {place : Place} {kind : TokenKind} {raw : String}
    {make : Token → NodeId → α} {r : α}
    (h : (do moveTo place; let t ← Build.token kind raw; return make t (← Build.fresh) : Build α).run b
      = .ok r b') :
    ∃ t n, r = make t n ∧ t.raw = raw ∧ t.position.place = place ∧ b'.file = b.file := by
  obtain ⟨b₁, hb, hfile₁, h⟩ := moveTo_placed h
  obtain ⟨t, b₂, ht, h⟩ := Build.bind_ok.mp h
  obtain ⟨n, b₃, hn, h⟩ := Build.bind_ok.mp h
  obtain ⟨rfl, rfl⟩ := Build.pure_ok.mp h
  cases hn
  obtain ⟨hraw, hplace, -, hfile⟩ := Build.token_placed ht
  exact ⟨t, _, rfl, hraw, hplace.trans hb, hfile.trans hfile₁⟩

/-- A variable or a call, with its name at the place that was given for it. -/
theorem reference_placed {place : Place} {name : String} {make : Identifier → NodeId → NodeId → α}
    {r : α}
    (h : (do
      moveTo place
      let i ← Build.identifier name
      let node ← Build.fresh
      return make i (← Build.fresh) node : Build α).run b = .ok r b') :
    ∃ i n node, r = make i n node ∧ i.name = name ∧ i.position.place = place ∧ b'.file = b.file := by
  obtain ⟨b₁, hb, hfile₁, h⟩ := moveTo_placed h
  obtain ⟨i, b₂, hi, h⟩ := Build.bind_ok.mp h
  obtain ⟨node, b₃, hnode, h⟩ := Build.bind_ok.mp h
  obtain ⟨n, b₄, hn, h⟩ := Build.bind_ok.mp h
  obtain ⟨rfl, rfl⟩ := Build.pure_ok.mp h
  cases hnode
  cases hn
  obtain ⟨hname, hplace, hfile⟩ := Build.identifier_placed hi
  exact ⟨i, _, _, rfl, hname, hplace.trans hb, hfile.trans hfile₁⟩

/-- A node with a keyword and no number. -/
theorem keyword_placed {place : Place} {kind : TokenKind} {make : Token → α} {r : α}
    (h : (do moveTo place; let t ← Build.keyword kind; return make t : Build α).run b = .ok r b') :
    ∃ t, r = make t ∧ t.position.place = place ∧ b'.file = b.file := by
  obtain ⟨b₁, hb, hfile₁, h⟩ := moveTo_placed h
  obtain ⟨t, b₂, ht, h⟩ := Build.bind_ok.mp h
  obtain ⟨rfl, rfl⟩ := Build.pure_ok.mp h
  obtain ⟨-, hplace, -, hfile⟩ := Build.token_placed ht
  exact ⟨t, rfl, hplace.trans hb, hfile.trans hfile₁⟩

/-- What declarations and functions begin with: perhaps a keyword, the name of a type, and a name. -/
theorem header_placed {front : Bool} {kind : TokenKind} {place : Place} {type name : String}
    {namePlace : Option Place} {rest : Token → Identifier → Build α} {r : α}
    (h : (do
        moveTo place
        if front then { let _ ← Build.keyword kind }
        let t ← Build.typeName type
        let i ← lowerName name namePlace
        rest t i : Build α).run b = .ok r b') :
    ∃ t i b₁, (rest t i).run b₁ = .ok r b' ∧ b₁.file = b.file ∧ t.raw = type ∧
      t.position.place = place.behindIf front kind ∧ i.name = name ∧
      i.position.place = namePlace.getD ((place.behindIf front kind).behind type) := by
  obtain ⟨b₁, hb₁, hfile₁, h⟩ := moveTo_placed h
  -- with or without the keyword, the name of the type stands where the cursor is then
  have hfront : ∃ b₂ : Builder, b₂.place = place.behindIf front kind ∧ b₂.file = b.file ∧
      (do let t ← Build.typeName type
          let i ← lowerName name namePlace
          rest t i : Build α).run b₂ = .ok r b' := by
    cases front with
    | false => exact ⟨b₁, hb₁, hfile₁, h⟩
    | true =>
      obtain ⟨t, b₂, ht, h⟩ := Build.bind_ok.mp h
      obtain ⟨-, -, hplace, hfile⟩ := Build.token_placed ht
      rw [hb₁] at hplace
      exact ⟨b₂, hplace, hfile.trans hfile₁, h⟩
  obtain ⟨b₂, hb₂, hfile₂, h⟩ := hfront
  obtain ⟨t, b₃, ht, h⟩ := Build.bind_ok.mp h
  obtain ⟨hraw, hplace, hb₃, hfile₃⟩ := Build.token_placed ht
  obtain ⟨i, b₄, hi, h⟩ := Build.bind_ok.mp h
  have hname : i.name = name ∧ i.position.place = namePlace.getD b₃.place ∧ b₄.file = b₃.file := by
    cases namePlace with
    | none => exact Build.identifier_placed hi
    | some other =>
      obtain ⟨b₅, hb₅, hfile₅, hi⟩ := moveTo_placed hi
      obtain ⟨hname, hplace, hfile⟩ := Build.identifier_placed hi
      exact ⟨hname, hplace.trans hb₅, hfile.trans hfile₅⟩
  refine ⟨t, i, b₄, h, ?_, hraw, hplace.trans hb₂, hname.1, ?_⟩
  · rw [hname.2.2, hfile₃, hfile₂]
  · rw [hname.2.1, hb₃, hb₂]

/-! ## Expressions -/

theorem literalKind_ok {word : String} {kind : TokenKind} {type : Ty}
    (h : literalKind word = .ok (kind, type)) : type.text = word := by
  unfold literalKind at h
  split at h
  · cases h; rfl
  · cases h; rfl
  · cases h; rfl
  · cases h; rfl
  · cases h

theorem binaryOp_ok {text : String} {op : BinaryOp} (h : binaryOp text = .ok op) :
    op.text = text := by
  unfold binaryOp at h
  split at h
  · rename_i op' hop
    cases h
    have hfound := List.find?_some hop
    exact eq_of_beq hfound
  · cases h

theorem unaryOp_ok {text : String} {op : UnaryOp} (h : unaryOp text = .ok op) :
    op.text = text := by
  unfold unaryOp at h
  split at h
  · rename_i op' hop
    cases h
    have hfound := List.find?_some hop
    exact eq_of_beq hfound
  · cases h

mutual

/-- An expression comes back as it was. The builder stays in its file. -/
theorem Expr.raise_lower : ∀ (d : Expr) {b b' : Builder} {e : Semant.Expr},
    d.lower.run b = .ok e b' → e.raise = d ∧ b'.file = b.file
  | .literal type value place, b, b', e, h => by
    -- Of the type's name the tree keeps the type, whose text is the name again.
    obtain ⟨⟨kind, type'⟩, b₁, hk, h⟩ := Build.bind_ok.mp h
    obtain ⟨hkind, rfl⟩ := Build.ofExcept_ok.mp hk
    obtain ⟨t, n, rfl, hraw, hplace, hfile⟩ := numbered_placed h
    refine ⟨?_, hfile⟩
    rw [Semant.Expr.raise, hraw, hplace, ← literalKind_ok hkind]
    rfl
  | .var name place, b, b', e, h => by
    obtain ⟨i, n, node, rfl, hname, hplace, hfile⟩ := reference_placed h
    exact ⟨by rw [Semant.Expr.raise, hname, hplace], hfile⟩
  | .call name place args, b, b', e, h => by
    obtain ⟨args', b₁, ha, h⟩ := Build.bind_ok.mp h
    obtain ⟨i, n, node, rfl, hname, hplace, hfile⟩ := reference_placed h
    obtain ⟨hargs, hfile₁⟩ := Expr.raise_lowerList args ha
    exact ⟨by rw [Semant.Expr.raise, hname, hplace, hargs], hfile.trans hfile₁⟩
  | .binary op place lhs rhs, b, b', e, h => by
    obtain ⟨op', b₁, hop, h⟩ := Build.bind_ok.mp h
    obtain ⟨hop', rfl⟩ := Build.ofExcept_ok.mp hop
    obtain ⟨l, b₂, hl, h⟩ := Build.bind_ok.mp h
    obtain ⟨r, b₃, hr, h⟩ := Build.bind_ok.mp h
    obtain ⟨t, n, rfl, -, hplace, hfile⟩ := numbered_placed h
    obtain ⟨hlhs, hfile₁⟩ := lhs.raise_lower hl
    obtain ⟨hrhs, hfile₂⟩ := rhs.raise_lower hr
    refine ⟨?_, hfile.trans (hfile₂.trans hfile₁)⟩
    rw [Semant.Expr.raise, binaryOp_ok hop', hplace, hlhs, hrhs]
  | .unary op place operand, b, b', e, h => by
    obtain ⟨op', b₁, hop, h⟩ := Build.bind_ok.mp h
    obtain ⟨hop', rfl⟩ := Build.ofExcept_ok.mp hop
    obtain ⟨x, b₂, hx, h⟩ := Build.bind_ok.mp h
    obtain ⟨t, n, rfl, -, hplace, hfile⟩ := numbered_placed h
    obtain ⟨hoperand, hfile₁⟩ := operand.raise_lower hx
    refine ⟨?_, hfile.trans hfile₁⟩
    rw [Semant.Expr.raise, unaryOp_ok hop', hplace, hoperand]
  | .cast type place operand, b, b', e, h => by
    obtain ⟨x, b₁, hx, h⟩ := Build.bind_ok.mp h
    obtain ⟨t, n, rfl, hraw, hplace, hfile⟩ := numbered_placed h
    obtain ⟨hoperand, hfile₁⟩ := operand.raise_lower hx
    refine ⟨?_, hfile.trans hfile₁⟩
    rw [Semant.Expr.raise, hraw, hplace, hoperand]
  | .group value, b, b', e, h => by
    obtain ⟨x, b₁, hx, h⟩ := Build.bind_ok.mp h
    obtain ⟨n, b₂, hf, h⟩ := Build.bind_ok.mp h
    obtain ⟨rfl, rfl⟩ := Build.pure_ok.mp h
    cases hf
    obtain ⟨hvalue, hfile⟩ := value.raise_lower hx
    exact ⟨by rw [Semant.Expr.raise, hvalue], hfile⟩
  | .format text place args, b, b', e, h => by
    obtain ⟨args', b₁, ha, h⟩ := Build.bind_ok.mp h
    obtain ⟨t, n, rfl, hraw, hplace, hfile⟩ := numbered_placed h
    obtain ⟨hargs, hfile₁⟩ := Expr.raise_lowerList args ha
    exact ⟨by rw [Semant.Expr.raise, hraw, hplace, hargs], hfile.trans hfile₁⟩

theorem Expr.raise_lowerList : ∀ (ds : List Expr) {b b' : Builder} {es : List Semant.Expr},
    (Expr.lowerList ds).run b = .ok es b' → Semant.Expr.raiseList es = ds ∧ b'.file = b.file
  | [], b, b', es, h => by
    obtain ⟨rfl, rfl⟩ := Build.pure_ok.mp h
    exact ⟨rfl, rfl⟩
  | d :: rest, b, b', es, h => by
    obtain ⟨e, b₁, he, h⟩ := Build.bind_ok.mp h
    obtain ⟨es', b₂, hr, h⟩ := Build.bind_ok.mp h
    obtain ⟨rfl, rfl⟩ := Build.pure_ok.mp h
    obtain ⟨hfirst, hfile₁⟩ := d.raise_lower he
    obtain ⟨hrest, hfile₂⟩ := Expr.raise_lowerList rest hr
    exact ⟨by rw [Semant.Expr.raiseList, hfirst, hrest], hfile₂.trans hfile₁⟩

end

theorem Expr.raise_lowerOption (d : Option Expr) {e : Option Semant.Expr}
    (h : (Expr.lowerOption d).run b = .ok e b') :
    e.map Semant.Expr.raise = d ∧ b'.file = b.file := by
  cases d with
  | none =>
    obtain ⟨rfl, rfl⟩ := Build.pure_ok.mp h
    exact ⟨rfl, rfl⟩
  | some d =>
    obtain ⟨x, b₁, hx, h⟩ := Build.bind_ok.mp h
    obtain ⟨rfl, rfl⟩ := Build.pure_ok.mp h
    obtain ⟨hraise, hfile⟩ := d.raise_lower hx
    exact ⟨by rw [Option.map_some, hraise], hfile⟩

/-! ## Declarations -/

/-- A declaration comes back with the place of its name. Its initial value is built apart. -/
theorem Decl.raise_lower {d : Decl} {r : Semant.Decl} (h : d.lower.run b = .ok r b')
    (init : Option Semant.Expr) :
    r.raise init = { d.spelled with init := init.map Semant.Expr.raise } ∧ b'.file = b.file := by
  obtain ⟨t, i, b₁, h, hfile, hraw, hplace, hname, hnamePlace⟩ := header_placed h
  obtain ⟨n, b₂, hn, h⟩ := Build.bind_ok.mp h
  obtain ⟨rfl, rfl⟩ := Build.pure_ok.mp h
  cases hn
  refine ⟨?_, hfile⟩
  rw [Semant.Decl.raise, hraw, hplace, hname, hnamePlace, Place.beforeIf_behindIf]
  rfl

theorem Decl.raise_lowerData {d : Decl} {r : DataDef} (h : d.lowerData.run b = .ok r b') :
    r.decl.raise r.init = d.spelled ∧ b'.file = b.file := by
  obtain ⟨decl, b₁, hd, h⟩ := Build.bind_ok.mp h
  obtain ⟨init, b₂, hi, h⟩ := Build.bind_ok.mp h
  obtain ⟨rfl, rfl⟩ := Build.pure_ok.mp h
  obtain ⟨hdecl, hfile₁⟩ := Decl.raise_lower hd init
  obtain ⟨hinit, hfile₂⟩ := Expr.raise_lowerOption d.init hi
  refine ⟨?_, hfile₂.trans hfile₁⟩
  rw [hdecl, hinit]
  rfl

theorem Decl.raise_lowerList : ∀ (ds : List Decl) {b b' : Builder} {rs : List Semant.Decl},
    (Decl.lowerList ds).run b = .ok rs b' →
      rs.map (·.raise none) = ds.map Decl.spelledParam ∧ b'.file = b.file
  | [], b, b', rs, h => by
    obtain ⟨rfl, rfl⟩ := Build.pure_ok.mp h
    exact ⟨rfl, rfl⟩
  | d :: rest, b, b', rs, h => by
    obtain ⟨r, b₁, hd, h⟩ := Build.bind_ok.mp h
    obtain ⟨rs', b₂, hr, h⟩ := Build.bind_ok.mp h
    obtain ⟨rfl, rfl⟩ := Build.pure_ok.mp h
    obtain ⟨hfirst, hfile₁⟩ := Decl.raise_lower hd none
    obtain ⟨hrest, hfile₂⟩ := Decl.raise_lowerList rest hr
    exact ⟨by rw [List.map_cons, List.map_cons, hfirst, hrest]; rfl, hfile₂.trans hfile₁⟩

/-! ## Statements -/

theorem raise_lowerBlock {place : Place} {body : Build (List Semant.Stmt)} {stmts : List Stmt}
    {r : Block}
    (hbody : ∀ {b b' : Builder} {ss : List Semant.Stmt}, body.run b = .ok ss b' →
      Semant.Stmt.raiseList ss = stmts ∧ b'.file = b.file)
    (h : (lowerBlock place body).run b = .ok r b') :
    r.raise = stmts ∧ r.position.place = place ∧ b'.file = b.file := by
  obtain ⟨ss, b₁, hs, h⟩ := Build.bind_ok.mp h
  obtain ⟨t, n, rfl, -, hplace, hfile⟩ := numbered_placed h
  obtain ⟨hraise, hfile₁⟩ := hbody hs
  exact ⟨hraise, hplace, hfile.trans hfile₁⟩

theorem raise_lowerConditional {place : Place} {cond : Build Semant.Expr} {body : Build Block}
    {otherwise : Build Else} {r : Conditional} {cond' : Expr} {body' : List Stmt}
    {otherwise' : Option Stmt}
    (hcond : ∀ {b b' : Builder} {e : Semant.Expr}, cond.run b = .ok e b' →
      e.raise = cond' ∧ b'.file = b.file)
    (hbody : ∀ {b b' : Builder} {e : Block}, body.run b = .ok e b' →
      e.raise = body' ∧ e.position.place = place ∧ b'.file = b.file)
    (helse : ∀ {b b' : Builder} {e : Else}, otherwise.run b = .ok e b' →
      e.raise = otherwise' ∧ b'.file = b.file)
    (h : (lowerConditional place cond body otherwise).run b = .ok r b') :
    r.raise = .branch place cond' body' otherwise' ∧ b'.file = b.file := by
  obtain ⟨c, b₁, hc, h⟩ := Build.bind_ok.mp h
  obtain ⟨y, b₂, hy, h⟩ := Build.bind_ok.mp h
  obtain ⟨z, b₃, hz, h⟩ := Build.bind_ok.mp h
  obtain ⟨t, rfl, hplace, hfile⟩ := keyword_placed h
  obtain ⟨hc', hfile₁⟩ := hcond hc
  obtain ⟨hy', -, hfile₂⟩ := hbody hy
  obtain ⟨hz', hfile₃⟩ := helse hz
  refine ⟨?_, hfile.trans (hfile₃.trans (hfile₂.trans hfile₁))⟩
  rw [Conditional.raise, hplace, hc', hy', hz']

mutual

/-- A statement comes back with the places of its names. -/
theorem Stmt.raise_lower : ∀ (d : Stmt) {b b' : Builder} {s : Semant.Stmt},
    d.lower.run b = .ok s b' → s.raise = d.spelled ∧ b'.file = b.file
  | .data decl, b, b', s, h => by
    obtain ⟨x, b₁, hx, h⟩ := Build.bind_ok.mp h
    obtain ⟨rfl, rfl⟩ := Build.pure_ok.mp h
    obtain ⟨hdata, hfile⟩ := Decl.raise_lowerData hx
    exact ⟨by rw [Semant.Stmt.raise, hdata]; rfl, hfile⟩
  | .assign name place value, b, b', s, h => by
    obtain ⟨x, b₁, hx, h⟩ := Build.bind_ok.mp h
    -- The value is built before the name, so the builder has to go back.
    obtain ⟨b₂, hb₂, hfile₂, h⟩ := moveTo_placed h
    obtain ⟨a, b₃, ha, h⟩ := Build.bind_ok.mp h
    obtain ⟨rfl, rfl⟩ := Build.pure_ok.mp h
    obtain ⟨i, b₄, hi, ha⟩ := Build.bind_ok.mp ha
    obtain ⟨n, b₅, hn, ha⟩ := Build.bind_ok.mp ha
    obtain ⟨rfl, rfl⟩ := Build.pure_ok.mp ha
    cases hn
    obtain ⟨hname, hplace, hfile⟩ := Build.identifier_placed hi
    obtain ⟨hvalue, hfile₁⟩ := value.raise_lower hx
    refine ⟨?_, hfile.trans (hfile₂.trans hfile₁)⟩
    rw [Semant.Stmt.raise, hname, hplace, hb₂, hvalue]
    rfl
  | .expr value, b, b', s, h => by
    obtain ⟨x, b₁, hx, h⟩ := Build.bind_ok.mp h
    obtain ⟨rfl, rfl⟩ := Build.pure_ok.mp h
    obtain ⟨hvalue, hfile⟩ := value.raise_lower hx
    exact ⟨by rw [Semant.Stmt.raise, hvalue]; rfl, hfile⟩
  | .branch place cond body otherwise, b, b', s, h => by
    obtain ⟨x, b₁, hx, h⟩ := Build.bind_ok.mp h
    obtain ⟨rfl, rfl⟩ := Build.pure_ok.mp h
    exact raise_lowerConditional cond.raise_lower (raise_lowerBlock (Stmt.raise_lowerList body))
      (Stmt.raise_lowerElse place otherwise) hx
  | .whileLoop place cond body, b, b', s, h => by
    obtain ⟨c, b₁, hc, h⟩ := Build.bind_ok.mp h
    obtain ⟨y, b₂, hy, h⟩ := Build.bind_ok.mp h
    obtain ⟨t, rfl, hplace, hfile⟩ := keyword_placed h
    obtain ⟨hcond, hfile₁⟩ := Expr.raise_lowerOption cond hc
    obtain ⟨hbody, -, hfile₂⟩ := raise_lowerBlock (Stmt.raise_lowerList body) hy
    refine ⟨?_, hfile.trans (hfile₂.trans hfile₁)⟩
    rw [Semant.Stmt.raise, hplace, hcond, hbody]
    rfl
  | .doLoop place body cond, b, b', s, h => by
    obtain ⟨y, b₁, hy, h⟩ := Build.bind_ok.mp h
    obtain ⟨c, b₂, hc, h⟩ := Build.bind_ok.mp h
    obtain ⟨t, rfl, hplace, hfile⟩ := keyword_placed h
    obtain ⟨hbody, -, hfile₁⟩ := raise_lowerBlock (Stmt.raise_lowerList body) hy
    obtain ⟨hcond, hfile₂⟩ := Expr.raise_lowerOption cond hc
    refine ⟨?_, hfile.trans (hfile₂.trans hfile₁)⟩
    rw [Semant.Stmt.raise, hplace, hcond, hbody]
    rfl
  | .ret place value, b, b', s, h => by
    obtain ⟨x, b₁, hx, h⟩ := Build.bind_ok.mp h
    obtain ⟨t, rfl, hplace, hfile⟩ := keyword_placed h
    obtain ⟨hvalue, hfile₁⟩ := Expr.raise_lowerOption value hx
    exact ⟨by rw [Semant.Stmt.raise, hplace, hvalue]; rfl, hfile.trans hfile₁⟩
  | .yield place value, b, b', s, h => by
    obtain ⟨x, b₁, hx, h⟩ := Build.bind_ok.mp h
    obtain ⟨t, rfl, hplace, hfile⟩ := keyword_placed h
    obtain ⟨hvalue, hfile₁⟩ := Expr.raise_lowerOption value hx
    exact ⟨by rw [Semant.Stmt.raise, hplace, hvalue]; rfl, hfile.trans hfile₁⟩
  | .brk place, b, b', s, h | .cont place, b, b', s, h | .inline place text, b, b', s, h => by
    obtain ⟨t, rfl, hplace, hfile⟩ := keyword_placed h
    exact ⟨by rw [Semant.Stmt.raise, hplace]; rfl, hfile⟩
  | .block place body, b, b', s, h => by
    obtain ⟨x, b₁, hx, h⟩ := Build.bind_ok.mp h
    obtain ⟨rfl, rfl⟩ := Build.pure_ok.mp h
    obtain ⟨hbody, hplace, hfile⟩ := raise_lowerBlock (Stmt.raise_lowerList body) hx
    exact ⟨by rw [Semant.Stmt.raise, hplace, hbody]; rfl, hfile⟩

theorem Stmt.raise_lowerList : ∀ (ds : List Stmt) {b b' : Builder} {ss : List Semant.Stmt},
    (Stmt.lowerList ds).run b = .ok ss b' →
      Semant.Stmt.raiseList ss = Stmt.spelledList ds ∧ b'.file = b.file
  | [], b, b', ss, h => by
    obtain ⟨rfl, rfl⟩ := Build.pure_ok.mp h
    exact ⟨rfl, rfl⟩
  | d :: rest, b, b', ss, h => by
    obtain ⟨s, b₁, hs, h⟩ := Build.bind_ok.mp h
    obtain ⟨ss', b₂, hr, h⟩ := Build.bind_ok.mp h
    obtain ⟨rfl, rfl⟩ := Build.pure_ok.mp h
    obtain ⟨hfirst, hfile₁⟩ := d.raise_lower hs
    obtain ⟨hrest, hfile₂⟩ := Stmt.raise_lowerList rest hr
    exact ⟨by rw [Semant.Stmt.raiseList, hfirst, hrest]; rfl, hfile₂.trans hfile₁⟩

theorem Stmt.raise_lowerElse (place : Place) : ∀ (d : Option Stmt) {b b' : Builder} {e : Else},
    (Stmt.lowerElse place d).run b = .ok e b' →
      e.raise = Stmt.spelledOption d ∧ b'.file = b.file
  | none, b, b', e, h => by
    obtain ⟨rfl, rfl⟩ := Build.pure_ok.mp h
    exact ⟨rfl, rfl⟩
  | some (.branch next cond body otherwise), b, b', e, h => by
    obtain ⟨x, b₁, hx, h⟩ := Build.bind_ok.mp h
    obtain ⟨rfl, rfl⟩ := Build.pure_ok.mp h
    obtain ⟨hraise, hfile⟩ := raise_lowerConditional cond.raise_lower
      (raise_lowerBlock (Stmt.raise_lowerList body)) (Stmt.raise_lowerElse next otherwise) hx
    exact ⟨by rw [Else.raise, hraise]; rfl, hfile⟩
  | some (.block next body), b, b', e, h => by
    obtain ⟨x, b₁, hx, h⟩ := Build.bind_ok.mp h
    obtain ⟨rfl, rfl⟩ := Build.pure_ok.mp h
    obtain ⟨hbody, hplace, hfile⟩ := raise_lowerBlock (Stmt.raise_lowerList body) hx
    exact ⟨by rw [Else.raise, hplace, hbody]; rfl, hfile⟩
  | some (.data _), _, _, _, h | some (.assign ..), _, _, _, h | some (.expr _), _, _, _, h
  | some (.whileLoop ..), _, _, _, h | some (.doLoop ..), _, _, _, h | some (.ret ..), _, _, _, h
  | some (.yield ..), _, _, _, h | some (.brk _), _, _, _, h | some (.cont _), _, _, _, h
  | some (.inline ..), _, _, _, h => by cases h

end

/-! ## Programs -/

theorem Item.raise_lower (d : Item) {item : Semant.Item} (h : d.lower.run b = .ok item b') :
    item.raise = d.spelled ∧ b'.file = b.file := by
  cases d with
  | imports path place =>
    obtain ⟨b₁, hb, hfile₁, h⟩ := moveTo_placed h
    obtain ⟨i, b₂, hi, h⟩ := Build.bind_ok.mp h
    obtain ⟨rfl, rfl⟩ := Build.pure_ok.mp h
    obtain ⟨t, b₃, ht, hi⟩ := Build.bind_ok.mp hi
    obtain ⟨rfl, rfl⟩ := Build.pure_ok.mp hi
    obtain ⟨-, hplace, -, hfile⟩ := Build.token_placed ht
    exact ⟨by rw [Semant.Item.raise, hplace, hb]; rfl, hfile.trans hfile₁⟩
  | data decl =>
    obtain ⟨x, b₁, hx, h⟩ := Build.bind_ok.mp h
    obtain ⟨rfl, rfl⟩ := Build.pure_ok.mp h
    obtain ⟨hdata, hfile⟩ := Decl.raise_lowerData hx
    exact ⟨by rw [Semant.Item.raise, hdata]; rfl, hfile⟩
  | function isIterator returns name place namePlace params body =>
    obtain ⟨t, i, b₁, h, hfile₁, hraw, hplace, hname, hnamePlace⟩ := header_placed h
    obtain ⟨ps, b₂, hps, h⟩ := Build.bind_ok.mp h
    obtain ⟨y, b₃, hy, h⟩ := Build.bind_ok.mp h
    obtain ⟨f, b₄, hf, h⟩ := Build.bind_ok.mp h
    obtain ⟨rfl, rfl⟩ := Build.pure_ok.mp h
    obtain ⟨n, b₅, hn, hf⟩ := Build.bind_ok.mp hf
    obtain ⟨rfl, rfl⟩ := Build.pure_ok.mp hf
    cases hn
    obtain ⟨hparams, hfile₂⟩ := Decl.raise_lowerList params hps
    obtain ⟨hbody, -, hfile₃⟩ := raise_lowerBlock (Stmt.raise_lowerList body) hy
    refine ⟨?_, hfile₃.trans (hfile₂.trans hfile₁)⟩
    -- The place is that of the return type, or that of the keyword in front of it.
    rw [Semant.Item.raise, hraw, hplace, hname, hnamePlace, hparams, hbody,
      Place.beforeIf_behindIf]
    rfl
  | start place body =>
    obtain ⟨y, b₁, hy, h⟩ := Build.bind_ok.mp h
    obtain ⟨b₂, hb, hfile₂, h⟩ := moveTo_placed h
    obtain ⟨s, b₃, hs, h⟩ := Build.bind_ok.mp h
    obtain ⟨rfl, rfl⟩ := Build.pure_ok.mp h
    obtain ⟨t, b₄, ht, hs⟩ := Build.bind_ok.mp hs
    obtain ⟨rfl, rfl⟩ := Build.pure_ok.mp hs
    obtain ⟨-, hplace, -, hfile⟩ := Build.token_placed ht
    obtain ⟨hbody, -, hfile₁⟩ := raise_lowerBlock (Stmt.raise_lowerList body) hy
    refine ⟨?_, hfile.trans (hfile₂.trans hfile₁)⟩
    rw [Semant.Item.raise, hplace, hb, hbody]
    rfl

theorem Item.raise_lowerList : ∀ (ds : List Item) {b b' : Builder} {items : List Semant.Item},
    (Item.lowerList ds).run b = .ok items b' →
      items.map Semant.Item.raise = ds.map Item.spelled ∧ b'.file = b.file
  | [], b, b', items, h => by
    obtain ⟨rfl, rfl⟩ := Build.pure_ok.mp h
    exact ⟨rfl, rfl⟩
  | d :: rest, b, b', items, h => by
    obtain ⟨item, b₁, hi, h⟩ := Build.bind_ok.mp h
    obtain ⟨items', b₂, hr, h⟩ := Build.bind_ok.mp h
    obtain ⟨rfl, rfl⟩ := Build.pure_ok.mp h
    obtain ⟨hfirst, hfile₁⟩ := d.raise_lower hi
    obtain ⟨hrest, hfile₂⟩ := Item.raise_lowerList rest hr
    exact ⟨by rw [List.map_cons, List.map_cons, hfirst, hrest], hfile₂.trans hfile₁⟩

/-- A whole document comes back. -/
theorem raise_lower {d : Document} {p : Program} (hb : b.file = d.file)
    (h : d.lower.run b = .ok p b') : p.raise = d.spelled := by
  obtain ⟨items, b₁, hi, h⟩ := Build.bind_ok.mp h
  obtain ⟨b₂, b₃, hget, h⟩ := Build.bind_ok.mp h
  cases hget
  obtain ⟨n, b₄, hn, h⟩ := Build.bind_ok.mp h
  obtain ⟨rfl, rfl⟩ := Build.pure_ok.mp h
  obtain ⟨hitems, hfile⟩ := Item.raise_lowerList d.items hi
  rw [Program.raise, hitems, hfile, hb]
  rfl

end Document

/-! ## Numbers of nodes

The number of a node says nothing but which node it is, and it depends on what was built before. -/

mutual

/-- The expression with all numbers forgotten. -/
def Expr.unnumbered : Expr → Expr
  | .literal _ token given => .literal 0 token given
  | .var _ _ name => .var 0 0 name
  | .call _ _ callee args => .call 0 0 callee (Expr.unnumberedList args)
  | .binary _ op token lhs rhs => .binary 0 op token lhs.unnumbered rhs.unnumbered
  | .unary _ op token operand => .unary 0 op token operand.unnumbered
  | .cast _ target operand => .cast 0 target operand.unnumbered
  | .grouped _ inner => .grouped 0 inner.unnumbered
  | .format _ token args => .format 0 token (Expr.unnumberedList args)

def Expr.unnumberedList : List Expr → List Expr
  | [] => []
  | e :: rest => e.unnumbered :: Expr.unnumberedList rest

end

def Decl.unnumbered (d : Decl) : Decl := { d with id := 0 }

def DataDef.unnumbered (d : DataDef) : DataDef := ⟨d.decl.unnumbered, d.init.map Expr.unnumbered⟩

mutual

def Stmt.unnumbered : Stmt → Stmt
  | .data definition => .data definition.unnumbered
  | .assign a => .assign ⟨0, a.target, a.value.unnumbered⟩
  | .expr value => .expr value.unnumbered
  | .branch conditional => .branch conditional.unnumbered
  | .whileLoop keyword cond body =>
    .whileLoop keyword (cond.map Expr.unnumbered) body.unnumbered
  | .doLoop keyword body cond => .doLoop keyword body.unnumbered (cond.map Expr.unnumbered)
  | .ret keyword value => .ret keyword (value.map Expr.unnumbered)
  | .yield keyword value => .yield keyword (value.map Expr.unnumbered)
  | .brk keyword => .brk keyword
  | .cont keyword => .cont keyword
  | .inline keyword text => .inline keyword text
  | .block body => .block body.unnumbered

def Block.unnumbered : Block → Block
  | .mk _ brace body => .mk 0 brace (Stmt.unnumberedList body)

def Stmt.unnumberedList : List Stmt → List Stmt
  | [] => []
  | s :: rest => s.unnumbered :: Stmt.unnumberedList rest

def Conditional.unnumbered : Conditional → Conditional
  | .mk keyword cond body otherwise =>
    .mk keyword cond.unnumbered body.unnumbered otherwise.unnumbered

def Else.unnumbered : Else → Else
  | .none => .none
  | .elseIf next => .elseIf next.unnumbered
  | .block body => .block body.unnumbered

end

def Function.unnumbered (f : Function) : Function :=
  ⟨0, f.isIterator, f.returns, f.name, f.params.map Decl.unnumbered, f.body.unnumbered⟩

def Item.unnumbered : Item → Item
  | .imports i => .imports i
  | .data definition => .data definition.unnumbered
  | .function f => .function f.unnumbered
  | .start s => .start ⟨s.keyword, s.body.unnumbered⟩

/-- The tree with all numbers forgotten. -/
def Program.unnumbered (p : Program) : Program := ⟨0, p.file, p.items.map Item.unnumbered⟩

mutual

theorem Expr.raise_unnumbered : ∀ e : Expr, e.unnumbered.raise = e.raise
  | .literal .. | .var .. => rfl
  | .call _ _ _ args | .format _ _ args => by
    rw [Expr.unnumbered, Expr.raise, Expr.raise, Expr.raise_unnumberedList args]
  | .binary _ _ _ lhs rhs => by
    rw [Expr.unnumbered, Expr.raise, Expr.raise, lhs.raise_unnumbered, rhs.raise_unnumbered]
  | .unary _ _ _ operand | .cast _ _ operand | .grouped _ operand => by
    rw [Expr.unnumbered, Expr.raise, Expr.raise, operand.raise_unnumbered]

theorem Expr.raise_unnumberedList : ∀ es : List Expr,
    Expr.raiseList (Expr.unnumberedList es) = Expr.raiseList es
  | [] => rfl
  | e :: rest => by
    rw [Expr.unnumberedList, Expr.raiseList, Expr.raiseList, e.raise_unnumbered,
      Expr.raise_unnumberedList rest]

end

theorem Expr.raise_unnumberedOption (e : Option Expr) :
    (e.map Expr.unnumbered).map Expr.raise = e.map Expr.raise := by
  cases e with
  | none => rfl
  | some e => exact congrArg some e.raise_unnumbered

theorem DataDef.raise_unnumbered (d : DataDef) :
    d.unnumbered.decl.raise d.unnumbered.init = d.decl.raise d.init := by
  unfold DataDef.unnumbered Decl.raise
  rw [Expr.raise_unnumberedOption]
  rfl

mutual

theorem Stmt.raise_unnumbered : ∀ s : Stmt, s.unnumbered.raise = s.raise
  | .data definition => by
    rw [Stmt.unnumbered, Stmt.raise, Stmt.raise, definition.raise_unnumbered]
  | .assign a => by rw [Stmt.unnumbered, Stmt.raise, Stmt.raise, a.value.raise_unnumbered]
  | .expr value => by rw [Stmt.unnumbered, Stmt.raise, Stmt.raise, value.raise_unnumbered]
  | .branch conditional => conditional.raise_unnumbered
  | .whileLoop _ cond body | .doLoop _ body cond => by
    rw [Stmt.unnumbered, Stmt.raise, Stmt.raise, Expr.raise_unnumberedOption, body.raise_unnumbered]
  | .ret _ value | .yield _ value => by
    rw [Stmt.unnumbered, Stmt.raise, Stmt.raise, Expr.raise_unnumberedOption]
  | .brk _ | .cont _ | .inline _ _ => rfl
  | .block body => by
    rw [Stmt.unnumbered, Stmt.raise, Stmt.raise, body.raise_unnumbered, body.position_unnumbered]

theorem Block.raise_unnumbered : ∀ b : Block, b.unnumbered.raise = b.raise
  | .mk _ _ body => by
    rw [Block.unnumbered, Block.raise, Block.raise, Stmt.raise_unnumberedList body]

theorem Block.position_unnumbered : ∀ b : Block, b.unnumbered.position = b.position
  | .mk _ _ _ => rfl

theorem Stmt.raise_unnumberedList : ∀ body : List Stmt,
    Stmt.raiseList (Stmt.unnumberedList body) = Stmt.raiseList body
  | [] => rfl
  | s :: rest => by
    rw [Stmt.unnumberedList, Stmt.raiseList, Stmt.raiseList, s.raise_unnumbered,
      Stmt.raise_unnumberedList rest]

theorem Conditional.raise_unnumbered : ∀ c : Conditional, c.unnumbered.raise = c.raise
  | .mk _ cond body otherwise => by
    rw [Conditional.unnumbered, Conditional.raise, Conditional.raise, cond.raise_unnumbered,
      body.raise_unnumbered, otherwise.raise_unnumbered]

theorem Else.raise_unnumbered : ∀ e : Else, e.unnumbered.raise = e.raise
  | .none => rfl
  | .elseIf next => by rw [Else.unnumbered, Else.raise, Else.raise, next.raise_unnumbered]
  | .block body => by
    rw [Else.unnumbered, Else.raise, Else.raise, body.raise_unnumbered, body.position_unnumbered]

end

theorem Item.raise_unnumbered (item : Item) : item.unnumbered.raise = item.raise := by
  cases item with
  | imports i => rfl
  | data definition => exact congrArg Document.Item.data definition.raise_unnumbered
  | function f =>
    have hparams : (f.params.map Decl.unnumbered).map (·.raise none) = f.params.map (·.raise none) := by
      rw [List.map_map]
      rfl
    rw [Item.unnumbered, Item.raise, Item.raise]
    unfold Function.unnumbered
    rw [hparams, f.body.raise_unnumbered]
  | start s => rw [Item.unnumbered, Item.raise, Item.raise, s.body.raise_unnumbered]

/-- What is read off a tree does not depend on the numbers of its nodes. -/
theorem Program.raise_unnumbered (p : Program) : p.unnumbered.raise = p.raise := by
  have hitems : (p.items.map Item.unnumbered).map Item.raise = p.items.map Item.raise := by
    rw [List.map_map]
    exact List.map_congr_left fun item _ => item.raise_unnumbered
  unfold Program.unnumbered Program.raise
  rw [hitems]

/-! ## Documents and trees -/

/-- **Lowering loses nothing.** The tree of a document gives the document back, with the places of all
names written out and without the initial values of parameters. So if two documents have the same tree,
whatever the numbers of its nodes, they differ in nothing else. -/
theorem raise_lower_eq_spelled {d : Document} {p : Program} {b b' : Builder}
    (hb : b.file = d.file) (h : d.lower.run b = .ok p b') :
    p.raise = d.spelled ∧
    ∀ (other : Document) (q : Program) (c c' : Builder), c.file = other.file →
      other.lower.run c = .ok q c' → q.unnumbered = p.unnumbered → other.spelled = d.spelled := by
  have hraise := Document.raise_lower hb h
  refine ⟨hraise, ?_⟩
  intro other q c c' hc hq hsame
  rw [← hraise, ← Document.raise_lower hc hq, ← p.raise_unnumbered, ← q.raise_unnumbered, hsame]

/-- An iterator of which no name has a place, with a parameter that has an initial value. -/
def terse : Document :=
  { file := "terse.dk"
    items :=
      [.function true "int" "steps" ⟨1, 1⟩ none
        [⟨true, "int", "limit", ⟨1, 20⟩, none, some (.literal "int" "10" ⟨1, 34⟩)⟩]
        [.data ⟨false, "int", "i", ⟨2, 3⟩, none, some (.unary "-" ⟨2, 11⟩ (.var "limit" ⟨2, 12⟩))⟩,
          .branch ⟨3, 3⟩ (.binary "<" ⟨3, 8⟩ (.var "i" ⟨3, 6⟩) (.var "limit" ⟨3, 10⟩)) []
            (some (.block ⟨3, 20⟩ [.yield ⟨4, 5⟩ (some (.var "i" ⟨4, 11⟩))]))]] }

/-- The name of the iterator is found behind `iterator int`, and that of its parameter behind
`const int`. -/
theorem terse_raised :
    ∃ p b', terse.lower.run { file := "terse.dk" } = .ok p b' ∧
      p.raise.items =
        [.function true "int" "steps" ⟨1, 1⟩ (some ⟨1, 14⟩)
          [⟨true, "int", "limit", ⟨1, 20⟩, some ⟨1, 30⟩, none⟩]
          [.data ⟨false, "int", "i", ⟨2, 3⟩, some ⟨2, 7⟩,
              some (.unary "-" ⟨2, 11⟩ (.var "limit" ⟨2, 12⟩))⟩,
            .branch ⟨3, 3⟩ (.binary "<" ⟨3, 8⟩ (.var "i" ⟨3, 6⟩) (.var "limit" ⟨3, 10⟩)) []
              (some (.block ⟨3, 20⟩ [.yield ⟨4, 5⟩ (some (.var "i" ⟨4, 11⟩))]))]] := by
  have hsome : (terse.lower.run' { file := "terse.dk" }).isSome := by decide +kernel
  obtain ⟨p, hp⟩ := Option.isSome_iff_exists.mp hsome
  unfold EStateM.run' at hp
  cases h : terse.lower.run { file := "terse.dk" } with
  | error e b' => rw [h] at hp; cases hp
  | ok p b' =>
    obtain ⟨hraise, -⟩ := raise_lower_eq_spelled rfl h
    exact ⟨p, b', rfl, by rw [hraise]; rfl⟩

end Semant
