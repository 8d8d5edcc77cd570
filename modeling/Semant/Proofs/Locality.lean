import Semant.Proofs.Raising

/-!
# Where tokens stand, and what stops a construction

All of a document is built with one cursor, and operands are built before the token of the node they
belong to. Still every token stands where its own node says, and whether a construction ends can be
read off the document. `Document.pieces` lists what is met in building, in order: tokens, each with
its spot, and faults. Columns of spots are numbers without a bound, so the list knows nothing of the
cursor. A construction makes the pieces one after another and stops at the first that it cannot
make: a token that reaches past the last column, or a fault.

`Makes pre x pieces post` says this of the construction `x`. Two constructions after each other make
the pieces of both (`Makes.bind`), so there is one case for every kind of node.
-/

set_option autoImplicit false

namespace Semant.Document

/-! ## Spots and pieces -/

/-- A line, and a column that may be beyond the last one. -/
structure Spot where
  line : UInt32
  column : Nat

def Place.spot (place : Place) : Spot := ⟨place.line, place.column.toNat⟩

/-- The spot so many columns to the right. -/
def Spot.right (spot : Spot) (columns : Nat) : Spot := ⟨spot.line, spot.column + columns⟩

/-- What a document can say that no tree has. -/
inductive Fault where
  | unknownOperator (text : String)
  | unsupportedLiteral (type : String)
  /-- The `else` of the `if` at a place is neither an `if` nor a block. -/
  | invalidElse (place : Place)

/-- How the fault is reported. -/
def Fault.error : Fault → BuildError
  | unknownOperator text => .unknownOperator text
  | unsupportedLiteral type => .unsupportedLiteral type
  | invalidElse place => .invalidElse place.line place.column

/-- What is met in building. -/
inductive Piece where
  | token (spot : Spot) (raw : String)
  | fault (reason : Fault)

/-- A token that leaves room for a blank behind it. -/
def Piece.Fits : Piece → Prop
  | token spot raw => spot.column + raw.length + 1 ≤ 4294967295
  | fault _ => False

/-- Why the piece cannot be made. -/
def Piece.obstacle? : Piece → Option BuildError
  | token spot raw =>
    if spot.column + raw.length + 1 ≤ 4294967295 then none else some .columnOverflow
  | fault reason => some reason.error

/-- Why not all of the pieces can be made one after another. -/
def obstacle? (pieces : List Piece) : Option BuildError :=
  pieces.findSome? Piece.obstacle?

theorem Piece.obstacle?_eq_none {piece : Piece} : piece.obstacle? = none ↔ piece.Fits := by
  cases piece with
  | token spot raw => simp [Piece.obstacle?, Piece.Fits]
  | fault reason => simp [Piece.obstacle?, Piece.Fits]

theorem obstacle?_eq_none {pieces : List Piece} :
    obstacle? pieces = none ↔ ∀ piece ∈ pieces, piece.Fits := by
  simp only [obstacle?, List.findSome?_eq_none_iff, Piece.obstacle?_eq_none]

theorem obstacle?_append (first rest : List Piece) :
    obstacle? (first ++ rest) = (obstacle? first).or (obstacle? rest) :=
  List.findSome?_append

/-- The token of a keyword or a brace. -/
def Piece.keyword (place : Place) (kind : TokenKind) : Piece :=
  .token place.spot kind.text

/-- Where the type's name of a declaration or a function stands whose first token is at the place. If
this token is a keyword, it takes `width` columns with the blank behind it. -/
def typeSpot (place : Place) (keyword : Bool) (width : Nat) : Spot :=
  place.spot.right (if keyword then width else 0)

/-- Where a name stands whose type is written at the spot. -/
def nameSpot (spot : Spot) (type : String) : Option Place → Spot
  | none => spot.right (type.length + 1)
  | some place => place.spot

/-- What declarations and functions begin with. -/
def header (keyword : Bool) (kind : TokenKind) (width : Nat) (place : Place) (type name : String)
    (namePlace : Option Place) : List Piece :=
  (if keyword then [.keyword place kind] else []) ++
    [.token (typeSpot place keyword width) type,
      .token (nameSpot (typeSpot place keyword width) type namePlace) name]

mutual

/-- The pieces of an expression. What is wrong with the node itself is met before its operands, and
its token after them. -/
def Expr.pieces : Expr → List Piece
  | .literal type value place =>
    (if type ∈ ["int", "float", "string", "bool"] then [] else [.fault (.unsupportedLiteral type)])
      ++ [.token place.spot value]
  | .var name place => [.token place.spot name]
  | .call name place args => Expr.piecesList args ++ [.token place.spot name]
  | .binary op place lhs rhs =>
    (if (BinaryOp.ofText? op).isSome then [] else [.fault (.unknownOperator op)])
      ++ lhs.pieces ++ rhs.pieces ++ [.token place.spot op]
  | .unary op place operand =>
    (if (UnaryOp.ofText? op).isSome then [] else [.fault (.unknownOperator op)])
      ++ operand.pieces ++ [.token place.spot op]
  | .cast type place operand => operand.pieces ++ [.token place.spot type]
  | .group value => value.pieces
  | .format text place args => Expr.piecesList args ++ [.token place.spot text]

def Expr.piecesList : List Expr → List Piece
  | [] => []
  | e :: rest => e.pieces ++ Expr.piecesList rest

end

def Expr.piecesOption : Option Expr → List Piece
  | none => []
  | some e => e.pieces

/-- The pieces of a declaration without its initial value. The keyword `const` and a blank take six
columns. -/
def Decl.pieces (d : Decl) : List Piece :=
  header d.isConst .constWord 6 d.place d.type d.name d.namePlace

def Decl.piecesList : List Decl → List Piece
  | [] => []
  | d :: rest => d.pieces ++ Decl.piecesList rest

def Decl.piecesData (d : Decl) : List Piece := d.pieces ++ Expr.piecesOption d.init

/-- The pieces of a block with statements of these pieces. -/
def blockPieces (place : Place) (body : List Piece) : List Piece :=
  body ++ [.keyword place .leftBrace]

/-- The pieces of a conditional with parts of these pieces. -/
def conditionalPieces (place : Place) (cond body otherwise : List Piece) : List Piece :=
  cond ++ blockPieces place body ++ otherwise ++ [.keyword place .ifWord]

mutual

/-- The pieces of a statement. Its keyword is the last of them. -/
def Stmt.pieces : Stmt → List Piece
  | .data decl => decl.piecesData
  | .assign name place value => value.pieces ++ [.token place.spot name]
  | .expr value => value.pieces
  | .branch place cond body otherwise =>
    conditionalPieces place cond.pieces (Stmt.piecesList body) (Stmt.piecesElse place otherwise)
  | .whileLoop place cond body =>
    Expr.piecesOption cond ++ blockPieces place (Stmt.piecesList body)
      ++ [.keyword place .whileWord]
  | .doLoop place body cond =>
    blockPieces place (Stmt.piecesList body) ++ Expr.piecesOption cond ++ [.keyword place .doWord]
  | .ret place value => Expr.piecesOption value ++ [.keyword place .returnWord]
  | .yield place value => Expr.piecesOption value ++ [.keyword place .yieldWord]
  | .brk place => [.keyword place .breakWord]
  | .cont place => [.keyword place .continueWord]
  | .inline place _ => [.keyword place .inlineWord]
  | .block place body => blockPieces place (Stmt.piecesList body)

def Stmt.piecesList : List Stmt → List Piece
  | [] => []
  | s :: rest => s.pieces ++ Stmt.piecesList rest

/-- The pieces of what follows the block of the `if` at a place. -/
def Stmt.piecesElse (place : Place) : Option Stmt → List Piece
  | none => []
  | some (.branch next cond body otherwise) =>
    conditionalPieces next cond.pieces (Stmt.piecesList body) (Stmt.piecesElse next otherwise)
  | some (.block next body) => blockPieces next (Stmt.piecesList body)
  | some _ => [.fault (.invalidElse place)]

end

/-- The pieces of a top-level item. The keyword `iterator` and a blank take nine columns. -/
def Item.pieces : Item → List Piece
  | .imports _ place => [.keyword place .importWord]
  | .data decl => decl.piecesData
  | .function isIterator returns name place namePlace params body =>
    header isIterator .iteratorWord 9 place returns name namePlace ++ Decl.piecesList params
      ++ blockPieces place (Stmt.piecesList body)
  | .start place body =>
    blockPieces place (Stmt.piecesList body) ++ [.keyword place .startWord]

def Item.piecesList : List Item → List Piece
  | [] => []
  | item :: rest => item.pieces ++ Item.piecesList rest

end Semant.Document

namespace Semant

def Document.pieces (d : Document) : List Document.Piece := Document.Item.piecesList d.items

/-- The position is the spot, in the file. -/
structure Position.Stands (file : String) (spot : Document.Spot) (p : Position) : Prop where
  file_eq : p.file = file
  line_eq : p.line = spot.line
  column_eq : p.column.toNat = spot.column

namespace Document

/-! ## Trees whose tokens stand where their nodes say -/

mutual

/-- The second expression has the form of the first, and every token of it stands where its own node
of the first says. -/
def Expr.Placed (file : String) : Expr → Semant.Expr → Prop
  | .literal _ _ place, .literal _ token _ => token.position.Stands file place.spot
  | .var _ place, .var _ _ name => name.position.Stands file place.spot
  | .call _ place args, .call _ _ callee args' =>
    Expr.PlacedList file args args' ∧ callee.position.Stands file place.spot
  | .binary _ place lhs rhs, .binary _ _ token lhs' rhs' =>
    lhs.Placed file lhs' ∧ rhs.Placed file rhs' ∧ token.position.Stands file place.spot
  | .unary _ place operand, .unary _ _ token operand' =>
    operand.Placed file operand' ∧ token.position.Stands file place.spot
  | .cast _ place operand, .cast _ target operand' =>
    operand.Placed file operand' ∧ target.position.Stands file place.spot
  | .group value, .grouped _ inner => value.Placed file inner
  | .format _ place args, .format _ token args' =>
    Expr.PlacedList file args args' ∧ token.position.Stands file place.spot
  | _, _ => False

def Expr.PlacedList (file : String) : List Expr → List Semant.Expr → Prop
  | [], [] => True
  | e :: rest, e' :: rest' => e.Placed file e' ∧ Expr.PlacedList file rest rest'
  | _, _ => False

end

def Expr.PlacedOption (file : String) : Option Expr → Option Semant.Expr → Prop
  | none, none => True
  | some e, some e' => e.Placed file e'
  | _, _ => False

def Decl.Placed (file : String) (d : Decl) (d' : Semant.Decl) : Prop :=
  d'.type.position.Stands file (typeSpot d.place d.isConst 6) ∧
  d'.name.position.Stands file (nameSpot (typeSpot d.place d.isConst 6) d.type d.namePlace)

def Decl.PlacedList (file : String) : List Decl → List Semant.Decl → Prop
  | [], [] => True
  | d :: rest, d' :: rest' => d.Placed file d' ∧ Decl.PlacedList file rest rest'
  | _, _ => False

def Decl.PlacedData (file : String) (d : Decl) (d' : DataDef) : Prop :=
  d.Placed file d'.decl ∧ Expr.PlacedOption file d.init d'.init

/-- A block with its brace at a place, and statements of which something holds. -/
def PlacedBlock (file : String) (place : Place) (body : List Semant.Stmt → Prop) : Block → Prop
  | .mk _ brace body' => body body' ∧ brace.position.Stands file place.spot

/-- A conditional with its keyword and the brace of its block at a place. -/
def PlacedConditional (file : String) (place : Place) (cond : Semant.Expr → Prop)
    (body : List Semant.Stmt → Prop) (otherwise : Else → Prop) : Conditional → Prop
  | .mk keyword cond' body' otherwise' =>
    cond cond' ∧ PlacedBlock file place body body' ∧ otherwise otherwise' ∧
      keyword.position.Stands file place.spot

mutual

def Stmt.Placed (file : String) : Stmt → Semant.Stmt → Prop
  | .data decl, .data definition => decl.PlacedData file definition
  | .assign _ place value, .assign assignment =>
    value.Placed file assignment.value ∧ assignment.target.position.Stands file place.spot
  | .expr value, .expr value' => value.Placed file value'
  | .branch place cond body otherwise, .branch conditional =>
    PlacedConditional file place (cond.Placed file) (Stmt.PlacedList file body)
      (Stmt.PlacedElse file otherwise) conditional
  | .whileLoop place cond body, .whileLoop keyword cond' body' =>
    Expr.PlacedOption file cond cond' ∧ PlacedBlock file place (Stmt.PlacedList file body) body' ∧
      keyword.position.Stands file place.spot
  | .doLoop place body cond, .doLoop keyword body' cond' =>
    PlacedBlock file place (Stmt.PlacedList file body) body' ∧ Expr.PlacedOption file cond cond' ∧
      keyword.position.Stands file place.spot
  | .ret place value, .ret keyword value' =>
    Expr.PlacedOption file value value' ∧ keyword.position.Stands file place.spot
  | .yield place value, .yield keyword value' =>
    Expr.PlacedOption file value value' ∧ keyword.position.Stands file place.spot
  | .brk place, .brk keyword => keyword.position.Stands file place.spot
  | .cont place, .cont keyword => keyword.position.Stands file place.spot
  | .inline place _, .inline keyword _ => keyword.position.Stands file place.spot
  | .block place body, .block body' => PlacedBlock file place (Stmt.PlacedList file body) body'
  | _, _ => False

def Stmt.PlacedList (file : String) : List Stmt → List Semant.Stmt → Prop
  | [], [] => True
  | s :: rest, s' :: rest' => s.Placed file s' ∧ Stmt.PlacedList file rest rest'
  | _, _ => False

def Stmt.PlacedElse (file : String) : Option Stmt → Else → Prop
  | none, .none => True
  | some (.branch place cond body otherwise), .elseIf next =>
    PlacedConditional file place (cond.Placed file) (Stmt.PlacedList file body)
      (Stmt.PlacedElse file otherwise) next
  | some (.block place body), .block body' =>
    PlacedBlock file place (Stmt.PlacedList file body) body'
  | _, _ => False

end

def Item.Placed (file : String) : Item → Semant.Item → Prop
  | .imports _ place, .imports i => i.keyword.position.Stands file place.spot
  | .data decl, .data definition => decl.PlacedData file definition
  | .function isIterator returns _ place namePlace params body, .function f =>
    f.returns.position.Stands file (typeSpot place isIterator 9) ∧
    f.name.position.Stands file (nameSpot (typeSpot place isIterator 9) returns namePlace) ∧
    Decl.PlacedList file params f.params ∧
    PlacedBlock file place (Stmt.PlacedList file body) f.body
  | .start place body, .start s =>
    PlacedBlock file place (Stmt.PlacedList file body) s.body ∧
      s.keyword.position.Stands file place.spot
  | _, _ => False

def Item.PlacedList (file : String) : List Item → List Semant.Item → Prop
  | [], [] => True
  | item :: rest, item' :: rest' => item.Placed file item' ∧ Item.PlacedList file rest rest'
  | _, _ => False

end Document

/-- The tree has the document's file and form, and every token of it stands where its own node of the
document says. -/
def Document.Placed (d : Document) (p : Program) : Prop :=
  p.file = d.file ∧ Document.Item.PlacedList d.file d.items p.items

/-- The place of the cursor. -/
def Builder.cursor (b : Builder) : Position := ⟨b.file, b.line, b.column⟩

namespace Build

variable {b : Builder} {kind : TokenKind} {raw : String}

theorem run_token_of_le (h : b.column.toNat + raw.length + 1 ≤ 4294967295) :
    (token kind raw).run b = .ok ⟨kind, raw, b.cursor⟩
      { b with column := UInt32.ofNat (b.column.toNat + raw.length + 1) } := by
  have hlt : b.column.toNat + raw.length + 1 < UInt32.size := Nat.lt_succ_of_le h
  simp only [token, advance?, EStateM.run_bind, EStateM.run_get, if_pos hlt]
  rfl

theorem run_token_of_lt (h : 4294967295 < b.column.toNat + raw.length + 1) :
    (token kind raw).run b = .error .columnOverflow b := by
  have hlt : ¬ b.column.toNat + raw.length + 1 < UInt32.size := Nat.not_lt.mpr h
  simp only [token, advance?, EStateM.run_bind, EStateM.run_get, if_neg hlt]
  rfl

end Build

namespace Document

/-! ## Constructions that make pieces -/

section
variable {α β : Type}

/-- From a builder with `pre`, the construction makes the pieces one after another. If all of them
can be made it ends with `post`, and otherwise it stops at the first obstacle. -/
structure Makes (pre : Builder → Prop) (x : Build α) (pieces : List Piece)
    (post : α → Builder → Prop) : Prop where
  done : ∀ b, pre b → obstacle? pieces = none → ∃ a b', x.run b = .ok a b' ∧ post a b'
  stopped : ∀ b error, pre b → obstacle? pieces = some error → ∃ b', x.run b = .error error b'

namespace Makes

variable {pre : Builder → Prop} {pieces rest : List Piece} {x : Build α} {k : α → Build β}
  {mid : α → Builder → Prop} {post : β → Builder → Prop}

theorem bind (h : Makes pre x pieces mid) (h' : ∀ a, Makes (mid a) (k a) rest post) :
    Makes pre (x >>= k) (pieces ++ rest) post where
  done := by
    intro b hb hnone
    rw [obstacle?_append, Option.or_eq_none_iff] at hnone
    obtain ⟨a, b₁, hx, hmid⟩ := h.done b hb hnone.1
    obtain ⟨r, b', hk, hpost⟩ := (h' a).done b₁ hmid hnone.2
    exact ⟨r, b', Build.bind_ok.mpr ⟨a, b₁, hx, hk⟩, hpost⟩
  stopped := by
    intro b error hb hsome
    rw [obstacle?_append, Option.or_eq_some_iff] at hsome
    rcases hsome with hsome | ⟨hnone, hsome⟩
    · obtain ⟨b', hx⟩ := h.stopped b error hb hsome
      exact ⟨b', by rw [EStateM.run_bind, hx]⟩
    · obtain ⟨a, b₁, hx, hmid⟩ := h.done b hb hnone
      obtain ⟨b', hk⟩ := (h' a).stopped b₁ error hmid hsome
      exact ⟨b', by rw [EStateM.run_bind, hx]; exact hk⟩

/-- More may be known of the builder than is needed, and part of it may not depend on the builder. -/
theorem of_imp {pre' : Builder → Prop} {fact : Prop} {post : α → Builder → Prop}
    (h : ∀ b, pre' b → pre b ∧ fact) (h' : fact → Makes pre x pieces post) :
    Makes pre' x pieces post where
  done := fun b hb => (h' (h b hb).2).done b (h b hb).1
  stopped := fun b error hb => (h' (h b hb).2).stopped b error (h b hb).1

/-- A step that makes nothing and cannot fail. -/
theorem silent {pre : Builder → Prop} {x : Build α} {post : α → Builder → Prop}
    (h : ∀ b, pre b → ∃ a b', x.run b = .ok a b' ∧ post a b') : Makes pre x [] post where
  done := fun b hb _ => h b hb
  stopped := fun _ _ _ hsome => nomatch hsome

/-- A token is made at the cursor, which moves behind it and a blank. -/
theorem token {file : String} {spot : Spot} {kind : TokenKind} {raw : String} :
    Makes (fun b => b.cursor.Stands file spot) (Build.token kind raw) [.token spot raw]
      fun t b => t.position.Stands file spot ∧ b.cursor.Stands file (spot.right (raw.length + 1)) where
  done := by
    intro b hb hnone
    have hcolumn : b.column.toNat = spot.column := hb.column_eq
    have hfits : spot.column + raw.length + 1 ≤ 4294967295 :=
      obstacle?_eq_none.mp hnone _ (List.mem_singleton_self _)
    have hle : b.column.toNat + raw.length + 1 ≤ 4294967295 := by rwa [hcolumn]
    refine ⟨_, _, Build.run_token_of_le hle, hb, hb.file_eq, hb.line_eq, ?_⟩
    -- The column is still a word, so nothing is lost.
    calc (UInt32.ofNat (b.column.toNat + raw.length + 1)).toNat
        = b.column.toNat + raw.length + 1 :=
          UInt32.toNat_ofNat_of_lt' (Nat.lt_succ_of_le hle)
      _ = spot.column + (raw.length + 1) := by rw [hcolumn, Nat.add_assoc]
  stopped := by
    intro b error hb hsome
    have hcolumn : b.column.toNat = spot.column := hb.column_eq
    by_cases hle : spot.column + raw.length + 1 ≤ 4294967295
    · simp [obstacle?, Piece.obstacle?, hle] at hsome
    · simp only [obstacle?, Piece.obstacle?, List.findSome?_cons, if_neg hle, Option.some.injEq]
        at hsome
      subst hsome
      exact ⟨b, Build.run_token_of_lt (by omega)⟩

end Makes

/-! ## Nodes

Between two nodes nothing is known of the cursor. -/

/-- Wherever the cursor stands in the file, the construction makes the pieces, and then the result has
the property. -/
def Builds (file : String) (x : Build α) (pieces : List Piece) (property : α → Prop) : Prop :=
  Makes (fun b => b.file = file) x pieces fun a b => b.file = file ∧ property a

namespace Builds

variable {file : String} {pieces rest : List Piece} {place : Place} {P : α → Prop} {Q : β → Prop}

theorem bind {x : Build α} {k : α → Build β} (h : Builds file x pieces P)
    (h' : ∀ a, P a → Builds file (k a) rest Q) : Builds file (x >>= k) (pieces ++ rest) Q :=
  Makes.bind h fun a => Makes.of_imp (fun _ hb => hb) (h' a)

theorem pure {a : α} (h : P a) : Builds file (pure a) [] P :=
  Makes.silent fun b hb => ⟨a, b, rfl, hb, h⟩

theorem map {x : Build α} {f : α → β} (h : Builds file x pieces P) (h' : ∀ a, P a → Q (f a)) :
    Builds file (do let a ← x; return f a) pieces Q := by
  rw [← List.append_nil pieces]
  exact bind h fun a ha => pure (h' a ha)

theorem fresh : Builds file Build.fresh [] fun _ => True :=
  Makes.silent fun b hb => ⟨b.next, { b with next := b.next + 1 }, rfl, hb, trivial⟩

theorem fail (fault : Fault) : Builds file (throw fault.error : Build α) [.fault fault] P where
  done := fun _ _ hnone => nomatch hnone
  stopped := by
    intro b error _ hsome
    cases hsome
    exact ⟨b, rfl⟩

theorem moveTo : Makes (fun b => b.file = file) (moveTo place) []
    fun _ b => b.cursor.Stands file place.spot :=
  Makes.silent fun b hb =>
    ⟨(), { b with line := place.line, column := place.column }, rfl, hb, rfl, rfl⟩

/-- What begins with a token, at the place that is given for it. -/
theorem placed {kind : TokenKind} {raw : String} {k : Token → Build α}
    (h : ∀ t, t.position.Stands file place.spot → Builds file (k t) pieces P) :
    Builds file (do Document.moveTo place; let t ← Build.token kind raw; k t)
      (.token place.spot raw :: pieces) P :=
  moveTo.bind fun _ => Makes.token.bind fun t =>
    Makes.of_imp (fun _ hb => ⟨hb.2.file_eq, hb.1⟩) (h t)

/-- A node with one token and a number. -/
theorem numbered {kind : TokenKind} {raw : String} {make : Token → NodeId → α}
    (h : ∀ t n, t.position.Stands file place.spot → P (make t n)) :
    Builds file (do Document.moveTo place; let t ← Build.token kind raw; return make t (← Build.fresh))
      [.token place.spot raw] P :=
  placed fun t ht => map fresh fun n _ => h t n ht

/-- A node with a name and a number. -/
theorem named {name : String} {make : Identifier → NodeId → α}
    (h : ∀ i n, i.position.Stands file place.spot → P (make i n)) :
    Builds file (do Document.moveTo place; let i ← Build.identifier name; return make i (← Build.fresh))
      [.token place.spot name] P := by
  simp only [Build.identifier, bind_assoc, pure_bind]
  exact placed fun t ht => map fresh fun n _ => h ⟨name, t.position⟩ n ht

/-- A variable or a call, with a name and two numbers. -/
theorem reference {name : String} {make : Identifier → NodeId → NodeId → α}
    (h : ∀ i n node, i.position.Stands file place.spot → P (make i n node)) :
    Builds file
      (do
        Document.moveTo place
        let i ← Build.identifier name
        let node ← Build.fresh
        return make i (← Build.fresh) node)
      [.token place.spot name] P := by
  simp only [Build.identifier, bind_assoc, pure_bind]
  refine placed fun t ht => ?_
  exact bind fresh fun node _ => map fresh fun n _ => h ⟨name, t.position⟩ n node ht

/-- A node with a keyword and no number. -/
theorem keyword {kind : TokenKind} {make : Token → α}
    (h : ∀ t, t.position.Stands file place.spot → P (make t)) :
    Builds file (do Document.moveTo place; let t ← Build.keyword kind; return make t)
      [.keyword place kind] P :=
  placed fun t ht => pure (h t ht)

/-- A name at the cursor. -/
theorem identifier {spot : Spot} {name : String} :
    Makes (fun b => b.cursor.Stands file spot) (Build.identifier name) [.token spot name]
      fun i b => b.file = file ∧ i.position.Stands file spot :=
  Makes.token.bind fun t => Makes.silent fun b hb =>
    ⟨⟨name, t.position⟩, b, rfl, hb.2.file_eq, hb.1⟩

/-- A type's name at the cursor, and the name that follows it unless it has a place of its own. -/
theorem typed {spot : Spot} {type name : String} {namePlace : Option Place}
    {k : Token → Identifier → Build α}
    (h : ∀ t i, t.position.Stands file spot →
      i.position.Stands file (nameSpot spot type namePlace) → Builds file (k t i) pieces P) :
    Makes (fun b => b.cursor.Stands file spot)
      (do let t ← Build.typeName type; let i ← lowerName name namePlace; k t i)
      (.token spot type :: .token (nameSpot spot type namePlace) name :: pieces)
      fun a b => b.file = file ∧ P a := by
  refine Makes.token.bind fun t => Makes.of_imp (fun b hb => ⟨hb.2, hb.1⟩) fun ht => ?_
  have hname : Makes (fun b => b.cursor.Stands file (spot.right (type.length + 1)))
      (lowerName name namePlace) [.token (nameSpot spot type namePlace) name]
      fun i b => b.file = file ∧ i.position.Stands file (nameSpot spot type namePlace) := by
    cases namePlace with
    | none => exact identifier
    | some place =>
      refine Makes.of_imp (fun b hb => ⟨hb.file_eq, trivial⟩) fun _ => ?_
      exact moveTo.bind fun _ => identifier
  exact hname.bind fun i => Makes.of_imp (fun b hb => hb) fun hi => h t i ht hi

/-- What declarations and functions begin with. -/
theorem headed {front : Bool} {kind : TokenKind} {width : Nat} {type name : String}
    {namePlace : Option Place} {k : Token → Identifier → Build α}
    (hwidth : kind.text.length + 1 = width)
    (h : ∀ t i, t.position.Stands file (typeSpot place front width) →
      i.position.Stands file (nameSpot (typeSpot place front width) type namePlace) →
      Builds file (k t i) pieces P) :
    Builds file (do
        Document.moveTo place
        if front then { let _ ← Build.keyword kind }
        let t ← Build.typeName type
        let i ← lowerName name namePlace
        k t i)
      (header front kind width place type name namePlace ++ pieces) P := by
  refine moveTo.bind fun _ => ?_
  cases front with
  | false => exact typed h
  | true =>
    subst hwidth
    exact Makes.token.bind fun _ =>
      Makes.of_imp (fun _ hb => ⟨hb.2, trivial⟩) fun _ => typed h

section
variable {x : Build α} {b : Builder}

theorem holds (h : Builds file x pieces P) (hb : b.file = file) {a : α} {b' : Builder}
    (hrun : x.run b = .ok a b') : P a := by
  cases hpieces : obstacle? pieces with
  | none =>
    obtain ⟨a', b'', hrun', -, ha⟩ := h.done b hb hpieces
    rw [hrun] at hrun'
    cases hrun'
    exact ha
  | some error =>
    obtain ⟨b'', hrun'⟩ := h.stopped b error hb hpieces
    rw [hrun] at hrun'
    cases hrun'

theorem run_ok_iff (h : Builds file x pieces P) (hb : b.file = file) :
    (∃ a b', x.run b = .ok a b') ↔ obstacle? pieces = none := by
  constructor
  · rintro ⟨a, b', hrun⟩
    refine Option.eq_none_iff_forall_ne_some.mpr fun error hpieces => ?_
    obtain ⟨b'', hrun'⟩ := h.stopped b error hb hpieces
    rw [hrun] at hrun'
    cases hrun'
  · intro hpieces
    obtain ⟨a, b', hrun, -⟩ := h.done b hb hpieces
    exact ⟨a, b', hrun⟩

theorem run_error_iff (h : Builds file x pieces P) (hb : b.file = file) {error : BuildError} :
    (∃ b', x.run b = .error error b') ↔ obstacle? pieces = some error := by
  constructor
  · rintro ⟨b', hrun⟩
    cases hpieces : obstacle? pieces with
    | none =>
      obtain ⟨a, b'', hrun', -⟩ := h.done b hb hpieces
      rw [hrun] at hrun'
      cases hrun'
    | some error' =>
      obtain ⟨b'', hrun'⟩ := h.stopped b error' hb hpieces
      rw [hrun] at hrun'
      cases hrun'
      rfl
  · exact h.stopped b error hb

end

end Builds

/-! ## Lowering -/

theorem literalKind_builds {file type : String} :
    Builds file (ofExcept (literalKind type))
      (if type ∈ ["int", "float", "string", "bool"] then [] else [.fault (.unsupportedLiteral type)])
      fun _ => True := by
  unfold literalKind
  split
  · exact Builds.pure trivial
  · exact Builds.pure trivial
  · exact Builds.pure trivial
  · exact Builds.pure trivial
  · rw [if_neg (by simp_all)]
    exact Builds.fail (.unsupportedLiteral type)

/-- An operator that is looked up by its text. -/
theorem operator_builds {file text : String} {found : Option α} {x : Except BuildError α}
    {P : α → Prop} (hx : x = found.elim (.error (.unknownOperator text)) .ok)
    (hP : ∀ op, x = .ok op → P op) :
    Builds file (ofExcept x)
      (if found.isSome then [] else [.fault (.unknownOperator text)]) P := by
  subst hx
  cases found with
  | some op => exact Builds.pure (hP op rfl)
  | none => exact Builds.fail (.unknownOperator text)

theorem binaryOp_builds {file text : String} :
    Builds file (ofExcept (binaryOp text))
      (if (BinaryOp.ofText? text).isSome then [] else [.fault (.unknownOperator text)])
      fun op => op.text = text := by
  refine operator_builds ?_ fun op => binaryOp_ok
  unfold binaryOp
  cases BinaryOp.ofText? text <;> rfl

theorem unaryOp_builds {file text : String} :
    Builds file (ofExcept (unaryOp text))
      (if (UnaryOp.ofText? text).isSome then [] else [.fault (.unknownOperator text)])
      fun op => op.text = text := by
  refine operator_builds ?_ fun op => unaryOp_ok
  unfold unaryOp
  cases UnaryOp.ofText? text <;> rfl

mutual

theorem Expr.lower_builds (file : String) :
    ∀ e : Expr, Builds file e.lower e.pieces (e.Placed file)
  | .literal type value place =>
    literalKind_builds.bind fun _ _ => Builds.numbered fun _ _ ht => ht
  | .var name place => Builds.reference fun _ _ _ hi => hi
  | .call name place args =>
    (Expr.lowerList_builds file args).bind fun _ hargs =>
      Builds.reference fun _ _ _ hi => ⟨hargs, hi⟩
  | .binary op place lhs rhs => by
    rw [Expr.pieces, List.append_assoc, List.append_assoc]
    refine binaryOp_builds.bind fun op' hop => ?_
    subst hop
    exact (lhs.lower_builds file).bind fun _ hl => (rhs.lower_builds file).bind fun _ hr =>
      Builds.numbered fun _ _ ht => ⟨hl, hr, ht⟩
  | .unary op place operand => by
    rw [Expr.pieces, List.append_assoc]
    refine unaryOp_builds.bind fun op' hop => ?_
    subst hop
    exact (operand.lower_builds file).bind fun _ ho => Builds.numbered fun _ _ ht => ⟨ho, ht⟩
  | .cast type place operand =>
    (operand.lower_builds file).bind fun _ ho => Builds.numbered fun _ _ ht => ⟨ho, ht⟩
  | .group value => by
    rw [Expr.pieces, ← List.append_nil value.pieces]
    exact (value.lower_builds file).bind fun _ h => Builds.fresh.map fun _ _ => h
  | .format text place args =>
    (Expr.lowerList_builds file args).bind fun _ hargs => Builds.numbered fun _ _ ht => ⟨hargs, ht⟩

theorem Expr.lowerList_builds (file : String) :
    ∀ es : List Expr, Builds file (Expr.lowerList es) (Expr.piecesList es) (Expr.PlacedList file es)
  | [] => Builds.pure trivial
  | e :: rest =>
    (e.lower_builds file).bind fun _ h => (Expr.lowerList_builds file rest).map fun _ hrest =>
      ⟨h, hrest⟩

end

theorem Expr.lowerOption_builds (file : String) (e : Option Expr) :
    Builds file (Expr.lowerOption e) (Expr.piecesOption e) (Expr.PlacedOption file e) := by
  cases e with
  | none => exact Builds.pure trivial
  | some e => exact (e.lower_builds file).map fun _ h => h

theorem Decl.lower_builds (file : String) (d : Decl) :
    Builds file d.lower d.pieces (d.Placed file) := by
  rw [Decl.pieces, ← List.append_nil (header ..)]
  exact Builds.headed (by decide) fun t i ht hi => Builds.fresh.map fun _ _ => ⟨ht, hi⟩

theorem Decl.lowerList_builds (file : String) (ds : List Decl) :
    Builds file (Decl.lowerList ds) (Decl.piecesList ds) (Decl.PlacedList file ds) := by
  induction ds with
  | nil => exact Builds.pure trivial
  | cons d rest ih => exact (d.lower_builds file).bind fun _ h => ih.map fun _ hrest => ⟨h, hrest⟩

theorem Decl.lowerData_builds (file : String) (d : Decl) :
    Builds file d.lowerData d.piecesData (d.PlacedData file) :=
  (d.lower_builds file).bind fun _ h => (Expr.lowerOption_builds file d.init).map fun _ hinit =>
    ⟨h, hinit⟩

theorem lowerBlock_builds {file : String} {place : Place} {body : Build (List Semant.Stmt)}
    {pieces : List Piece} {P : List Semant.Stmt → Prop} (h : Builds file body pieces P) :
    Builds file (lowerBlock place body) (blockPieces place pieces) (PlacedBlock file place P) :=
  h.bind fun _ hbody => Builds.numbered fun _ _ ht => ⟨hbody, ht⟩

theorem lowerConditional_builds {file : String} {place : Place} {cond : Build Semant.Expr}
    {body : Build (List Semant.Stmt)} {otherwise : Build Else} {pieces pieces' pieces'' : List Piece}
    {P : Semant.Expr → Prop} {Q : List Semant.Stmt → Prop} {R : Else → Prop}
    (hcond : Builds file cond pieces P) (hbody : Builds file body pieces' Q)
    (helse : Builds file otherwise pieces'' R) :
    Builds file (lowerConditional place cond (lowerBlock place body) otherwise)
      (conditionalPieces place pieces pieces' pieces'') (PlacedConditional file place P Q R) := by
  rw [conditionalPieces, List.append_assoc, List.append_assoc]
  exact hcond.bind fun _ hc => (lowerBlock_builds hbody).bind fun _ hb => helse.bind fun _ he =>
    Builds.keyword fun _ ht => ⟨hc, hb, he, ht⟩

mutual

theorem Stmt.lower_builds (file : String) :
    ∀ s : Stmt, Builds file s.lower s.pieces (s.Placed file)
  -- the pieces are listed in the order in which the parts are built, so each case is the chain of
  -- its parts
  | .data decl => (decl.lowerData_builds file).map fun _ h => h
  | .assign name place value => by
    refine (value.lower_builds file).bind fun v hv => ?_
    simp only [Build.assign, bind_assoc, pure_bind]
    exact Builds.named fun _ _ hi => ⟨hv, hi⟩
  | .expr value => (value.lower_builds file).map fun _ h => h
  | .branch place cond body otherwise =>
    (lowerConditional_builds (cond.lower_builds file) (Stmt.lowerList_builds file body)
      (Stmt.lowerElse_builds file place otherwise)).map fun _ h => h
  | .whileLoop place cond body => by
    rw [Stmt.pieces, List.append_assoc]
    exact (Expr.lowerOption_builds file cond).bind fun _ hc =>
      (lowerBlock_builds (Stmt.lowerList_builds file body)).bind fun _ hb =>
        Builds.keyword fun _ ht => ⟨hc, hb, ht⟩
  | .doLoop place body cond => by
    rw [Stmt.pieces, List.append_assoc]
    exact (lowerBlock_builds (Stmt.lowerList_builds file body)).bind fun _ hb =>
      (Expr.lowerOption_builds file cond).bind fun _ hc =>
        Builds.keyword fun _ ht => ⟨hb, hc, ht⟩
  | .ret place value =>
    (Expr.lowerOption_builds file value).bind fun _ hv => Builds.keyword fun _ ht => ⟨hv, ht⟩
  | .yield place value =>
    (Expr.lowerOption_builds file value).bind fun _ hv => Builds.keyword fun _ ht => ⟨hv, ht⟩
  | .brk place => Builds.keyword fun _ ht => ht
  | .cont place => Builds.keyword fun _ ht => ht
  | .inline place _ => Builds.keyword fun _ ht => ht
  | .block place body =>
    (lowerBlock_builds (Stmt.lowerList_builds file body)).map fun _ h => h

theorem Stmt.lowerList_builds (file : String) :
    ∀ ss : List Stmt, Builds file (Stmt.lowerList ss) (Stmt.piecesList ss) (Stmt.PlacedList file ss)
  | [] => Builds.pure trivial
  | s :: rest =>
    (s.lower_builds file).bind fun _ h => (Stmt.lowerList_builds file rest).map fun _ hrest =>
      ⟨h, hrest⟩

theorem Stmt.lowerElse_builds (file : String) (place : Place) :
    ∀ s : Option Stmt, Builds file (Stmt.lowerElse place s) (Stmt.piecesElse place s)
      (Stmt.PlacedElse file s)
  | none => Builds.pure trivial
  | some (.branch next cond body otherwise) =>
    (lowerConditional_builds (cond.lower_builds file) (Stmt.lowerList_builds file body)
      (Stmt.lowerElse_builds file next otherwise)).map fun _ h => h
  | some (.block _ body) =>
    (lowerBlock_builds (Stmt.lowerList_builds file body)).map fun _ h => h
  | some (.data _) | some (.assign ..) | some (.expr _) | some (.whileLoop ..) | some (.doLoop ..)
  | some (.ret ..) | some (.yield ..) | some (.brk _) | some (.cont _) | some (.inline ..) =>
    Builds.fail (.invalidElse place)

end

theorem Item.lower_builds (file : String) (item : Item) :
    Builds file item.lower item.pieces (item.Placed file) := by
  cases item with
  | imports path place =>
    rw [Item.lower]
    simp only [Build.importFile, bind_assoc, pure_bind]
    exact Builds.keyword fun _ ht => ht
  | data decl => exact (decl.lowerData_builds file).map fun _ h => h
  | function isIterator returns name place namePlace params body =>
    rw [Item.pieces, List.append_assoc]
    refine Builds.headed (by decide) fun t i ht hi => ?_
    refine (Decl.lowerList_builds file params).bind fun ps hps => ?_
    rw [← List.append_nil (blockPieces ..)]
    refine (lowerBlock_builds (Stmt.lowerList_builds file body)).bind fun b hb => ?_
    exact (Builds.fresh.map fun _ _ => ⟨ht, hi, hps, hb⟩).map fun _ h => h
  | start place body =>
    refine (lowerBlock_builds (Stmt.lowerList_builds file body)).bind fun b hb => ?_
    simp only [Build.start, bind_assoc, pure_bind]
    exact Builds.keyword fun _ ht => ⟨hb, ht⟩

theorem Item.lowerList_builds (file : String) (items : List Item) :
    Builds file (Item.lowerList items) (Item.piecesList items) (Item.PlacedList file items) := by
  induction items with
  | nil => exact Builds.pure trivial
  | cons item rest ih =>
    exact (item.lower_builds file).bind fun _ h => ih.map fun _ hrest => ⟨h, hrest⟩

end

end Document

theorem Document.lower_builds (d : Document) : Builds d.file d.lower d.pieces d.Placed := by
  rw [Document.pieces, ← List.append_nil (Item.piecesList d.items)]
  refine (Item.lowerList_builds d.file d.items).bind fun items hitems => ?_
  exact Makes.silent fun b hb =>
    ⟨⟨b.next, b.file, items⟩, { b with next := b.next + 1 }, rfl, hb, hb, hitems⟩

namespace Document

/-! ## Which obstacle comes first -/

theorem Fault.error_inj {reason reason' : Fault} (h : reason.error = reason'.error) :
    reason = reason' := by
  cases reason with
  | unknownOperator text => cases reason' <;> cases h; rfl
  | unsupportedLiteral type => cases reason' <;> cases h; rfl
  | invalidElse place =>
    cases reason' with
    | invalidElse place' =>
      cases place; cases place'; cases h; rfl
    | unknownOperator text => cases h
    | unsupportedLiteral type => cases h

theorem Piece.obstacle?_eq_fault {piece : Piece} {reason : Fault}
    (h : piece.obstacle? = some reason.error) : piece = .fault reason := by
  cases piece with
  | token spot raw =>
    simp only [Piece.obstacle?] at h
    split at h
    · cases h
    · cases reason <;> cases h
  | fault other =>
    rw [Fault.error_inj (Option.some.inj h)]

/-- Before any fault is met, there is a token that reaches past the last column. -/
def Overflow (pieces : List Piece) : Prop :=
  ∃ before spot raw rest, pieces = before ++ .token spot raw :: rest ∧
    (∀ reason, .fault reason ∉ before) ∧ 4294967295 < spot.column + raw.length + 1

/-- The fault is met, and before it only tokens that fit. -/
def FirstFault (pieces : List Piece) (reason : Fault) : Prop :=
  ∃ before rest, pieces = before ++ .fault reason :: rest ∧ ∀ piece ∈ before, piece.Fits

theorem obstacle?_eq_fault {pieces : List Piece} {reason : Fault} :
    obstacle? pieces = some reason.error ↔ FirstFault pieces reason := by
  constructor
  · intro h
    obtain ⟨before, piece, rest, rfl, hpiece, hbefore⟩ := List.findSome?_eq_some_iff.mp h
    rw [Piece.obstacle?_eq_fault hpiece]
    exact ⟨before, rest, rfl, fun piece hm => Piece.obstacle?_eq_none.mp (hbefore piece hm)⟩
  · rintro ⟨before, rest, rfl, hbefore⟩
    rw [obstacle?_append, obstacle?_eq_none.mpr hbefore]
    rfl

theorem obstacle?_eq_columnOverflow {pieces : List Piece} :
    obstacle? pieces = some .columnOverflow ↔ Overflow pieces := by
  constructor
  · intro h
    obtain ⟨before, piece, rest, rfl, hpiece, hbefore⟩ := List.findSome?_eq_some_iff.mp h
    cases piece with
    | fault reason => cases reason <;> cases hpiece
    | token spot raw =>
      refine ⟨before, spot, raw, rest, rfl, ?_, ?_⟩
      · intro reason hm
        cases hbefore _ hm
      · refine Nat.not_le.mp fun hle => ?_
        rw [Piece.obstacle?, if_pos hle] at hpiece
        cases hpiece
  · rintro ⟨before, spot, raw, rest, rfl, hbefore, hlt⟩
    -- The token may not be the first that does not fit, but what comes before it is no fault either.
    rw [obstacle?_append]
    cases hfirst : obstacle? before with
    | none =>
      show obstacle? (.token spot raw :: rest) = _
      rw [obstacle?, List.findSome?_cons, Piece.obstacle?, if_neg (Nat.not_le.mpr hlt)]
    | some error =>
      obtain ⟨_, piece, _, rfl, hpiece, -⟩ := List.findSome?_eq_some_iff.mp hfirst
      cases piece with
      | fault reason => exact absurd (by simp) (hbefore reason)
      | token spot' raw' =>
        simp only [Piece.obstacle?] at hpiece
        split at hpiece
        · cases hpiece
        · cases hpiece
          rfl

end Document

/-- What the document decides about an attempt to build its tree. -/
structure Document.Decides (d : Document) (built : Program → Prop) (failed : BuildError → Prop) :
    Prop where
  placed : ∀ p, built p → d.Placed p
  built_iff : (∃ p, built p) ↔ ∀ piece ∈ d.pieces, piece.Fits
  overflow_iff : failed .columnOverflow ↔ Document.Overflow d.pieces
  fault_iff : ∀ reason : Document.Fault, failed reason.error ↔ Document.FirstFault d.pieces reason

theorem Document.decides_run (d : Document) {b : Builder} (hb : b.file = d.file) :
    d.Decides (fun p => ∃ b', d.lower.run b = .ok p b')
      fun error => ∃ b', d.lower.run b = .error error b' where
  placed := by
    rintro p ⟨b', hrun⟩
    exact d.lower_builds.holds hb hrun
  built_iff := (d.lower_builds.run_ok_iff hb).trans obstacle?_eq_none
  overflow_iff := (d.lower_builds.run_error_iff hb).trans obstacle?_eq_columnOverflow
  fault_iff := fun _ => (d.lower_builds.run_error_iff hb).trans obstacle?_eq_fault

theorem Program.load_of_read {text : String} {d : Document} (hread : Document.read text = .ok d)
    (next : NodeId) :
    (fun p => ∃ after, Program.load text next = .ok (p, after)) =
      (fun p => ∃ b', d.lower.run { file := d.file, next } = .ok p b') ∧
    (fun error => Program.load text next = .error (.build error)) =
      (fun error => ∃ b', d.lower.run { file := d.file, next } = .error error b') := by
  unfold Program.load
  rw [hread]
  cases hrun : d.lower.run { file := d.file, next } with
  | ok p b' => simp [hrun]
  | error e b' => simp [hrun]

/-- **Tokens stand where their own nodes say, and the first obstacle decides.** From any place of the
cursor, a tree is built if and only if every token of the document fits, and then every token of the tree
stands where its own node of the document says. The construction overflows if and only if a token that
does not fit is met before any fault, and it ends with a fault if and only if this one is met first and
only tokens that fit come before it. Loading a text that is read as the document ends the same way. -/
theorem lower_placed_or_first_obstacle (d : Document) (line column : UInt32) (next : NodeId) :
    d.Decides (fun p => ∃ b', d.lower.run ⟨d.file, line, column, next⟩ = .ok p b')
      (fun error => ∃ b', d.lower.run ⟨d.file, line, column, next⟩ = .error error b') ∧
    ∀ text, Document.read text = .ok d →
      d.Decides (fun p => ∃ after, Program.load text next = .ok (p, after))
        (fun error => Program.load text next = .error (.build error)) := by
  refine ⟨d.decides_run rfl, fun text hread => ?_⟩
  obtain ⟨hok, herror⟩ := Program.load_of_read hread next
  rw [hok, herror]
  exact d.decides_run rfl

/-- A sum whose operator stands where no token fits. -/
def farSum (lhs rhs : Document.Expr) : Document :=
  { file := "far.dk"
    items := [.start ⟨1, 1⟩ [.expr (.binary "+" ⟨2, 4294967295⟩ lhs rhs)]] }

/-- An operand that is no literal is met before the operator, and so is a variable that does not fit;
between the two it is the left one that decides. Where everything fits, a cursor at the end of a line
does no harm. -/
theorem farSum_first_obstacle :
    (∃ b', (farSum (.literal "char" "c" ⟨2, 1⟩) (.var "y" ⟨2, 4294967294⟩)).lower.run
        ⟨"far.dk", 9, 4294967295, 0⟩ = .error (.unsupportedLiteral "char") b') ∧
    (∃ b', (farSum (.var "y" ⟨2, 4294967294⟩) (.literal "char" "c" ⟨2, 1⟩)).lower.run
        ⟨"far.dk", 9, 4294967295, 0⟩ = .error .columnOverflow b') ∧
    ∃ p b', terse.lower.run ⟨"terse.dk", 9, 4294967295, 0⟩ = .ok p b' ∧ terse.Placed p := by
  refine ⟨?_, ?_, ?_⟩
  · obtain ⟨h, -⟩ := lower_placed_or_first_obstacle
      (farSum (.literal "char" "c" ⟨2, 1⟩) (.var "y" ⟨2, 4294967294⟩)) 9 4294967295 0
    exact (h.fault_iff (.unsupportedLiteral "char")).mpr ⟨[], _, rfl, by simp⟩
  · obtain ⟨h, -⟩ := lower_placed_or_first_obstacle
      (farSum (.var "y" ⟨2, 4294967294⟩) (.literal "char" "c" ⟨2, 1⟩)) 9 4294967295 0
    exact h.overflow_iff.mpr ⟨[], _, _, _, rfl, by simp, by decide⟩
  · obtain ⟨h, -⟩ := lower_placed_or_first_obstacle terse 9 4294967295 0
    have hfits : ∀ piece ∈ terse.pieces, piece.Fits :=
      Document.obstacle?_eq_none.mp (by decide +kernel)
    obtain ⟨p, b', hrun⟩ := h.built_iff.mpr hfits
    exact ⟨p, b', hrun, h.placed p ⟨b', hrun⟩⟩

end Semant
