import Semant.Proofs.Document.Entries
import Semant.Proofs.Json.Numerals

/-!
# Reading the nodes of a document back

The reading of an encoded expression, declaration or statement is what was encoded. With the entries of
a node settled (`Semant.Proofs.Document.Entries`), this is a table: for every kind of node its parts, in
the order of its fields. The induction is on the node, and the parts that are nodes themselves are read
back by induction.
-/

set_option autoImplicit false

namespace Semant.Document

open Json (Fault fieldReadings readingsOf)

/-- A tag is read from its name and from its number. -/
theorem readTag_ok {τ : Type} {tags : List τ} {nameOf : τ → String} {tag : τ} {index : Nat}
    (hname : (tags.find? fun t => nameOf t == nameOf tag) = some tag) (hindex : tags[index]? = some tag)
    {v : Json} (h : Encoder.tag (nameOf tag) index v) : readTag tags nameOf v.reading = .ok tag := by
  rcases h with rfl | rfl
  · simp only [readTag, Json.reading, Reading.ofString, hname]
  · simp only [readTag, Json.ofNat, Json.reading, Json.Numeral.toNat?_ofNat, hindex]

/-! ## Roles -/

namespace Fields.Gives

variable {fields : Fields} {name : String}

theorem text {s : String} (h : fields.Gives ⟨name, .text, s⟩) :
    fields.required name Reading.text = .ok s := h.required rfl

theorem place {p : Place} (h : fields.Gives ⟨name, .place, p⟩) :
    fields.required name Reading.place = .ok p := h.required rfl

theorem expr {e : Expr} (h : fields.Gives ⟨name, .expr, e⟩) :
    fields.required name Reading.expr = .ok e := h.required rfl

theorem stmts {body : List Stmt} (h : fields.Gives ⟨name, .stmts, body⟩) :
    fields.required name Reading.stmts = .ok body := h.required rfl

theorem flag {b : Bool} (h : fields.Gives ⟨name, .flag, b⟩) :
    fields.defaulted name Reading.flag false = .ok b := h.defaulted rfl

theorem exprs {es : List Expr} (h : fields.Gives ⟨name, .exprs, es⟩) :
    fields.defaulted name Reading.exprs [] = .ok es := h.defaulted rfl

theorem decls {ds : List Decl} (h : fields.Gives ⟨name, .decls, ds⟩) :
    fields.defaulted name Reading.decls [] = .ok ds := h.defaulted rfl

theorem optionalPlace {o : Option Place} (h : fields.Gives ⟨name, .optionalPlace, o⟩) :
    fields.optional name Reading.place = .ok o := h.defaulted rfl

theorem optionalExpr {o : Option Expr} (h : fields.Gives ⟨name, .optionalExpr, o⟩) :
    fields.optional name Reading.expr = .ok o := h.defaulted rfl

theorem optionalStmt {o : Option Stmt} (h : fields.Gives ⟨name, .optionalStmt, o⟩) :
    fields.optional name Reading.stmt = .ok o := h.defaulted rfl

end Fields.Gives

theorem word?_ofNat (n : UInt32) : (Json.ofNat n.toNat).reading.word? = some n := by
  simp only [Reading.word?, Json.ofNat, Json.reading, Json.Numeral.toNat?_ofNat]
  rw [if_pos n.toNat_lt_size, UInt32.ofNat_toNat]

theorem read_place {p : Place} {v : Json} (h : Encoder.place p v) : v.reading.place = .ok p := by
  obtain rfl := h
  have hline := word?_ofNat p.line
  have hcolumn := word?_ofNat p.column
  simp only [Json.reading, readingsOf, Reading.ofArray, hline, hcolumn]

theorem read_some {α : Type} {role : Reading → Except Fault α} {x : α} {v : Json}
    (hv : role v.reading = .ok x) (hnull : ∀ x, role Json.null.reading ≠ .ok x) :
    v.reading.optional role = .ok (some x) := by
  have hsome : v.reading.isNull = false := by
    cases v with
    | null => exact absurd hv (hnull x)
    | _ => rfl
  rw [Reading.optional, hsome, hv]
  rfl

/-- Where something is optional, `null` is nothing and any other value is read as it is. -/
theorem read_optional {α : Type} {role : Reading → Except Fault α} {encoder : α → Encoder} {o : Option α}
    (hread : ∀ x v, encoder x v → role v.reading = .ok x)
    (hnull : ∀ x, role Json.null.reading ≠ .ok x) {v : Json}
    (h : Encoder.orNull (o.map encoder) v) : v.reading.optional role = .ok o := by
  cases o with
  | none =>
    obtain rfl := h
    rfl
  | some x => exact read_some (hread x v h) hnull

theorem read_list {α : Type} {role : Reading → Except Fault α} {xs : List α} {values : List Json}
    (h : List.Forall₂ (fun x v => role v.reading = .ok x) xs values) :
    (readingsOf values).mapM role = .ok xs := by
  induction h with
  | nil => rfl
  | @cons x v xs values hv _ ih =>
    rw [readingsOf, List.mapM_cons, hv, ih]
    rfl

namespace Slot.Means

variable {name : String}

theorem required {encoder : Encoder} {role : Role} {x : role.Content}
    (h : ∀ v, encoder v → v.reading.play role = .ok x) :
    (Slot.required name encoder).Means ⟨name, role, x⟩ := ⟨rfl, h, nofun⟩

theorem text {s : String} : (Slot.required name (.text s)).Means ⟨name, .text, s⟩ :=
  required fun v hv => by
    obtain rfl := hv
    rfl

theorem place {p : Place} : (Slot.required name (.place p)).Means ⟨name, .place, p⟩ :=
  required fun _ => read_place

theorem flag {b : Bool} : (Slot.flag name b).Means ⟨name, .flag, b⟩ where
  name := rfl
  play v hv := by
    obtain rfl := hv
    rfl
  missing h := by
    cases b with
    | true => contradiction
    | false => rfl

theorem optionalPlace {o : Option Place} :
    (Slot.optional name (o.map Encoder.place)).Means ⟨name, .optionalPlace, o⟩ where
  name := rfl
  play v hv := read_optional (fun _ _ => read_place) nofun hv
  missing h := by
    cases o with
    | some p => contradiction
    | none => rfl

end Slot.Means

/-! ## Expressions -/

/-- A value that is read as an expression. -/
def ReadsExpr (e : Expr) (v : Json) : Prop := v.reading.expr = .ok e

/-- An expression is read back if its fields give it. -/
theorem read_expr (tag : ExprTag) {index : Nat} (hindex : ExprTag.all[index]? = some tag)
    {slots : List Slot} {v : Json} (h : Encoder.node (.required "expr" (.tag tag.name index) :: slots) v)
    {parts : List Part} (hmeans : List.Forall₂ Slot.Means slots parts)
    (hshape : tag.shape = parts.map Part.field) {e : Expr}
    (hof : ∀ fields : Fields, fields.GivesAll parts → exprOf tag fields = .ok e) : ReadsExpr e v := by
  have hname : (ExprTag.all.find? fun t => t.name == tag.name) = some tag := by cases tag <;> rfl
  have hnodup : ("expr" :: tag.shape.map Prod.fst).Nodup := by cases tag <;> decide
  rcases h.read_tagged (fun _ => readTag_ok hname hindex) ExprTag.shape hnodup hmeans hshape exprOf hof with
    ⟨entries, rfl, hread⟩ | ⟨values, rfl, hread⟩
  · exact hread
  · exact hread

namespace Slot.Means

variable {name : String}

theorem expr {e : Expr} (h : ∀ v, e.Encodes v → ReadsExpr e v) :
    (Slot.required name e.Encodes).Means ⟨name, .expr, e⟩ :=
  required h

theorem exprs {es : List Expr}
    (h : ∀ values, List.Forall₂ (fun encoder v => encoder v) (Expr.encoders es) values →
      List.Forall₂ ReadsExpr es values) :
    (Slot.defaulted name (Expr.encoders es)).Means ⟨name, .exprs, es⟩ where
  name := rfl
  play v hv := by
    obtain ⟨values, rfl, hvalues⟩ := hv
    exact read_list (h values hvalues)
  missing hmissing := by
    cases es with
    | nil => rfl
    | cons e es => contradiction

end Slot.Means

mutual

/-- An expression is read back from its encodings. -/
theorem Expr.Encodes.read : (e : Expr) → (v : Json) → e.Encodes v → ReadsExpr e v
  -- Each node is a table of slots against parts. The recursion is in the meanings of slots that hold nodes.
  | .literal type value place, v, h =>
    read_expr .literal rfl h (.cons .text (.cons .text (.cons .place .nil))) rfl fun fields hf => by
      obtain ⟨htype, hvalue, hplace, -⟩ := hf
      simp only [exprOf, htype.text, hvalue.text, hplace.place]
      rfl
  | .var name place, v, h =>
    read_expr .var rfl h (.cons .text (.cons .place .nil)) rfl fun fields hf => by
      obtain ⟨hname, hplace, -⟩ := hf
      simp only [exprOf, hname.text, hplace.place]
      rfl
  | .call name place args, v, h =>
    read_expr .call rfl h (.cons .text (.cons .place (.cons (.exprs (readAll args)) .nil))) rfl
      fun fields hf => by
        obtain ⟨hname, hplace, hargs, -⟩ := hf
        simp only [exprOf, hname.text, hplace.place, hargs.exprs]
        rfl
  | .binary op place lhs rhs, v, h =>
    read_expr .binary rfl h (.cons .text (.cons .place (.cons (.expr (read lhs))
      (.cons (.expr (read rhs)) .nil)))) rfl fun fields hf => by
        obtain ⟨hop, hplace, hlhs, hrhs, -⟩ := hf
        simp only [exprOf, hop.text, hplace.place, hlhs.expr, hrhs.expr]
        rfl
  | .unary op place operand, v, h =>
    read_expr .unary rfl h (.cons .text (.cons .place (.cons (.expr (read operand)) .nil))) rfl
      fun fields hf => by
        obtain ⟨hop, hplace, hoperand, -⟩ := hf
        simp only [exprOf, hop.text, hplace.place, hoperand.expr]
        rfl
  | .cast type place operand, v, h =>
    read_expr .cast rfl h (.cons .text (.cons .place (.cons (.expr (read operand)) .nil))) rfl
      fun fields hf => by
        obtain ⟨htype, hplace, hoperand, -⟩ := hf
        simp only [exprOf, htype.text, hplace.place, hoperand.expr]
        rfl
  | .group value, v, h =>
    read_expr .group rfl h (.cons (.expr (read value)) .nil) rfl fun fields hf => by
      obtain ⟨hvalue, -⟩ := hf
      simp only [exprOf, hvalue.expr]
      rfl
  | .format text place args, v, h =>
    read_expr .format rfl h (.cons .text (.cons .place (.cons (.exprs (readAll args)) .nil))) rfl
      fun fields hf => by
        obtain ⟨htext, hplace, hargs, -⟩ := hf
        simp only [exprOf, htext.text, hplace.place, hargs.exprs]
        rfl

theorem Expr.Encodes.readAll : (es : List Expr) → (values : List Json) →
    List.Forall₂ (fun encoder v => encoder v) (Expr.encoders es) values →
    List.Forall₂ ReadsExpr es values
  | [], _, h => by
    obtain _ | _ := h
    exact .nil
  | e :: es, _, h => by
    obtain _ | ⟨hv, hrest⟩ := h
    exact .cons (read e _ hv) (readAll es _ hrest)

end

/-! ## Declarations -/

theorem Slot.Means.optionalExpr {name : String} {o : Option Expr} :
    (Slot.optional name (o.map Expr.Encodes)).Means ⟨name, .optionalExpr, o⟩ where
  name := rfl
  play v hv := read_optional Expr.Encodes.read nofun hv
  missing h := by
    cases o with
    | some e => contradiction
    | none => rfl

/-- The parts of a declaration. -/
def Decl.parts (d : Decl) : List Part :=
  [⟨"const", .flag, d.isConst⟩, ⟨"type", .text, d.type⟩, ⟨"name", .text, d.name⟩,
    ⟨"at", .place, d.place⟩, ⟨"name_at", .optionalPlace, d.namePlace⟩,
    ⟨"init", .optionalExpr, d.init⟩]

theorem Decl.slots_means (d : Decl) : List.Forall₂ Slot.Means d.slots d.parts :=
  .cons .flag (.cons .text (.cons .text (.cons .place (.cons .optionalPlace (.cons .optionalExpr .nil)))))

theorem Decl.declOf {d : Decl} {fields : Fields} (h : fields.GivesAll d.parts) :
    declOf fields = .ok d := by
  obtain ⟨hconst, htype, hname, hplace, hnamePlace, hinit, -⟩ := h
  simp only [Document.declOf, hconst.flag, htype.text, hname.text, hplace.place, hnamePlace.optionalPlace,
    hinit.optionalExpr]
  rfl

/-- A declaration is read back from its encodings. -/
theorem Decl.read (d : Decl) (v : Json) (h : Encoder.node d.slots v) : v.reading.decl = .ok d := by
  have hnodup : (d.parts.map Part.name).Nodup := by
    show (declShape.map Prod.fst).Nodup
    decide
  rcases h.plain d.slots_means hnodup with ⟨entries, rfl, hcovers⟩ | ⟨values, rfl, hlength, hcovers⟩
  · show (Fields.ofObject (d.parts.map Part.field) (fieldReadings entries) >>= Document.declOf) = _
    rw [hcovers.ofObject]
    exact Decl.declOf (hcovers.givesAll false)
  · show (Fields.ofArray (d.parts.map Part.field) (readingsOf values) >>= Document.declOf) = _
    rw [hcovers.ofArray hlength]
    exact Decl.declOf (hcovers.givesAll true)

/-! ## Statements -/

/-- A value that is read as a statement. -/
def ReadsStmt (s : Stmt) (v : Json) : Prop := v.reading.stmt = .ok s

/-- A statement is read back if its fields give it. -/
theorem read_stmt (tag : StmtTag) {index : Nat} (hindex : StmtTag.all[index]? = some tag)
    {slots : List Slot} {v : Json} (h : Encoder.node (.required "stmt" (.tag tag.name index) :: slots) v)
    {parts : List Part} (hmeans : List.Forall₂ Slot.Means slots parts)
    (hshape : tag.shape = parts.map Part.field) {s : Stmt}
    (hof : ∀ fields : Fields, fields.GivesAll parts → stmtOf tag fields = .ok s) : ReadsStmt s v := by
  have hname : (StmtTag.all.find? fun t => t.name == tag.name) = some tag := by cases tag <;> rfl
  have hnodup : ("stmt" :: tag.shape.map Prod.fst).Nodup := by cases tag <;> decide
  rcases h.read_tagged (fun _ => readTag_ok hname hindex) StmtTag.shape hnodup hmeans hshape stmtOf hof with
    ⟨entries, rfl, hread⟩ | ⟨values, rfl, hread⟩
  · exact hread
  · exact hread

namespace Slot.Means

variable {name : String}

theorem exprRequired {e : Expr} : (Slot.required name e.Encodes).Means ⟨name, .expr, e⟩ :=
  expr (Expr.Encodes.read e)

theorem stmts {body : List Stmt}
    (h : ∀ values, List.Forall₂ (fun encoder v => encoder v) (Stmt.encoders body) values →
      List.Forall₂ ReadsStmt body values) :
    (Slot.required name (.list (Stmt.encoders body))).Means ⟨name, .stmts, body⟩ :=
  required fun v hv => by
    obtain ⟨values, rfl, hvalues⟩ := hv
    exact read_list (h values hvalues)

end Slot.Means

mutual

/-- A statement is read back from its encodings. -/
theorem Stmt.Encodes.read : (s : Stmt) → (v : Json) → s.Encodes v → ReadsStmt s v
  -- `read_stmt` finds tag and fields in either way of writing; what is left of each case is that
  -- the fields, once found, make the statement
  | .data decl, v, h =>
    read_stmt .data rfl h decl.slots_means rfl fun fields hf => by
      rw [stmtOf, Decl.declOf hf]
      rfl
  | .assign name place value, v, h =>
    read_stmt .assign rfl h (.cons .text (.cons .place (.cons .exprRequired .nil))) rfl fun fields hf => by
      obtain ⟨hname, hplace, hvalue, -⟩ := hf
      simp only [stmtOf, hname.text, hplace.place, hvalue.expr]
      rfl
  | .expr value, v, h =>
    read_stmt .expr rfl h (.cons .exprRequired .nil) rfl fun fields hf => by
      obtain ⟨hvalue, -⟩ := hf
      simp only [stmtOf, hvalue.expr]
      rfl
  | .branch place cond body otherwise, v, h =>
    read_stmt .branch rfl h (.cons .place (.cons .exprRequired (.cons (.stmts (readAll body))
      (.cons (readElse otherwise) .nil)))) rfl fun fields hf => by
        obtain ⟨hplace, hcond, hbody, helse, -⟩ := hf
        simp only [stmtOf, hplace.place, hcond.expr, hbody.stmts, helse.optionalStmt]
        rfl
  | .whileLoop place cond body, v, h =>
    read_stmt .whileLoop rfl h (.cons .place (.cons .optionalExpr (.cons (.stmts (readAll body)) .nil)))
      rfl fun fields hf => by
        obtain ⟨hplace, hcond, hbody, -⟩ := hf
        simp only [stmtOf, hplace.place, hcond.optionalExpr, hbody.stmts]
        rfl
  | .doLoop place body cond, v, h =>
    read_stmt .doLoop rfl h (.cons .place (.cons (.stmts (readAll body)) (.cons .optionalExpr .nil)))
      rfl fun fields hf => by
        obtain ⟨hplace, hbody, hcond, -⟩ := hf
        simp only [stmtOf, hplace.place, hcond.optionalExpr, hbody.stmts]
        rfl
  | .ret place value, v, h =>
    read_stmt .ret rfl h (.cons .place (.cons .optionalExpr .nil)) rfl fun fields hf => by
      obtain ⟨hplace, hvalue, -⟩ := hf
      simp only [stmtOf, hplace.place, hvalue.optionalExpr]
      rfl
  | .yield place value, v, h =>
    read_stmt .yield rfl h (.cons .place (.cons .optionalExpr .nil)) rfl fun fields hf => by
      obtain ⟨hplace, hvalue, -⟩ := hf
      simp only [stmtOf, hplace.place, hvalue.optionalExpr]
      rfl
  | .brk place, v, h =>
    read_stmt .brk rfl h (.cons .place .nil) rfl fun fields hf => by
      simp only [stmtOf, hf.1.place]
      rfl
  | .cont place, v, h =>
    read_stmt .cont rfl h (.cons .place .nil) rfl fun fields hf => by
      simp only [stmtOf, hf.1.place]
      rfl
  | .inline place text, v, h =>
    read_stmt .inline rfl h (.cons .place (.cons .text .nil)) rfl fun fields hf => by
      obtain ⟨hplace, htext, -⟩ := hf
      simp only [stmtOf, hplace.place, htext.text]
      rfl
  | .block place body, v, h =>
    read_stmt .block rfl h (.cons .place (.cons (.stmts (readAll body)) .nil)) rfl fun fields hf => by
      obtain ⟨hplace, hbody, -⟩ := hf
      simp only [stmtOf, hplace.place, hbody.stmts]
      rfl

theorem Stmt.Encodes.readAll : (body : List Stmt) → (values : List Json) →
    List.Forall₂ (fun encoder v => encoder v) (Stmt.encoders body) values →
    List.Forall₂ ReadsStmt body values
  | [], _, h => by
    obtain _ | _ := h
    exact .nil
  | s :: body, _, h => by
    obtain _ | ⟨hv, hrest⟩ := h
    exact .cons (read s _ hv) (readAll body _ hrest)

theorem Stmt.Encodes.readElse : (o : Option Stmt) →
    (Slot.optional "else" (Stmt.optionEncoder o)).Means ⟨"else", .optionalStmt, o⟩
  | none => ⟨rfl, fun v hv => by obtain rfl := hv; rfl, fun _ => rfl⟩
  | some s => ⟨rfl, fun v hv => read_some (read s v hv) nofun, nofun⟩

end

end Semant.Document
