import Semant.Document.Lower
import Semant.Proofs.Nodes

/-!
# The trees that documents give

A document is lowered by a builder that takes a new number for every node, gives every literal a
type and makes type names by one construction. So a tree that was loaded has no node twice, no
literal without a type and no type name that names nothing (`Program.load_wellBuilt`).

`WellBuilt events lo hi` says this of the events of one construction that started at the number `lo`
and left the builder at `hi`. Two constructions after each other have their numbers in two ranges
after each other, so nothing about one part is needed in the proof of the next.
-/

set_option autoImplicit false

namespace Semant

/-- The nodes that the events enter are numbered from `lo` up to `hi`, each with a number of its
own; types are named and literals typed. -/
structure WellBuilt (events : List Event) (lo hi : NodeId) : Prop where
  le : lo ≤ hi
  range : ∀ n ∈ entered events, lo ≤ n ∧ n < hi
  distinct : (entered events).Nodup
  named : ∀ event ∈ events, ∀ token ∈ event.typeNames, token.type?.isSome
  typed : ∀ event ∈ events, ∀ literals, event.untyped? literals = none

/-- What the event says of types and literals is complete. -/
def Event.Plain (event : Event) : Prop :=
  (∀ token ∈ event.typeNames, token.type?.isSome) ∧ ∀ literals, event.untyped? literals = none

namespace WellBuilt

theorem nil (n : NodeId) : WellBuilt [] n n :=
  ⟨Nat.le_refl n, by simp, by simp, by simp, by simp⟩

theorem append {first rest : List Event} {lo mid hi : NodeId} (h : WellBuilt first lo mid)
    (h' : WellBuilt rest mid hi) : WellBuilt (first ++ rest) lo hi where
  le := Nat.le_trans h.le h'.le
  range := by
    intro n hn
    rw [entered_append] at hn
    rcases List.mem_append.mp hn with hn | hn
    · exact ⟨(h.range n hn).1, Nat.lt_of_lt_of_le (h.range n hn).2 h'.le⟩
    · exact ⟨Nat.le_trans h.le (h'.range n hn).1, (h'.range n hn).2⟩
  distinct := by
    rw [entered_append]
    refine List.nodup_append.mpr ⟨h.distinct, h'.distinct, ?_⟩
    rintro n hn m hm rfl
    exact Nat.lt_irrefl n (Nat.lt_of_lt_of_le (h.range n hn).2 (h'.range n hm).1)
  named := by
    intro event hm
    rcases List.mem_append.mp hm with hm | hm
    · exact h.named event hm
    · exact h'.named event hm
  typed := by
    intro event hm
    rcases List.mem_append.mp hm with hm | hm
    · exact h.typed event hm
    · exact h'.typed event hm

/-- A node that takes the next number, after its parts were built. -/
theorem node {parts whole : List Event} {lo hi : NodeId} (h : WellBuilt parts lo hi)
    (hentered : entered whole = hi :: entered parts)
    (hown : ∀ event ∈ whole, event ∈ parts ∨ event.Plain) : WellBuilt whole lo (hi + 1) where
  le := Nat.le_succ_of_le h.le
  range := by
    intro n hn
    rw [hentered] at hn
    rcases List.mem_cons.mp hn with rfl | hn
    · exact ⟨h.le, Nat.lt_succ_self n⟩
    · exact ⟨(h.range n hn).1, Nat.lt_succ_of_lt (h.range n hn).2⟩
  distinct := by
    rw [hentered]
    exact List.nodup_cons.mpr ⟨fun hm => Nat.lt_irrefl hi (h.range hi hm).2, h.distinct⟩
  named := fun event hm => (hown event hm).elim (h.named event) And.left
  typed := fun event hm => (hown event hm).elim (h.typed event) And.right

theorem unnumbered {parts whole : List Event} {lo hi : NodeId} (h : WellBuilt parts lo hi)
    (hentered : entered whole = entered parts)
    (hown : ∀ event ∈ whole, event ∈ parts ∨ event.Plain) : WellBuilt whole lo hi where
  le := h.le
  range := fun n hn => h.range n (hentered ▸ hn)
  distinct := hentered ▸ h.distinct
  named := fun event hm => (hown event hm).elim (h.named event) And.left
  typed := fun event hm => (hown event hm).elim (h.typed event) And.right

end WellBuilt

/-! ## The builder -/

namespace Build

variable {α β : Type} {b b' : Builder}

theorem bind_ok {x : Build α} {f : α → Build β} {r : β} :
    (x >>= f).run b = .ok r b' ↔ ∃ a b₁, x.run b = .ok a b₁ ∧ (f a).run b₁ = .ok r b' := by
  rw [EStateM.run_bind]
  cases x.run b with
  | error e b₁ => simp
  | ok a b₁ =>
    constructor
    · intro h
      exact ⟨a, b₁, rfl, h⟩
    · rintro ⟨a', b₁', h, h'⟩
      cases h
      exact h'

theorem pure_ok {a r : α} : (pure a : Build α).run b = .ok r b' ↔ a = r ∧ b = b' := by
  rw [EStateM.run_pure]
  simp

theorem ofExcept_ok {x : Except BuildError α} {r : α} :
    (ofExcept x : Build α).run b = .ok r b' ↔ x = .ok r ∧ b = b' := by
  cases x with
  | error e =>
    constructor
    · intro h
      cases h
    · rintro ⟨h, -⟩
      cases h
  | ok a => exact pure_ok.trans (by simp)

theorem fresh_ok {n : NodeId} (h : fresh.run b = .ok n b') : n = b.next ∧ b'.next = b.next + 1 := by
  cases h
  exact ⟨rfl, rfl⟩

theorem token_ok {kind : TokenKind} {raw : String} {t : Token}
    (h : (token kind raw).run b = .ok t b') : t.kind = kind ∧ t.raw = raw ∧ b'.next = b.next := by
  simp only [token, EStateM.run_bind, EStateM.run_get] at h
  split at h
  · cases h
  · cases h
    exact ⟨rfl, rfl, rfl⟩

theorem identifier_ok {name : String} {i : Identifier}
    (h : (identifier name).run b = .ok i b') : b'.next = b.next := by
  obtain ⟨t, b₁, ht, hp⟩ := bind_ok.mp h
  cases hp
  exact (token_ok ht).2.2

/-- **A type name names a type**: a built-in one, or a struct. -/
theorem typeName_ok {name : String} {t : Token} (h : (typeName name).run b = .ok t b') :
    t.type?.isSome ∧ b'.next = b.next := by
  obtain ⟨hkind, -, hnext⟩ := token_ok h
  refine ⟨?_, hnext⟩
  unfold TokenKind.ofTypeWord? at hkind
  split at hkind <;> simp [Token.type?, hkind, TokenKind.builtin?]

/-- A node with one token: the token is made first, then the number is taken. -/
theorem numbered_ok {kind : TokenKind} {raw : String} {make : Token → NodeId → α} {r : α}
    (h : (do let t ← token kind raw; return make t (← fresh) : Build α).run b = .ok r b') :
    (∃ t, r = make t b.next) ∧ b'.next = b.next + 1 := by
  simp only [bind_ok, pure_ok] at h
  obtain ⟨t, b₁, ht, n, b₂, hf, rfl, rfl⟩ := h
  obtain ⟨rfl, hnext⟩ := fresh_ok hf
  rw [hnext, (token_ok ht).2.2]
  exact ⟨⟨t, rfl⟩, rfl⟩

theorem named_ok {name : String} {make : Identifier → NodeId → α} {r : α}
    (h : (do let i ← identifier name; return make i (← fresh) : Build α).run b = .ok r b') :
    (∃ i, r = make i b.next) ∧ b'.next = b.next + 1 := by
  simp only [bind_ok, pure_ok] at h
  obtain ⟨i, b₁, hi, n, b₂, hf, rfl, rfl⟩ := h
  obtain ⟨rfl, hnext⟩ := fresh_ok hf
  rw [hnext, identifier_ok hi]
  exact ⟨⟨i, rfl⟩, rfl⟩

/-- A name takes two numbers, for the node that has the symbol and for the expression around it. -/
theorem reference_ok {name : String} {make : Identifier → NodeId → NodeId → α} {r : α}
    (h : (do
      let i ← identifier name
      let node ← fresh
      return make i (← fresh) node : Build α).run b = .ok r b') :
    (∃ i, r = make i (b.next + 1) b.next) ∧ b'.next = b.next + 1 + 1 := by
  simp only [bind_ok, pure_ok] at h
  obtain ⟨i, b₁, hi, node, b₂, hf, n, b₃, hf', rfl, rfl⟩ := h
  obtain ⟨rfl, hnext⟩ := fresh_ok hf
  obtain ⟨rfl, hnext'⟩ := fresh_ok hf'
  rw [hnext', hnext, identifier_ok hi]
  exact ⟨⟨i, rfl⟩, rfl⟩

theorem cast_ok {type : String} {operand e : Expr} (h : (cast type operand).run b = .ok e b') :
    (∃ t, t.type?.isSome ∧ e = .cast b.next t operand) ∧ b'.next = b.next + 1 := by
  simp only [cast, castTo, bind_ok, pure_ok] at h
  obtain ⟨t, b₁, ht, n, b₂, hf, rfl, rfl⟩ := h
  obtain ⟨rfl, hnext⟩ := fresh_ok hf
  obtain ⟨htype, hsame⟩ := typeName_ok ht
  rw [hnext, hsame]
  exact ⟨⟨t, htype, rfl⟩, rfl⟩

theorem keyword_ok {kind : TokenKind} {make : Token → α} {r : α}
    (h : (do let t ← keyword kind; return make t : Build α).run b = .ok r b') :
    (∃ t, r = make t) ∧ b'.next = b.next := by
  simp only [bind_ok, pure_ok] at h
  obtain ⟨t, b₁, ht, rfl, rfl⟩ := h
  exact ⟨⟨t, rfl⟩, (token_ok ht).2.2⟩

end Build

namespace Document

variable {b b' : Builder}

theorem moveTo_ok {α : Type} {place : Place} {x : Build α} {r : α}
    (h : (do moveTo place; x : Build α).run b = .ok r b') :
    ∃ b₁ : Builder, b₁.next = b.next ∧ x.run b₁ = .ok r b' :=
  ⟨{ b with line := place.line, column := place.column }, rfl, h⟩

theorem lowerName_ok {name : String} {place : Option Place} {i : Identifier}
    (h : (lowerName name place).run b = .ok i b') : b'.next = b.next := by
  cases place with
  | none => exact Build.identifier_ok h
  | some place =>
    obtain ⟨b₁, hb, hi⟩ := moveTo_ok h
    exact (Build.identifier_ok hi).trans hb

/-- An expression that takes the next number after its parts were built. -/
theorem wellBuilt_expr {e : Semant.Expr} {parts : List Event} {exit : Event} {lo hi : NodeId}
    (h : WellBuilt parts lo hi) (hid : e.id = hi) (hexit : exit.Plain)
    (hentered : exit.entered? = none) :
    WellBuilt (.enterExpr e :: (parts ++ [exit, .exitExpr e])) lo (hi + 1) := by
  refine h.node ?_ ?_
  · rw [entered_cons, entered_append, entered_cons, hentered]
    simp [Event.entered?, entered_cons, hid]
  · intro event hm
    simp only [List.mem_cons, List.mem_append, List.not_mem_nil, or_false] at hm
    rcases hm with rfl | hm | rfl | rfl
    · exact Or.inr (by simp [Event.Plain, Event.typeNames, Event.untyped?])
    · exact Or.inl hm
    · exact Or.inr hexit
    · exact Or.inr (by simp [Event.Plain, Event.typeNames, Event.untyped?])

/-- The node inside a variable or a call takes the next number after the arguments were built. -/
theorem wellBuilt_name {parts : List Event} {enter : Event} {lo hi : NodeId}
    (h : WellBuilt parts lo hi) (hentered : enter.entered? = some hi) (henter : enter.Plain) :
    WellBuilt (enter :: parts) lo (hi + 1) := by
  refine h.node (by simp [entered_cons, hentered]) fun event hm => ?_
  rcases List.mem_cons.mp hm with rfl | hm
  · exact Or.inr henter
  · exact Or.inl hm

mutual

theorem Expr.wellBuilt : ∀ (d : Expr) {b b' : Builder} {e : Semant.Expr},
    d.lower.run b = .ok e b' → WellBuilt e.events b.next b'.next
  -- in every case the operands are built first, so their numbers lie below that of the node, which
  -- is the last one taken
  | .literal type value place, b, b', e, h => by
    obtain ⟨⟨kind, type⟩, b₁, hk, h⟩ := Build.bind_ok.mp h
    obtain ⟨-, rfl⟩ := Build.ofExcept_ok.mp hk
    obtain ⟨b₂, hb, h⟩ := moveTo_ok h
    obtain ⟨⟨t, rfl⟩, hnext⟩ := Build.numbered_ok h
    rw [hnext, hb]
    exact wellBuilt_expr (.nil _) rfl (by simp [Event.Plain, Event.typeNames, Event.untyped?]) rfl
  | .var name place, b, b', e, h => by
    obtain ⟨b₁, hb, h⟩ := moveTo_ok h
    obtain ⟨⟨i, rfl⟩, hnext⟩ := Build.reference_ok h
    rw [hnext, hb]
    exact wellBuilt_expr (wellBuilt_name (.nil _) rfl (by simp [Event.Plain, Event.typeNames, Event.untyped?]))
      rfl (by simp [Event.Plain, Event.typeNames, Event.untyped?]) rfl
  | .call name place args, b, b', e, h => by
    obtain ⟨args', b₁, ha, h⟩ := Build.bind_ok.mp h
    obtain ⟨b₂, hb, h⟩ := moveTo_ok h
    obtain ⟨⟨i, rfl⟩, hnext⟩ := Build.reference_ok h
    rw [hnext, hb]
    exact wellBuilt_expr (wellBuilt_name (Expr.wellBuiltList args ha) rfl
      (by simp [Event.Plain, Event.typeNames, Event.untyped?]))
      rfl (by simp [Event.Plain, Event.typeNames, Event.untyped?]) rfl
  | .binary op place lhs rhs, b, b', e, h => by
    obtain ⟨op', b₁, hop, h⟩ := Build.bind_ok.mp h
    obtain ⟨-, rfl⟩ := Build.ofExcept_ok.mp hop
    obtain ⟨l, b₂, hl, h⟩ := Build.bind_ok.mp h
    obtain ⟨r, b₃, hr, h⟩ := Build.bind_ok.mp h
    obtain ⟨b₄, hb, h⟩ := moveTo_ok h
    obtain ⟨⟨t, rfl⟩, hnext⟩ := Build.numbered_ok h
    rw [hnext, hb]
    exact wellBuilt_expr ((lhs.wellBuilt hl).append (rhs.wellBuilt hr)) rfl
      (by simp [Event.Plain, Event.typeNames, Event.untyped?]) rfl
  | .unary op place operand, b, b', e, h => by
    obtain ⟨op', b₁, hop, h⟩ := Build.bind_ok.mp h
    obtain ⟨-, rfl⟩ := Build.ofExcept_ok.mp hop
    obtain ⟨x, b₂, hx, h⟩ := Build.bind_ok.mp h
    obtain ⟨b₃, hb, h⟩ := moveTo_ok h
    obtain ⟨⟨t, rfl⟩, hnext⟩ := Build.numbered_ok h
    rw [hnext, hb]
    exact wellBuilt_expr (operand.wellBuilt hx) rfl
      (by simp [Event.Plain, Event.typeNames, Event.untyped?]) rfl
  | .cast type place operand, b, b', e, h => by
    obtain ⟨x, b₁, hx, h⟩ := Build.bind_ok.mp h
    obtain ⟨b₂, hb, h⟩ := moveTo_ok h
    obtain ⟨⟨t, ht, rfl⟩, hnext⟩ := Build.cast_ok h
    rw [hnext, hb]
    exact wellBuilt_expr (operand.wellBuilt hx) rfl
      (by simpa [Event.Plain, Event.typeNames, Event.untyped?] using ht) rfl
  | .group value, b, b', e, h => by
    obtain ⟨x, b₁, hx, h⟩ := Build.bind_ok.mp h
    obtain ⟨n, b₂, hf, h⟩ := Build.bind_ok.mp h
    obtain ⟨rfl, rfl⟩ := Build.pure_ok.mp h
    obtain ⟨rfl, hnext⟩ := Build.fresh_ok hf
    rw [hnext]
    exact wellBuilt_expr (value.wellBuilt hx) rfl
      (by simp [Event.Plain, Event.typeNames, Event.untyped?]) rfl
  | .format text place args, b, b', e, h => by
    obtain ⟨args', b₁, ha, h⟩ := Build.bind_ok.mp h
    obtain ⟨b₂, hb, h⟩ := moveTo_ok h
    obtain ⟨⟨t, rfl⟩, hnext⟩ := Build.numbered_ok h
    rw [hnext, hb]
    exact wellBuilt_expr (Expr.wellBuiltList args ha) rfl
      (by simp [Event.Plain, Event.typeNames, Event.untyped?]) rfl

theorem Expr.wellBuiltList : ∀ (ds : List Expr) {b b' : Builder} {es : List Semant.Expr},
    (Expr.lowerList ds).run b = .ok es b' →
      WellBuilt (Semant.Expr.eventsOfList es) b.next b'.next
  | [], b, b', es, h => by
    obtain ⟨rfl, rfl⟩ := Build.pure_ok.mp h
    exact .nil _
  | d :: rest, b, b', es, h => by
    obtain ⟨e, b₁, he, h⟩ := Build.bind_ok.mp h
    obtain ⟨es', b₂, hr, h⟩ := Build.bind_ok.mp h
    obtain ⟨rfl, rfl⟩ := Build.pure_ok.mp h
    exact (d.wellBuilt he).append (Expr.wellBuiltList rest hr)

end

theorem Expr.wellBuiltOption (d : Option Expr) {e : Option Semant.Expr}
    (h : (Expr.lowerOption d).run b = .ok e b') :
    WellBuilt (Semant.Expr.eventsOfOption e) b.next b'.next := by
  cases d with
  | none =>
    obtain ⟨rfl, rfl⟩ := Build.pure_ok.mp h
    exact .nil _
  | some d =>
    obtain ⟨x, b₁, hx, h⟩ := Build.bind_ok.mp h
    obtain ⟨rfl, rfl⟩ := Build.pure_ok.mp h
    exact d.wellBuilt hx

/-- A keyword that may stand in front takes no number. -/
theorem optional_ok {α : Type} {front : Bool} {kind : TokenKind} {x : Build α} {r : α}
    (h : (do if front then { let _ ← Build.keyword kind }; x : Build α).run b = .ok r b') :
    ∃ b₁ : Builder, b₁.next = b.next ∧ x.run b₁ = .ok r b' := by
  cases front with
  | false => exact ⟨b, rfl, h⟩
  | true =>
    obtain ⟨t, b₁, ht, h⟩ := Build.bind_ok.mp h
    exact ⟨b₁, (Build.token_ok ht).2.2, h⟩

/-- A declaration takes one number, and its type is named. -/
theorem Decl.lower_ok {d : Decl} {r : Semant.Decl} (h : d.lower.run b = .ok r b') :
    r.id = b.next ∧ r.type.type?.isSome ∧ b'.next = b.next + 1 := by
  obtain ⟨b₁, hb₁, h⟩ := moveTo_ok h
  obtain ⟨b₂, hb₂, h⟩ := optional_ok h
  obtain ⟨t, b₃, ht, h⟩ := Build.bind_ok.mp h
  obtain ⟨i, b₄, hi, h⟩ := Build.bind_ok.mp h
  obtain ⟨n, b₅, hf, h⟩ := Build.bind_ok.mp h
  obtain ⟨rfl, rfl⟩ := Build.pure_ok.mp h
  obtain ⟨rfl, hnext⟩ := Build.fresh_ok hf
  obtain ⟨htype, hb₃⟩ := Build.typeName_ok ht
  have hsame : b₄.next = b.next := by rw [lowerName_ok hi, hb₃, hb₂, hb₁]
  exact ⟨hsame, htype, by rw [hnext, hsame]⟩

theorem Decl.wellBuiltData {d : Decl} {r : DataDef} (h : d.lowerData.run b = .ok r b') :
    WellBuilt r.events b.next b'.next := by
  obtain ⟨decl, b₁, hd, h⟩ := Build.bind_ok.mp h
  obtain ⟨init, b₂, hi, h⟩ := Build.bind_ok.mp h
  obtain ⟨rfl, rfl⟩ := Build.pure_ok.mp h
  obtain ⟨hid, htype, hnext⟩ := Decl.lower_ok hd
  have hdecl : WellBuilt [.enterDecl decl] b.next b₁.next := by
    rw [hnext]
    refine (WellBuilt.nil _).node ?_ ?_
    · simp [entered_cons, Event.entered?, hid]
    · simpa [Event.Plain, Event.typeNames, Event.untyped?] using htype
  refine (hdecl.append (Expr.wellBuiltOption d.init hi)).unnumbered ?_ ?_
  · simp [DataDef.events, entered_cons, Event.entered?]
  · grind [DataDef.events, Event.Plain, Event.typeNames, Event.untyped?]

/-- A block takes its number after its statements. -/
theorem wellBuilt_block {place : Place} {body : Build (List Semant.Stmt)} {r : Block}
    (hbody : ∀ {b b' : Builder} {stmts : List Semant.Stmt}, body.run b = .ok stmts b' →
      WellBuilt (Semant.Stmt.eventsOfList stmts) b.next b'.next)
    (h : (lowerBlock place body).run b = .ok r b') : WellBuilt r.events b.next b'.next := by
  obtain ⟨stmts, b₁, hs, h⟩ := Build.bind_ok.mp h
  obtain ⟨b₂, hb, h⟩ := moveTo_ok h
  obtain ⟨⟨t, rfl⟩, hnext⟩ := Build.numbered_ok h
  rw [hnext, hb]
  refine (hbody hs).node ?_ ?_
  · simp [Block.events, entered_cons, Event.entered?, Block.id]
  · grind [Block.events, Event.Plain, Event.typeNames, Event.untyped?]

theorem wellBuilt_conditional {place : Place} {cond : Build Semant.Expr} {body : Build Block}
    {otherwise : Build Else} {r : Conditional}
    (hcond : ∀ {b b' : Builder} {e : Semant.Expr}, cond.run b = .ok e b' →
      WellBuilt e.events b.next b'.next)
    (hbody : ∀ {b b' : Builder} {e : Block}, body.run b = .ok e b' →
      WellBuilt e.events b.next b'.next)
    (helse : ∀ {b b' : Builder} {e : Else}, otherwise.run b = .ok e b' →
      WellBuilt e.events b.next b'.next)
    (h : (lowerConditional place cond body otherwise).run b = .ok r b') :
    WellBuilt r.events b.next b'.next := by
  obtain ⟨c, b₁, hc, h⟩ := Build.bind_ok.mp h
  obtain ⟨y, b₂, hy, h⟩ := Build.bind_ok.mp h
  obtain ⟨z, b₃, hz, h⟩ := Build.bind_ok.mp h
  obtain ⟨b₄, hb, h⟩ := moveTo_ok h
  obtain ⟨⟨t, rfl⟩, hnext⟩ := Build.keyword_ok h
  rw [hnext, hb]
  refine (((hcond hc).append (hbody hy)).append (helse hz)).unnumbered ?_ ?_
  · simp [Conditional.events, entered_cons, Event.entered?]
  · grind [Conditional.events, Event.Plain, Event.typeNames, Event.untyped?]

mutual

theorem Stmt.wellBuilt : ∀ (d : Stmt) {b b' : Builder} {s : Semant.Stmt},
    d.lower.run b = .ok s b' → WellBuilt s.events b.next b'.next
  | .data decl, b, b', s, h => by
    obtain ⟨x, b₁, hx, h⟩ := Build.bind_ok.mp h
    obtain ⟨rfl, rfl⟩ := Build.pure_ok.mp h
    exact Decl.wellBuiltData hx
  | .assign name place value, b, b', s, h => by
    obtain ⟨x, b₁, hx, h⟩ := Build.bind_ok.mp h
    obtain ⟨b₂, hb, h⟩ := moveTo_ok h
    obtain ⟨a, b₃, ha, h⟩ := Build.bind_ok.mp h
    obtain ⟨rfl, rfl⟩ := Build.pure_ok.mp h
    obtain ⟨⟨t, rfl⟩, hnext⟩ := Build.named_ok ha
    rw [hnext, hb]
    refine (value.wellBuilt hx).node ?_ ?_
    · simp [Semant.Stmt.events, entered_cons, Event.entered?]
    · grind [Semant.Stmt.events, Event.Plain, Event.typeNames, Event.untyped?]
  | .expr value, b, b', s, h => by
    obtain ⟨x, b₁, hx, h⟩ := Build.bind_ok.mp h
    obtain ⟨rfl, rfl⟩ := Build.pure_ok.mp h
    exact value.wellBuilt hx
  | .branch place cond body otherwise, b, b', s, h => by
    obtain ⟨x, b₁, hx, h⟩ := Build.bind_ok.mp h
    obtain ⟨rfl, rfl⟩ := Build.pure_ok.mp h
    exact wellBuilt_conditional cond.wellBuilt (wellBuilt_block (Stmt.wellBuiltList body))
      (Stmt.wellBuiltElse place otherwise) hx
  | .whileLoop place cond body, b, b', s, h => by
    obtain ⟨c, b₁, hc, h⟩ := Build.bind_ok.mp h
    obtain ⟨y, b₂, hy, h⟩ := Build.bind_ok.mp h
    obtain ⟨b₃, hb, h⟩ := moveTo_ok h
    obtain ⟨⟨t, rfl⟩, hnext⟩ := Build.keyword_ok h
    rw [hnext, hb]
    refine ((Expr.wellBuiltOption cond hc).append
      (wellBuilt_block (Stmt.wellBuiltList body) hy)).unnumbered ?_ ?_
    · simp [Semant.Stmt.events, entered_cons, Event.entered?]
    · grind [Semant.Stmt.events, Event.Plain, Event.typeNames, Event.untyped?]
  | .doLoop place body cond, b, b', s, h => by
    obtain ⟨y, b₁, hy, h⟩ := Build.bind_ok.mp h
    obtain ⟨c, b₂, hc, h⟩ := Build.bind_ok.mp h
    obtain ⟨b₃, hb, h⟩ := moveTo_ok h
    obtain ⟨⟨t, rfl⟩, hnext⟩ := Build.keyword_ok h
    rw [hnext, hb]
    refine ((wellBuilt_block (Stmt.wellBuiltList body) hy).append
      (Expr.wellBuiltOption cond hc)).unnumbered ?_ ?_
    · simp [Semant.Stmt.events, entered_cons, Event.entered?]
    · grind [Semant.Stmt.events, Event.Plain, Event.typeNames, Event.untyped?]
  | .ret place value, b, b', s, h => by
    obtain ⟨x, b₁, hx, h⟩ := Build.bind_ok.mp h
    obtain ⟨b₂, hb, h⟩ := moveTo_ok h
    obtain ⟨⟨t, rfl⟩, hnext⟩ := Build.keyword_ok h
    rw [hnext, hb]
    refine (Expr.wellBuiltOption value hx).unnumbered ?_ ?_
    · simp [Semant.Stmt.events, entered_cons, Event.entered?]
    · grind [Semant.Stmt.events, Event.Plain, Event.typeNames, Event.untyped?]
  | .yield place value, b, b', s, h => by
    obtain ⟨x, b₁, hx, h⟩ := Build.bind_ok.mp h
    obtain ⟨b₂, hb, h⟩ := moveTo_ok h
    obtain ⟨⟨t, rfl⟩, hnext⟩ := Build.keyword_ok h
    rw [hnext, hb]
    refine (Expr.wellBuiltOption value hx).unnumbered ?_ ?_
    · simp [Semant.Stmt.events, entered_cons, Event.entered?]
    · grind [Semant.Stmt.events, Event.Plain, Event.typeNames, Event.untyped?]
  | .brk place, b, b', s, h | .cont place, b, b', s, h | .inline place text, b, b', s, h => by
    obtain ⟨b₁, hb, h⟩ := moveTo_ok h
    obtain ⟨⟨t, rfl⟩, hnext⟩ := Build.keyword_ok h
    rw [hnext, hb]
    refine (WellBuilt.nil _).unnumbered ?_ ?_
    · simp [Semant.Stmt.events, entered_cons, Event.entered?]
    · simp [Semant.Stmt.events, Event.Plain, Event.typeNames, Event.untyped?]
  | .block place body, b, b', s, h => by
    obtain ⟨x, b₁, hx, h⟩ := Build.bind_ok.mp h
    obtain ⟨rfl, rfl⟩ := Build.pure_ok.mp h
    exact wellBuilt_block (Stmt.wellBuiltList body) hx

theorem Stmt.wellBuiltList : ∀ (ds : List Stmt) {b b' : Builder} {ss : List Semant.Stmt},
    (Stmt.lowerList ds).run b = .ok ss b' →
      WellBuilt (Semant.Stmt.eventsOfList ss) b.next b'.next
  | [], b, b', ss, h => by
    obtain ⟨rfl, rfl⟩ := Build.pure_ok.mp h
    exact .nil _
  | d :: rest, b, b', ss, h => by
    obtain ⟨s, b₁, hs, h⟩ := Build.bind_ok.mp h
    obtain ⟨ss', b₂, hr, h⟩ := Build.bind_ok.mp h
    obtain ⟨rfl, rfl⟩ := Build.pure_ok.mp h
    exact (d.wellBuilt hs).append (Stmt.wellBuiltList rest hr)

theorem Stmt.wellBuiltElse (place : Place) : ∀ (d : Option Stmt) {b b' : Builder} {e : Else},
    (Stmt.lowerElse place d).run b = .ok e b' → WellBuilt e.events b.next b'.next
  | none, b, b', e, h => by
    obtain ⟨rfl, rfl⟩ := Build.pure_ok.mp h
    exact .nil _
  | some (.branch next cond body otherwise), b, b', e, h => by
    obtain ⟨x, b₁, hx, h⟩ := Build.bind_ok.mp h
    obtain ⟨rfl, rfl⟩ := Build.pure_ok.mp h
    exact wellBuilt_conditional cond.wellBuilt (wellBuilt_block (Stmt.wellBuiltList body))
      (Stmt.wellBuiltElse next otherwise) hx
  | some (.block next body), b, b', e, h => by
    obtain ⟨x, b₁, hx, h⟩ := Build.bind_ok.mp h
    obtain ⟨rfl, rfl⟩ := Build.pure_ok.mp h
    exact wellBuilt_block (Stmt.wellBuiltList body) hx
  | some (.data _), _, _, _, h | some (.assign ..), _, _, _, h | some (.expr _), _, _, _, h
  | some (.whileLoop ..), _, _, _, h | some (.doLoop ..), _, _, _, h | some (.ret ..), _, _, _, h
  | some (.yield ..), _, _, _, h | some (.brk _), _, _, _, h | some (.cont _), _, _, _, h
  | some (.inline ..), _, _, _, h => by cases h

end

theorem Decl.wellBuiltList (f : Function) : ∀ (ds : List Decl) {b b' : Builder}
    {rs : List Semant.Decl}, (Decl.lowerList ds).run b = .ok rs b' →
      WellBuilt (rs.map (Event.enterParam f)) b.next b'.next
  | [], b, b', rs, h => by
    obtain ⟨rfl, rfl⟩ := Build.pure_ok.mp h
    exact .nil _
  | d :: rest, b, b', rs, h => by
    obtain ⟨r, b₁, hd, h⟩ := Build.bind_ok.mp h
    obtain ⟨rs', b₂, hr, h⟩ := Build.bind_ok.mp h
    obtain ⟨rfl, rfl⟩ := Build.pure_ok.mp h
    obtain ⟨hid, htype, hnext⟩ := Decl.lower_ok hd
    have hone : WellBuilt [.enterParam f r] b.next b₁.next := by
      rw [hnext]
      refine (WellBuilt.nil _).node ?_ ?_
      · simp [entered_cons, Event.entered?, hid]
      · simpa [Event.Plain, Event.typeNames, Event.untyped?] using htype
    exact hone.append (Decl.wellBuiltList f rest hr)

/-- A function takes its number after its parameters and its body. -/
theorem wellBuilt_function (f : Function) (htype : f.returns.type?.isSome) {lo mid : NodeId}
    (hparams : WellBuilt (f.params.map (Event.enterParam f)) lo mid)
    (hbody : WellBuilt f.body.events mid f.id) : WellBuilt f.events lo (f.id + 1) := by
  refine (hparams.append hbody).node ?_ ?_
  · simp [Function.events, entered_cons, Event.entered?]
  · have hfirst : (Event.enterFunction f).Plain := by
      simpa [Event.Plain, Event.typeNames, Event.untyped?] using htype
    grind [Function.events, Event.Plain, Event.typeNames, Event.untyped?]

theorem Item.wellBuilt (d : Item) {item : Semant.Item} (h : d.lower.run b = .ok item b') :
    WellBuilt item.events b.next b'.next := by
  cases d with
  | imports path place =>
    obtain ⟨b₁, hb, h⟩ := moveTo_ok h
    obtain ⟨i, b₂, hi, h⟩ := Build.bind_ok.mp h
    obtain ⟨rfl, rfl⟩ := Build.pure_ok.mp h
    obtain ⟨-, hnext⟩ := Build.keyword_ok hi
    rw [hnext, hb]
    refine (WellBuilt.nil _).unnumbered ?_ ?_
    · simp [Semant.Item.events, entered_cons, Event.entered?]
    · simp [Semant.Item.events, Event.Plain, Event.typeNames, Event.untyped?]
  | data decl =>
    obtain ⟨x, b₁, hx, h⟩ := Build.bind_ok.mp h
    obtain ⟨rfl, rfl⟩ := Build.pure_ok.mp h
    exact Decl.wellBuiltData hx
  | function isIterator returns name place namePlace params body =>
    obtain ⟨b₁, hb₁, h⟩ := moveTo_ok h
    obtain ⟨b₂, hb₂, h⟩ := optional_ok h
    obtain ⟨t, b₃, ht, h⟩ := Build.bind_ok.mp h
    obtain ⟨i, b₄, hi, h⟩ := Build.bind_ok.mp h
    obtain ⟨ps, b₅, hps, h⟩ := Build.bind_ok.mp h
    obtain ⟨y, b₆, hy, h⟩ := Build.bind_ok.mp h
    obtain ⟨f, b₇, hf, h⟩ := Build.bind_ok.mp h
    obtain ⟨rfl, rfl⟩ := Build.pure_ok.mp h
    obtain ⟨n, b₈, hn, hf⟩ := Build.bind_ok.mp hf
    obtain ⟨rfl, rfl⟩ := Build.pure_ok.mp hf
    obtain ⟨rfl, hnext⟩ := Build.fresh_ok hn
    obtain ⟨htype, hb₃⟩ := Build.typeName_ok ht
    -- tokens take no numbers: up to the parameters the count has not moved
    have hsame : b₄.next = b.next := by rw [lowerName_ok hi, hb₃, hb₂, hb₁]
    rw [hnext, ← hsame]
    exact wellBuilt_function ⟨b₆.next, isIterator, t, i, ps, y⟩ htype
      (Decl.wellBuiltList _ params hps) (wellBuilt_block (Stmt.wellBuiltList body) hy)
  | start place body =>
    obtain ⟨y, b₁, hy, h⟩ := Build.bind_ok.mp h
    obtain ⟨b₂, hb, h⟩ := moveTo_ok h
    obtain ⟨s, b₃, hs, h⟩ := Build.bind_ok.mp h
    obtain ⟨rfl, rfl⟩ := Build.pure_ok.mp h
    obtain ⟨⟨t, rfl⟩, hnext⟩ := Build.keyword_ok hs
    rw [hnext, hb]
    refine (wellBuilt_block (Stmt.wellBuiltList body) hy).unnumbered ?_ ?_
    · simp [Semant.Item.events, entered_cons, Event.entered?]
    · grind [Semant.Item.events, Event.Plain, Event.typeNames, Event.untyped?]

theorem Item.wellBuiltList : ∀ (ds : List Item) {b b' : Builder} {items : List Semant.Item},
    (Item.lowerList ds).run b = .ok items b' →
      WellBuilt (items.flatMap Semant.Item.events) b.next b'.next
  | [], b, b', items, h => by
    obtain ⟨rfl, rfl⟩ := Build.pure_ok.mp h
    exact .nil _
  | d :: rest, b, b', items, h => by
    obtain ⟨item, b₁, hi, h⟩ := Build.bind_ok.mp h
    obtain ⟨items', b₂, hr, h⟩ := Build.bind_ok.mp h
    obtain ⟨rfl, rfl⟩ := Build.pure_ok.mp h
    rw [List.flatMap_cons]
    exact (d.wellBuilt hi).append (Item.wellBuiltList rest hr)

end Document

/-- **A tree that was loaded has every node once, all types named and all literals typed.** -/
theorem Program.load_wellBuilt {text : String} {next after : NodeId} {p : Program}
    (h : Program.load text next = .ok (p, after)) : WellBuilt p.events next after := by
  unfold Program.load at h
  split at h
  · cases h
  · rename_i document hread
    split at h
    · rename_i q b' hlower
      cases h
      obtain ⟨items, b₁, hi, hlower⟩ := Build.bind_ok.mp hlower
      obtain ⟨b₂, b₃, hget, hlower⟩ := Build.bind_ok.mp hlower
      cases hget
      obtain ⟨n, b₄, hn, hlower⟩ := Build.bind_ok.mp hlower
      obtain ⟨rfl, rfl⟩ := Build.pure_ok.mp hlower
      obtain ⟨rfl, hnext⟩ := Build.fresh_ok hn
      rw [hnext]
      refine (Document.Item.wellBuiltList document.items hi).node ?_ ?_
      · simp [Program.events, entered_cons, Event.entered?]
      · grind [Program.events, Event.Plain, Event.typeNames, Event.untyped?]
    · cases h

/-- What the analysis asks of a tree holds of every tree that was loaded. -/
theorem Program.load_ok {text : String} {next after : NodeId} {p : Program}
    (h : Program.load text next = .ok (p, after)) :
    p.nodes.Nodup ∧ (∀ token ∈ p.typeNames, token.type?.isSome) ∧
      ∀ literals, p.untyped? literals = none := by
  have hb := Program.load_wellBuilt h
  refine ⟨hb.distinct, ?_, fun literals => ?_⟩
  · intro token ht
    obtain ⟨event, hm, ht⟩ := List.mem_flatMap.mp ht
    exact hb.named event hm token ht
  · exact List.findSome?_eq_none_iff.mpr fun event hm => hb.typed event hm literals

end Semant
