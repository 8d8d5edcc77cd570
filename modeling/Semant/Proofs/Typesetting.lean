import Semant.Proofs.Locality

/-!
# Tokens that are made one after another

A builder that is not told to go elsewhere puts tokens on one line, each behind the one before it. Which
tokens a construction makes depends on its operands only: `Recipe.words` is the table. They are not all
kept, since nobody asks for the keyword `const` or `iterator` once it has been made.

Columns are words of 32 bits, so there may be no room for a token. A construction then stops, and the
tokens that it made before stay made. Whether it stops or not, the cursor is where the last token and a
blank behind it end. `Row` says this of a list of tokens, and it goes on from one construction to the
next (`Row.append`), also when one of them stopped in between.
-/

set_option autoImplicit false

namespace Semant

/-! ## Words -/

/-- What a token is made from. It has no place yet. -/
structure Word where
  kind : TokenKind
  raw : String

def Token.word (t : Token) : Word := ⟨t.kind, t.raw⟩

/-- The first column behind a token and the blank that follows it. -/
def Token.stop (t : Token) : Nat := t.position.column.toNat + t.raw.length + 1

/-- One of the token's characters stands in the column. -/
def Token.Covers (t : Token) (column : Nat) : Prop :=
  t.position.column.toNat ≤ column ∧ column < t.position.column.toNat + t.raw.length

namespace Word

/-- A word or sign with a fixed spelling. -/
def keyword (kind : TokenKind) : Word := ⟨kind, kind.text⟩

/-- A name. -/
def name (text : String) : Word := ⟨.identifier, text⟩

/-- The name of a type. -/
def type (text : String) : Word := ⟨(TokenKind.ofTypeWord? text).getD .identifier, text⟩

end Word

namespace Builder

/-- The tokens that are made of the words, one after another, until one does not fit. -/
def made (b : Builder) : List Word → List Token
  | [] => []
  | word :: rest =>
    match (Build.token word.kind word.raw).run b with
    | .ok t next => t :: next.made rest
    | .error _ _ => []

/-- The builder after that. -/
def past (b : Builder) : List Word → Builder
  | [] => b
  | word :: rest =>
    match (Build.token word.kind word.raw).run b with
    | .ok _ next => next.past rest
    | .error _ stopped => stopped

end Builder

/-! ## Recipes -/

/-- What can come out of one call. -/
inductive Product where
  | token (t : Token)
  | name (name : Identifier)
  | expr (e : Expr)
  | decl (d : Decl)
  | data (d : DataDef)
  | function (f : Function)
  | block (b : Block)
  | assign (a : Assignment)
  | conditional (c : Conditional)
  | stmt (s : Stmt)
  | imports (i : Import)
  | start (s : Start)
  | program (p : Program)

/-- Where the tokens stand that belong to the product itself and not to its operands. -/
def Product.places : Product → List Position
  | token t => [t.position]
  | name n => [n.position]
  | expr (.grouped _ _) => []
  | expr e => [e.position]
  | decl d => [d.type.position, d.name.position]
  | data _ => []
  | function f => [f.returns.position, f.name.position]
  | block b => [b.position]
  | assign a => [a.target.position]
  | conditional c => [c.keyword.position]
  | stmt s => [s.position]
  | imports i => [i.keyword.position]
  | start s => [s.keyword.position]
  | program _ => []

/-- Everything that can be built by one call, with its operands. -/
inductive Recipe where
  | token (kind : TokenKind) (raw : String)
  | keyword (kind : TokenKind)
  | identifier (name : String)
  | typeName (name : String)
  | literal (kind : TokenKind) (raw : String) (given : Option Ty)
  | integer (value : Int)
  | float (value : Float)
  | string (value : String)
  | boolean (value : Bool)
  | var (name : String)
  | call (name : String) (args : List Expr)
  | binary (op : BinaryOp) (lhs rhs : Expr)
  | unary (op : UnaryOp) (operand : Expr)
  | cast (type : String) (operand : Expr)
  | group (inner : Expr)
  | format (text : String) (args : List Expr)
  | decl (isConst : Bool) (type name : String)
  | data (d : Decl) (init : Option Expr)
  | function (isIterator : Bool) (returns name : String) (params : List Decl) (body : Block)
  | block (body : List Stmt)
  | assign (target : String) (value : Expr)
  | conditional (cond : Expr) (body : Block) (otherwise : Else)
  | whileLoop (cond : Option Expr) (body : Block)
  | doLoop (body : Block) (cond : Option Expr)
  | ret (value : Option Expr)
  | yield (value : Option Expr)
  | brk
  | cont
  | inlineText (text : String)
  | importFile (path : String)
  | start (body : Block)
  | program (items : List Item)

namespace Recipe

/-- The construction itself. Data is put together without the builder. -/
def build : Recipe → Build Product
  | token kind raw => .token <$> Build.token kind raw
  | keyword kind => .token <$> Build.keyword kind
  | identifier name => .name <$> Build.identifier name
  | typeName name => .token <$> Build.typeName name
  | literal kind raw given => .expr <$> Build.literal kind raw given
  | integer value => .expr <$> Build.integer value
  | float value => .expr <$> Build.float value
  | string value => .expr <$> Build.string value
  | boolean value => .expr <$> Build.boolean value
  | var name => .expr <$> Build.var name
  | call name args => .expr <$> Build.call name args
  | binary op lhs rhs => .expr <$> Build.binary op lhs rhs
  | unary op operand => .expr <$> Build.unary op operand
  | cast type operand => .expr <$> Build.cast type operand
  | group inner => .expr <$> Build.group inner
  | format text args => .expr <$> Build.format text args
  | decl isConst type name => .decl <$> Build.decl isConst type name
  | data d init => pure (.data ⟨d, init⟩)
  | function isIterator returns name params body =>
    .function <$> Build.function isIterator returns name params body
  | block body => .block <$> Build.block body
  | assign target value => .assign <$> Build.assign target value
  | conditional cond body otherwise => .conditional <$> Build.conditional cond body otherwise
  | whileLoop cond body => .stmt <$> Build.whileLoop cond body
  | doLoop body cond => .stmt <$> Build.doLoop body cond
  | ret value => .stmt <$> Build.ret value
  | yield value => .stmt <$> Build.yield value
  | brk => .stmt <$> Build.brk
  | cont => .stmt <$> Build.cont
  | inlineText text => .stmt <$> Build.inlineText text
  | importFile path => .imports <$> Build.importFile path
  | start body => .start <$> Build.start body
  | program items => .program <$> Build.program items

/-- The words of its tokens, in the order in which they are made. -/
def words : Recipe → List Word
  | token kind raw | literal kind raw _ => [⟨kind, raw⟩]
  | keyword kind => [.keyword kind]
  | identifier name | var name | call name _ | assign name _ => [.name name]
  | typeName name | cast name _ => [.type name]
  | integer value => [⟨.integerLiteral, toString value⟩]
  | float value => [⟨.floatLiteral, floatLayout.text value⟩]
  | string value | format value _ => [⟨.stringLiteral, value⟩]
  | boolean value => [⟨.boolLiteral, if value then "true" else "false"⟩]
  | binary op _ _ => [⟨op.kind, op.text⟩]
  | unary op _ => [⟨op.kind, op.text⟩]
  | decl isConst type name =>
    (if isConst then [.keyword .constWord] else []) ++ [.type type, .name name]
  | function isIterator returns name _ _ =>
    (if isIterator then [.keyword .iteratorWord] else []) ++ [.type returns, .name name]
  | block _ => [.keyword .leftBrace]
  | conditional _ _ _ => [.keyword .ifWord]
  | whileLoop _ _ => [.keyword .whileWord]
  | doLoop _ _ => [.keyword .doWord]
  | ret _ => [.keyword .returnWord]
  | yield _ => [.keyword .yieldWord]
  | brk => [.keyword .breakWord]
  | cont => [.keyword .continueWord]
  | inlineText _ => [.keyword .inlineWord]
  | importFile _ => [.keyword .importWord]
  | start _ => [.keyword .startWord]
  | group _ | data _ _ | program _ => []

/-- How many of its tokens are not part of what is built. They are the first ones. -/
def dropped : Recipe → Nat
  | decl isConst _ _ => isConst.toNat
  | function isIterator _ _ _ _ => isIterator.toNat
  | _ => 0

end Recipe

/-! ## Rows -/

/-- The tokens stand on the line of a file from one column up to another, each right behind the blank
that follows the one before. -/
inductive Row (file : String) (line : UInt32) : Nat → List Token → Nat → Prop
  | nil (column : Nat) : Row file line column [] column
  | cons {t : Token} {rest : List Token} {stop : Nat} : t.position.file = file →
      t.position.line = line → t.stop ≤ 4294967295 → Row file line t.stop rest stop →
      Row file line t.position.column.toNat (t :: rest) stop

namespace Row

variable {file : String} {line : UInt32} {start middle stop : Nat} {tokens more : List Token}

theorem append (h : Row file line start tokens middle) (h' : Row file line middle more stop) :
    Row file line start (tokens ++ more) stop := by
  induction h with
  | nil => exact h'
  | cons hfile hline hroom _ ih => exact .cons hfile hline hroom (ih h')

theorem file_line (h : Row file line start tokens stop) :
    ∀ t ∈ tokens, t.position.file = file ∧ t.position.line = line := by
  induction h with
  | nil => simp
  | cons hfile hline _ _ ih => exact List.forall_mem_cons.mpr ⟨⟨hfile, hline⟩, ih⟩

theorem room (h : Row file line start tokens stop) : ∀ t ∈ tokens, t.stop ≤ 4294967295 := by
  induction h with
  | nil => simp
  | cons _ _ hroom _ ih => exact List.forall_mem_cons.mpr ⟨hroom, ih⟩

/-- A row ends where its last token does. -/
theorem stop_eq (h : Row file line start tokens stop) :
    stop = (tokens.getLast?.map Token.stop).getD start := by
  induction h with
  | nil => rfl
  | @cons t rest stop _ _ _ _ ih =>
    rw [ih, List.getLast?_cons]
    cases rest.getLast? <;> rfl

theorem start_le (h : Row file line start tokens stop) :
    ∀ t ∈ tokens, start ≤ t.position.column.toNat := by
  induction h with
  | nil => simp
  | @cons t rest stop _ _ _ _ ih =>
    refine List.forall_mem_cons.mpr ⟨Nat.le_refl _, fun u hm => Nat.le_trans ?_ (ih u hm)⟩
    unfold Token.stop
    omega

/-- Not only the next token but every later one stands behind a token and its blank. -/
theorem pairwise (h : Row file line start tokens stop) :
    tokens.Pairwise fun t u => t.stop ≤ u.position.column.toNat := by
  induction h with
  | nil => exact .nil
  | cons _ _ _ hrest ih => exact .cons hrest.start_le ih

end Row

/-- Tokens one of which stands behind the other have no column in common. -/
theorem Token.apart {t u : Token} (h : t.stop ≤ u.position.column.toNat) :
    t.position ≠ u.position ∧ ∀ column, ¬ (t.Covers column ∧ u.Covers column) := by
  unfold Token.stop at h
  constructor
  · intro hsame
    rw [hsame] at h
    omega
  · rintro column ⟨ht, hu⟩
    unfold Token.Covers at ht hu
    omega

/-! ## What a list of words makes -/

namespace Builder

variable {b : Builder} {rest : List Word}

/-- The builder behind a token and a blank. -/
def behind (b : Builder) (word : Word) : Builder :=
  { b with column := UInt32.ofNat (b.column.toNat + word.raw.length + 1) }

theorem column_behind (word : Word) (h : b.column.toNat + word.raw.length + 1 ≤ 4294967295) :
    (b.behind word).column.toNat = b.column.toNat + word.raw.length + 1 :=
  UInt32.toNat_ofNat_of_lt' (Nat.lt_succ_of_le h)

theorem made_cons_of_le (word : Word) (h : b.column.toNat + word.raw.length + 1 ≤ 4294967295) :
    b.made (word :: rest) = ⟨word.kind, word.raw, b.cursor⟩ :: (b.behind word).made rest := by
  rw [made, Build.run_token_of_le h]
  rfl

theorem past_cons_of_le (word : Word) (h : b.column.toNat + word.raw.length + 1 ≤ 4294967295) :
    b.past (word :: rest) = (b.behind word).past rest := by
  rw [past, Build.run_token_of_le h]
  rfl

theorem made_cons_of_lt (word : Word) (h : 4294967295 < b.column.toNat + word.raw.length + 1) :
    b.made (word :: rest) = [] := by
  rw [made, Build.run_token_of_lt h]

theorem past_cons_of_lt (word : Word) (h : 4294967295 < b.column.toNat + word.raw.length + 1) :
    b.past (word :: rest) = b := by
  rw [past, Build.run_token_of_lt h]

/-- Tokens fill the row behind the cursor, and the cursor moves to the end of it. -/
theorem row_made (b : Builder) (words : List Word) :
    Row b.file b.line b.column.toNat (b.made words) (b.past words).column.toNat ∧
      (b.past words).file = b.file ∧ (b.past words).line = b.line := by
  induction words generalizing b with
  | nil => exact ⟨.nil _, rfl, rfl⟩
  | cons word rest ih =>
    rcases Nat.lt_or_ge 4294967295 (b.column.toNat + word.raw.length + 1) with h | h
    · rw [made_cons_of_lt word h, past_cons_of_lt word h]
      exact ⟨.nil _, rfl, rfl⟩
    · rw [made_cons_of_le word h, past_cons_of_le word h]
      obtain ⟨hrow, hfile, hline⟩ := ih (b.behind word)
      rw [column_behind word h] at hrow
      exact ⟨.cons (t := ⟨word.kind, word.raw, b.cursor⟩) rfl rfl h hrow, hfile, hline⟩

/-- All words are made into tokens, or there is a first one that does not fit. -/
theorem made_cases (b : Builder) (words : List Word) :
    (b.made words).map Token.word = words ∨
      ∃ done blocked left, words = done ++ blocked :: left ∧
        (b.made words).map Token.word = done ∧
        4294967295 < (b.past words).column.toNat + blocked.raw.length + 1 := by
  induction words generalizing b with
  | nil => exact .inl rfl
  | cons word rest ih =>
    rcases Nat.lt_or_ge 4294967295 (b.column.toNat + word.raw.length + 1) with h | h
    · rw [made_cons_of_lt word h, past_cons_of_lt word h]
      exact .inr ⟨[], word, rest, rfl, rfl, h⟩
    · rw [made_cons_of_le word h, past_cons_of_le word h, List.map_cons]
      rcases ih (b.behind word) with hall | ⟨done, blocked, left, hsplit, hdone, hover⟩
      · exact .inl (congrArg (word :: ·) hall)
      · exact .inr ⟨word :: done, blocked, left, congrArg (word :: ·) hsplit,
          congrArg (word :: ·) hdone, hover⟩

end Builder

/-! ## Constructions that make the words -/

section

variable {α β : Type}

/-- From every builder the construction makes the words into tokens, one after another. If there is
room for all of them it ends with a product of which `post` holds together with them, and otherwise it
stops at the first that does not fit. It moves the cursor in no other way. -/
structure Typesets (x : Build α) (words : List Word) (post : α → List Token → Prop) : Prop where
  done : ∀ b : Builder, (b.made words).map Token.word = words →
    ∃ a b', x.run b = .ok a b' ∧ b'.cursor = (b.past words).cursor ∧ post a (b.made words)
  stopped : ∀ b : Builder, (b.made words).map Token.word ≠ words →
    ∃ b', x.run b = .error .columnOverflow b' ∧ b'.cursor = (b.past words).cursor

namespace Typesets

variable {x : Build α} {k : Token → Build α} {words : List Word} {post : α → List Token → Prop}

/-- Something that makes no token and does not fail. -/
theorem silent (h : ∀ b : Builder, ∃ a b', x.run b = .ok a b' ∧ b'.cursor = b.cursor ∧ post a []) :
    Typesets x [] post where
  done b _ := h b
  stopped _ hne := absurd rfl hne

/-- A token, and what is done with it. -/
theorem token_then {kind : TokenKind} {raw : String}
    (h : ∀ t : Token, Typesets (k t) words fun a tokens => post a (t :: tokens)) :
    Typesets (Build.token kind raw >>= k) (⟨kind, raw⟩ :: words) post where
  done := by
    intro b hall
    rcases Nat.lt_or_ge 4294967295 (b.column.toNat + raw.length + 1) with hover | hroom
    · rw [Builder.made_cons_of_lt ⟨kind, raw⟩ hover] at hall
      cases hall
    · rw [Builder.made_cons_of_le ⟨kind, raw⟩ hroom] at hall ⊢
      rw [Builder.past_cons_of_le ⟨kind, raw⟩ hroom, EStateM.run_bind,
        Build.run_token_of_le hroom]
      exact (h _).done _ (List.cons.inj hall).2
  stopped := by
    intro b hne
    rcases Nat.lt_or_ge 4294967295 (b.column.toNat + raw.length + 1) with hover | hroom
    · rw [Builder.past_cons_of_lt ⟨kind, raw⟩ hover, EStateM.run_bind,
        Build.run_token_of_lt hover]
      exact ⟨b, rfl, rfl⟩
    · rw [Builder.made_cons_of_le ⟨kind, raw⟩ hroom] at hne
      rw [Builder.past_cons_of_le ⟨kind, raw⟩ hroom, EStateM.run_bind,
        Build.run_token_of_le hroom]
      exact (h _).stopped _ fun hall => hne (congrArg (_ :: ·) hall)

/-- A name, and what is done with it. -/
theorem name_then {name : String} {k : Identifier → Build α}
    (h : ∀ t : Token, Typesets (k ⟨name, t.position⟩) words fun a tokens => post a (t :: tokens)) :
    Typesets (Build.identifier name >>= k) (.name name :: words) post := by
  rw [Build.identifier, bind_assoc]
  exact token_then fun t => h t

theorem map {f : α → β} {post : β → List Token → Prop}
    (h : Typesets x words fun a tokens => post (f a) tokens) : Typesets (f <$> x) words post where
  done := by
    intro b hall
    obtain ⟨a, b', hrun, hcursor, hpost⟩ := h.done b hall
    exact ⟨f a, b', by rw [map_eq_pure_bind, EStateM.run_bind, hrun]; rfl, hcursor, hpost⟩
  stopped := by
    intro b hne
    obtain ⟨b', hrun, hcursor⟩ := h.stopped b hne
    exact ⟨b', by rw [map_eq_pure_bind, EStateM.run_bind, hrun], hcursor⟩

/-- A token that is all there is. -/
theorem token {kind : TokenKind} {raw : String} {post : Token → List Token → Prop}
    (h : ∀ t, post t [t]) : Typesets (Build.token kind raw) [⟨kind, raw⟩] post := by
  rw [← bind_pure (Build.token kind raw)]
  exact token_then fun t => silent fun b => ⟨t, b, rfl, rfl, h t⟩

/-- A type and a name, as declarations and functions have them. -/
theorem typed_name_then {type name : String} {k : Token → Identifier → Build α}
    (h : ∀ t n b, ∃ a b', (k t ⟨name, n.position⟩).run b = .ok a b' ∧ b'.cursor = b.cursor ∧
      post a [t, n]) :
    Typesets (Build.typeName type >>= fun t => Build.identifier name >>= fun n => k t n)
      [.type type, .name name] post :=
  token_then fun t => name_then fun n => silent fun b => h t n b

end Typesets

end

namespace Recipe

/-- **Every construction makes the words of its recipe.** What it builds has the tokens that are made,
apart from those that are dropped. -/
theorem typesets (recipe : Recipe) : Typesets recipe.build recipe.words fun product tokens =>
    product.places = (tokens.drop recipe.dropped).map Token.position := by
  cases recipe with
  | token kind raw | keyword kind | typeName name => exact .map (.token fun _ => rfl)
  | identifier name => exact .map (.token_then fun _ => .silent fun b => ⟨_, b, rfl, rfl, rfl⟩)
  | var name | call name args | assign target value =>
    exact .map (.name_then fun _ => .silent fun _ => ⟨_, _, rfl, rfl, rfl⟩)
  | literal kind raw given | integer value | float value | string value | boolean value =>
    exact .map (.token_then fun _ => .silent fun _ => ⟨_, _, rfl, rfl, rfl⟩)
  | binary op lhs rhs | unary op operand | cast type operand | format text args | block body =>
    exact .map (.token_then fun _ => .silent fun _ => ⟨_, _, rfl, rfl, rfl⟩)
  -- From here on nothing is numbered, so the builder stays as the keyword left it.
  | conditional cond body otherwise | whileLoop cond body | doLoop body cond | ret value =>
    exact .map (.token_then fun _ => .silent fun b => ⟨_, b, rfl, rfl, rfl⟩)
  | yield value | brk | cont | inlineText text | importFile path | start body =>
    exact .map (.token_then fun _ => .silent fun b => ⟨_, b, rfl, rfl, rfl⟩)
  | group inner | program items => exact .map (.silent fun _ => ⟨_, _, rfl, rfl, rfl⟩)
  | data d init => exact .silent fun b => ⟨_, b, rfl, rfl, rfl⟩
  | decl isConst type name =>
    cases isConst with
    | false => exact .map (.typed_name_then fun _ _ _ => ⟨_, _, rfl, rfl, rfl⟩)
    | true =>
      exact .map (.token_then fun _ => .typed_name_then fun _ _ _ => ⟨_, _, rfl, rfl, rfl⟩)
  | function isIterator returns name params body =>
    cases isIterator with
    | false => exact .map (.typed_name_then fun _ _ _ => ⟨_, _, rfl, rfl, rfl⟩)
    | true =>
      exact .map (.token_then fun _ => .typed_name_then fun _ _ _ => ⟨_, _, rfl, rfl, rfl⟩)

end Recipe

/-! ## One construction after another -/

namespace Builder

/-- The builder after a construction, whether it went through or not. -/
def after (b : Builder) (recipe : Recipe) : Builder :=
  match recipe.build.run b with
  | .ok _ done => done
  | .error _ stopped => stopped

/-- The builder after several constructions. The cursor is not moved in between. -/
def afterAll (b : Builder) (recipes : List Recipe) : Builder := recipes.foldl after b

/-- All tokens that they make, in order. -/
def madeAll (b : Builder) : List Recipe → List Token
  | [] => []
  | recipe :: rest => b.made recipe.words ++ (b.after recipe).madeAll rest

theorem cursor_after (b : Builder) (recipe : Recipe) :
    (b.after recipe).cursor = (b.past recipe.words).cursor := by
  unfold after
  by_cases hall : (b.made recipe.words).map Token.word = recipe.words
  · obtain ⟨product, b', hrun, hcursor, -⟩ := recipe.typesets.done b hall
    rw [hrun]
    exact hcursor
  · obtain ⟨b', hrun, hcursor⟩ := recipe.typesets.stopped b hall
    rw [hrun]
    exact hcursor

/-- A construction goes on with the row where the cursor is. -/
theorem row_after (b : Builder) (recipe : Recipe) :
    Row b.file b.line b.column.toNat (b.made recipe.words) (b.after recipe).column.toNat ∧
      (b.after recipe).file = b.file ∧ (b.after recipe).line = b.line := by
  obtain ⟨hrow, hfile, hline⟩ := b.row_made recipe.words
  have hcursor := b.cursor_after recipe
  have hcolumn : (b.after recipe).column = (b.past recipe.words).column :=
    congrArg Position.column hcursor
  rw [hcolumn]
  exact ⟨hrow, (congrArg Position.file hcursor).trans hfile,
    (congrArg Position.line hcursor).trans hline⟩

/-- **Constructions fill one row.** -/
theorem row_afterAll (b : Builder) (recipes : List Recipe) :
    Row b.file b.line b.column.toNat (b.madeAll recipes) (b.afterAll recipes).column.toNat ∧
      (b.afterAll recipes).file = b.file ∧ (b.afterAll recipes).line = b.line := by
  induction recipes generalizing b with
  | nil => exact ⟨.nil _, rfl, rfl⟩
  | cons recipe rest ih =>
    obtain ⟨hrow, hfile, hline⟩ := b.row_after recipe
    obtain ⟨hrest, hfile', hline'⟩ := ih (b.after recipe)
    rw [hfile, hline] at hrest
    exact ⟨hrow.append hrest, hfile'.trans hfile, hline'.trans hline⟩

end Builder

namespace Recipe

variable {recipe : Recipe} {b : Builder}

/-- A construction that goes through has made all its words. -/
theorem made_of_ok {product : Product} {done : Builder}
    (h : recipe.build.run b = .ok product done) :
    (b.made recipe.words).map Token.word = recipe.words ∧
      product.places = ((b.made recipe.words).drop recipe.dropped).map Token.position := by
  by_cases hall : (b.made recipe.words).map Token.word = recipe.words
  · obtain ⟨_, _, hrun, -, hplaces⟩ := recipe.typesets.done b hall
    cases h.symm.trans hrun
    exact ⟨hall, hplaces⟩
  · obtain ⟨_, hrun, -⟩ := recipe.typesets.stopped b hall
    cases h.symm.trans hrun

/-- A construction stops for one reason only, and where it does. -/
theorem made_of_error {error : BuildError} {stopped : Builder}
    (h : recipe.build.run b = .error error stopped) :
    error = .columnOverflow ∧ ∃ before blocked left, recipe.words = before ++ blocked :: left ∧
      (b.made recipe.words).map Token.word = before ∧
      stopped.line = b.line ∧
      stopped.column.toNat
        = ((b.made recipe.words).getLast?.map Token.stop).getD b.column.toNat ∧
      4294967295 < stopped.column.toNat + blocked.raw.length + 1 := by
  rcases b.made_cases recipe.words with hall | ⟨before, blocked, left, hsplit, hmade, hover⟩
  · obtain ⟨_, _, hrun, -⟩ := recipe.typesets.done b hall
    cases h.symm.trans hrun
  · have hne : (b.made recipe.words).map Token.word ≠ recipe.words := by
      rw [hmade, hsplit]
      simp
    obtain ⟨_, hrun, hcursor⟩ := recipe.typesets.stopped b hne
    cases h.symm.trans hrun
    obtain ⟨hrow, -, hline⟩ := b.row_made recipe.words
    have hcolumn : stopped.column = (b.past recipe.words).column :=
      congrArg Position.column hcursor
    rw [← hcolumn] at hrow hover
    exact ⟨rfl, before, blocked, left, hsplit, hmade,
      (congrArg Position.line hcursor).trans hline, hrow.stop_eq, hover⟩

end Recipe

/-- **Tokens never overlap.** Let a builder stand anywhere, and let any constructions be made with it one
after another, of which some may stop for want of room.

* All tokens are on the line where the builder was, in its file.
* Each begins behind all earlier ones, with room for a blank. So no two tokens have their position or a
  column in common.
* The cursor is behind the last token and its blank. If there is none it has not moved.
* A further construction that goes through makes all words of its recipe, and what it builds has these
  tokens, apart from dropped keywords. One that stops has made the words up to the first for which there
  is no room, and the cursor is behind those. -/
theorem constructions_never_overlap (b : Builder) (recipes : List Recipe) :
    (∀ t ∈ b.madeAll recipes, t.position.file = b.file ∧ t.position.line = b.line) ∧
    ((b.madeAll recipes).Pairwise fun t u =>
      t.position.column.toNat + t.raw.length + 1 ≤ u.position.column.toNat) ∧
    ((b.madeAll recipes).Pairwise fun t u =>
      t.position ≠ u.position ∧ ∀ column, ¬ (t.Covers column ∧ u.Covers column)) ∧
    ((b.afterAll recipes).line = b.line ∧
      (b.afterAll recipes).column.toNat
        = ((b.madeAll recipes).getLast?.map Token.stop).getD b.column.toNat ∧
      ∀ t ∈ b.madeAll recipes, t.stop ≤ 4294967295) ∧
    ∀ recipe : Recipe,
      (∀ product done, recipe.build.run (b.afterAll recipes) = .ok product done →
        ((b.afterAll recipes).made recipe.words).map Token.word = recipe.words ∧
        product.places = (((b.afterAll recipes).made recipe.words).drop recipe.dropped).map
          Token.position) ∧
      ∀ error stopped, recipe.build.run (b.afterAll recipes) = .error error stopped →
        error = .columnOverflow ∧
        ∃ before blocked left, recipe.words = before ++ blocked :: left ∧
          ((b.afterAll recipes).made recipe.words).map Token.word = before ∧
          stopped.line = b.line ∧
          stopped.column.toNat = (((b.afterAll recipes).made recipe.words).getLast?.map
            Token.stop).getD (b.afterAll recipes).column.toNat ∧
          4294967295 < stopped.column.toNat + blocked.raw.length + 1 := by
  obtain ⟨hrow, -, hline⟩ := b.row_afterAll recipes
  refine ⟨hrow.file_line, hrow.pairwise, hrow.pairwise.imp Token.apart,
    ⟨hline, hrow.stop_eq, hrow.room⟩, fun recipe => ⟨fun _ _ => Recipe.made_of_ok, ?_⟩⟩
  intro error stopped hrun
  have hstopped := Recipe.made_of_error hrun
  rw [hline] at hstopped
  exact hstopped

/-- There is room for the keyword `const`, but not for the type behind it. -/
example : (({ file := "edge.dk", column := 4294967288 } : Builder).after
    (.decl true "int" "n")).column = 4294967294 := by
  decide +kernel

end Semant
