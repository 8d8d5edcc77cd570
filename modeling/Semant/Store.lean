import Semant.Annotation
import Semant.Diagnostic.Basic

/-!
# Symbols and scopes

A `Store` holds every scope and every symbol that passes have made. Scopes and symbols are
referred to by their place in it, so two references are equal exactly when they mean the same
scope or symbol. Nothing is ever removed from a store.

A scope has a number that its maker gave it, a link to the scope around it and its bindings.
Numbers repeat between passes; places do not. Bindings are kept in the order of their names, and
the link always leads to a smaller place, so following links ends.
-/

set_option autoImplicit false

namespace Semant

inductive Definition where
  | data (decl : Decl)
  | function (f : Function)
  deriving Inhabited

structure Symbol where
  definition : Definition
  /-- The type of data, or the return type of a function. -/
  type : Ty
  /-- The signature of a function, once its parameters are known. -/
  signature : Option Signature := none
  isInit : Bool := false
  /-- How many expressions and assignments refer to the symbol, as a word. -/
  refs : UInt32 := 0
  deriving Inhabited

namespace Symbol

def cls (s : Symbol) : SymbolClass :=
  match s.definition with
  | .data _ => .data
  | .function _ => .function

def identifier (s : Symbol) : Identifier :=
  match s.definition with
  | .data decl => decl.name
  | .function f => f.name

def name (s : Symbol) : String := s.identifier.name

def position (s : Symbol) : Position := s.identifier.position

def isConst (s : Symbol) : Bool :=
  match s.definition with
  | .data decl => decl.isConst
  | .function _ => true

def isIterator (s : Symbol) : Bool :=
  match s.definition with
  | .data _ => false
  | .function f => f.isIterator

/-- The count is at the largest word, and there is no room for a further reference. -/
def isFull (s : Symbol) : Bool := s.refs = 4294967295

def ofData (decl : Decl) (type : Ty) : Symbol := { definition := .data decl, type }

/-- A parameter has its value from the caller, so it counts as initialised from the start. -/
def ofParam (decl : Decl) (type : Ty) : Symbol := { definition := .data decl, type, isInit := true }

def ofFunction (f : Function) (returns : Ty) : Symbol :=
  { definition := .function f, type := returns }

def text (s : Symbol) : String := s.cls.text ++ " `" ++ s.name ++ "`"

def describe (s : Symbol) : String :=
  s.cls.text ++ " " ++ s.type.text ++ " " ++ s.name
    ++ (match s.signature with
      | some signature => " `" ++ signature.text ++ "`"
      | none => "")
    ++ (if s.isConst then " const" else "")
    ++ (if s.isInit then " init" else "")
    ++ (if s.isIterator then " iterator" else "")
    ++ " refs=" ++ toString s.refs

end Symbol

/-- Names bound in a scope, in increasing order of the names. A dump lists them in this order and no
other use depends on it, but lists in order are equal as soon as they bind the same. -/
abbrev Bindings := List (String × SymbolRef)

namespace Bindings

def find? (bindings : Bindings) (name : String) : Option SymbolRef :=
  bindings.lookup name

def insert (bindings : Bindings) (name : String) (symbol : SymbolRef) : Bindings :=
  match bindings with
  | [] => [(name, symbol)]
  | (other, s) :: rest =>
    if name < other then (name, symbol) :: (other, s) :: rest
    else if name = other then (name, symbol) :: rest
    else (other, s) :: insert rest name symbol

end Bindings

structure Scope where
  /-- The number its maker gave it. It is not bounded, though it has to fit into a word of 32 bits:
  a scope is never given back, and 2³² of them are more than memory holds. -/
  id : Nat
  parent : Option ScopeRef
  bindings : Bindings := []
  deriving Repr, Inhabited

structure Store where
  scopes : Array Scope := #[]
  symbols : Array Symbol := #[]
  notes : Annotations := {}
  deriving Inhabited

namespace Store

/-- Total, so that statements about stores need no side conditions. A place that no scope has gives
one without bindings, which no pass ever sees. -/
def scope (store : Store) (ref : ScopeRef) : Scope :=
  store.scopes.getD ref { id := 0, parent := none }

def symbol (store : Store) (ref : SymbolRef) : Symbol :=
  store.symbols.getD ref default

def scopeId (store : Store) (ref : ScopeRef) : Nat := (store.scope ref).id

def findLocal? (store : Store) (ref : ScopeRef) (name : String) : Option SymbolRef :=
  (store.scope ref).bindings.find? name

def chainUpTo (store : Store) : Nat → ScopeRef → List ScopeRef
  | 0, _ => []
  | fuel + 1, ref =>
    match (store.scope ref).parent with
    | none => [ref]
    | some parent => ref :: store.chainUpTo fuel parent

/-- The scope and all scopes around it, innermost first. Links lead to smaller places, so there
are no more of them than the place says. -/
def chain (store : Store) (ref : ScopeRef) : List ScopeRef :=
  store.chainUpTo (ref + 1) ref

def find? (store : Store) (ref : ScopeRef) (name : String) : Option SymbolRef :=
  (store.chain ref).findSome? fun r => store.findLocal? r name

def symbolsIn (store : Store) (ref : ScopeRef) : List SymbolRef :=
  (store.scope ref).bindings.map (·.2)

def addScope (store : Store) (scope : Scope) : Store :=
  { store with scopes := store.scopes.push scope }

def addSymbol (store : Store) (symbol : Symbol) : Store :=
  { store with symbols := store.symbols.push symbol }

def modifySymbol (store : Store) (ref : SymbolRef) (f : Symbol → Symbol) : Store :=
  { store with symbols := store.symbols.modify ref f }

/-- Binds a symbol under its own name, so that no scope can bind a symbol under a name that is not
the symbol's. -/
def bindIn (store : Store) (ref : ScopeRef) (symbol : SymbolRef) : Store :=
  let name := (store.symbol symbol).name
  { store with
    scopes := store.scopes.modify ref fun scope =>
      { scope with bindings := scope.bindings.insert name symbol } }

def annotate (store : Store) (notes : Annotations) : Store := { store with notes }

end Store

/-! ## The stack of scopes

A pass enters and leaves scopes in step with the nodes that open them. Since every scope knows the
one around it, the stack is no more than the scope that is active now. -/

structure ScopeStack where
  /-- The first scope that was opened. -/
  root : Option ScopeRef := none
  active : Option ScopeRef := none
  /-- The number of the next scope, which is also how many scopes there are; see `Scope.id`. -/
  next : Nat := 0
  deriving DecidableEq, Repr, Inhabited

end Semant
