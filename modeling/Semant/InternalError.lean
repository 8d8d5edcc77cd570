import Semant.Token

/-!
# Internal errors

A malformed tree, or scope and signature operations called out of order, stop a pass at once. They
say something about the caller, not about the program that is being checked, and are therefore no
diagnostics.
-/

set_option autoImplicit false

namespace Semant

/-- The node, or the part of a node, that an internal error is about. -/
inductive Subject where
  | program (file : String)
  | function (name : String)
  | scopeOf (name : String)
  | signatureOf (name : String)
  | declaration (text : String)
  | block (position : Position)
  | assignment (position : Position)
  | expression (position : Position)
  | variable (position : Position)
  | call (position : Position)
  deriving DecidableEq, Repr

def Subject.text : Subject → String
  | .program file => "program `" ++ file ++ "`"
  | .function name => "function `" ++ name ++ "`"
  | .scopeOf name => "context of `" ++ name ++ "`"
  | .signatureOf name => "prototype of `" ++ name ++ "`"
  | .declaration text => "declaration `" ++ text ++ "`"
  | .block position => "block at " ++ position.text
  | .assignment position => "assignment at " ++ position.text
  | .expression position => "expression at " ++ position.text
  | .variable position => "variable at " ++ position.text
  | .call position => "call at " ++ position.text

inductive InternalError where
  /-- A scope is left although none is active. -/
  | scopeUnderflow
  | noActiveScope
  | noRootScope
  /-- The scope with this number is entered from outside its parent. -/
  | unexpectedScope (id : Nat)
  | missingScope (subject : Subject)
  /-- A finding is recorded on a node that has one already. -/
  | reannotated (subject : Subject)
  | missingSignature (name : String)
  /-- The signature of `name` is begun while that of `unfinished` is open. -/
  | nestedSignature (name unfinished : String)
  | untypedLiteral (raw : String) (position : Position)
  | notATypeName (text : String) (position : Position)
  deriving DecidableEq, Repr

def InternalError.message : InternalError → String
  | scopeUnderflow => "context stack underflow"
  | noActiveScope => "no active context"
  | noRootScope => "no root context to reset to"
  | unexpectedScope id => "context #" ++ toString id ++ " is not a child of the active context"
  | missingScope subject => subject.text ++ " has no recorded context"
  | reannotated subject => subject.text ++ " is annotated twice"
  | missingSignature name => "no prototype is under construction for `" ++ name ++ "`"
  | nestedSignature name unfinished =>
    "prototype of `" ++ name ++ "` started while `" ++ unfinished ++ "` is unfinished"
  | untypedLiteral raw position => "literal `" ++ raw ++ "` at " ++ position.text ++ " has no type"
  | notATypeName text position => "`" ++ text ++ "` at " ++ position.text ++ " is not a type name"

end Semant
