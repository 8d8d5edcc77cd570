import Semant.Diagnostic.Basic

/-!
# The log

Passes write down what they do as they go. An entry is a fact, and its level and wording follow
from it.
-/

set_option autoImplicit false

namespace Semant

inductive LogLevel where
  | trace
  | debug
  | info
  deriving DecidableEq, Repr

def LogLevel.text : LogLevel → String
  | trace => "TRACE"
  | debug => "DEBUG"
  | info => "INFO"

inductive LogEntry where
  | scopeCreated (id : Nat) (parent : Option Nat)
  | scopeEntered (id : Nat)
  | scopeLeft (id : Nat)
  | scopeReset (id : Nat)
  /-- The scope was created for a node. -/
  | scopeOpened (node : String) (id : Nat)
  | typed (position : Position) (type : Ty)
  | reported (diagnostic : Diagnostic)
  /-- A name was found to mean a symbol, which has `refs` references with this one. -/
  | resolved (name : Identifier) (symbol : String) (refs : UInt32)
  | bound (symbol : String) (type : Ty) (scope : Nat)
  | signed (signature : Signature)
  | dumped (line : String)
  | cleared (file : String) (nodes : Nat)
  | analysed (file : String) (errors warnings : Nat)
  | compiled (file : String) (errors warnings : Nat)

namespace LogEntry

def level : LogEntry → LogLevel
  | resolved .. => .trace
  | compiled .. => .info
  | _ => .debug

def counts (file : String) (errors warnings : Nat) : String :=
  file ++ ": errors = " ++ toString errors ++ " warnings = " ++ toString warnings

def text : LogEntry → String
  | scopeCreated id parent =>
    let parent := match parent with
      | none => "None"
      | some p => "Some(" ++ toString p ++ ")"
    "[scope] create #" ++ toString id ++ " (parent " ++ parent ++ ")"
  | scopeEntered id => "[scope] push #" ++ toString id
  | scopeLeft id => "[scope] pop #" ++ toString id
  | scopeReset id => "[scope] reset to #" ++ toString id
  | scopeOpened node id => "[analyzer] " ++ node ++ " opens #" ++ toString id
  | typed position type => "[analyzer] " ++ position.text ++ " : " ++ type.text
  | reported diagnostic => "[diagnostics] " ++ diagnostic.text
  | resolved name symbol refs =>
    "[resolver] " ++ name.name ++ " at " ++ name.position.text ++ " -> " ++ symbol
      ++ " (refs " ++ toString refs ++ ")"
  | bound symbol type scope =>
    "[symbol_table] bind " ++ symbol ++ " " ++ type.text ++ " in #" ++ toString scope
  | signed signature => "[symbol_table] prototype `" ++ signature.text ++ "`"
  | dumped line => "[dump] " ++ line
  | cleared file nodes => "[reset] " ++ file ++ ": " ++ toString nodes ++ " nodes cleared"
  | analysed file errors warnings => "[semantic] " ++ counts file errors warnings
  | compiled file errors warnings => counts file errors warnings

def line (e : LogEntry) : String := e.level.text ++ " " ++ e.text

end LogEntry

end Semant
