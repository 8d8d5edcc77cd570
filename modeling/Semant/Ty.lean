/-!
# Types

The language has five built-in types and any number of user structs. A struct is known by its
name only: two structs are the same type exactly when their names agree, and a struct may even be
called `int` without becoming the built-in type.

Every type has three spellings, one for each place a message can put it: the word of the source
language (`int`), the plain name (`integer`) and the name with its article (`an integer`).
-/

set_option autoImplicit false

namespace Semant

inductive Ty where
  | int
  | float
  | string
  | bool
  | nothing
  | struct (name : String)
  deriving DecidableEq, Repr, Inhabited

namespace Ty

/-- Integers and floats are the numeric types; booleans are not. -/
def isNumeric : Ty → Bool
  | .int | .float => true
  | _ => false

def isStruct : Ty → Bool
  | .struct _ => true
  | _ => false

def text : Ty → String
  | .int => "int"
  | .float => "float"
  | .string => "string"
  | .bool => "bool"
  | .nothing => "nothing"
  | .struct name => name

def name : Ty → String
  | .int => "integer"
  | .float => "float"
  | .string => "string"
  | .bool => "boolean"
  | .nothing => "nothing"
  | .struct name => name

/-- The type's name with its article. A struct's name is quoted, and `nothing` takes no article. -/
def noun : Ty → String
  | .int => "an integer"
  | .nothing => "nothing"
  | .struct name => "a `" ++ name ++ "`"
  | type => "a " ++ type.name

def ofWord? : String → Option Ty
  | "int" => some .int
  | "float" => some .float
  | "string" => some .string
  | "bool" => some .bool
  | "nothing" => some .nothing
  | _ => none

end Ty

end Semant
