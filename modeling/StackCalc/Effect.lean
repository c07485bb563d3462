/-
  StackCalc.Effect

  Stack effects: which cells an operation takes and which it leaves.  A `Signature`
  is what the author of an operation writes down, parameters and result with their
  annotations; `Signature.effect` reads the stack effect off it, or says why it
  cannot.
-/

import StackCalc.Cell

namespace StackCalc

/-- A class of the host, by its spelling and by the cells that are instances of it: all
    numbers or none, and all texts or none. -/
structure HostClass where
  spelling : String
  numbers : Bool
  texts : Bool
deriving DecidableEq, Repr

namespace HostClass

/-- A class that no cell is an instance of. -/
def foreign (spelling : String) : HostClass := ⟨spelling, false, false⟩

/-- The class of texts. -/
def text : HostClass := ⟨"str", false, true⟩

/-- Whether a cell is an instance of a class. -/
def hasInstance (c : HostClass) : Cell → Bool
  | .number _ => c.numbers
  | .text _ => c.texts

end HostClass

/-- The kinds of cell that an operation can ask for or promise.  Those that most
    operations use have names of their own; beside them there is every other class and
    every other union of classes.  A class whose instances cannot be told, such as a
    protocol that is not meant for it, is no type of a cell. -/
inductive CellType where
  | any
  | integer
  | real
  | text
  | truth
  | number
  | cell
  | other (type : HostClass)
  | union (options : List HostClass)
deriving DecidableEq, Repr

namespace CellType

/-- The spelling of a type. -/
def spelling : CellType → String
  | any => "Any"
  | integer => "int"
  | real => "float"
  | text => "str"
  | truth => "bool"
  | number => "int | float"
  | cell => "int | float | str"
  | other type => type.spelling
  | union options => " | ".intercalate (options.map HostClass.spelling)

/-- Whether a cell is of a type.  Every number on the stack is a real; none is an
    integer or a truth value.  A union has the instances of all of its classes. -/
def accepts : CellType → Cell → Bool
  | any, _ => true
  | real, .number _ => true
  | number, .number _ => true
  | cell, _ => true
  | text, .text _ => true
  | other type, c => type.hasInstance c
  | union options, c => options.any (·.hasInstance c)
  | _, _ => false

/-- What an operation asked for, in the words of a message: the class of texts is looked
    for by itself and among the classes of a union. -/
def description : CellType → String
  | text => "symbol"
  | cell => "number or symbol"
  | union options => if .text ∈ options then "number or symbol" else "number"
  | _ => "number"

end CellType

/-- The effect of an operation.  `inputs` are the types of the cells it takes, top
    first, or nothing if it is given the whole stack; `outputs` are the types of
    the cells it pushes, in that order, or nothing if its result replaces the
    stack. -/
structure Effect where
  inputs : Option (List CellType)
  outputs : Option (List CellType)
deriving DecidableEq, Repr

namespace Effect

/-- How many cells are taken; -2 for the whole stack. -/
def arity (effect : Effect) : Int :=
  match effect.inputs with
  | some types => types.length
  | none => -2

/-- How many cells are pushed; -1 for a new stack. -/
def valency (effect : Effect) : Int :=
  match effect.outputs with
  | some types => types.length
  | none => -1

/-- The types of the cells taken, top first. -/
def inputTypes (effect : Effect) : List CellType :=
  effect.inputs.getD []

/-- The types of the results, last first; a new stack can hold anything. -/
def outputTypes (effect : Effect) : List CellType :=
  match effect.outputs with
  | some types => types.reverse
  | none => [.any]

end Effect

/-! ## Signatures -/

/-- The annotation of a parameter or a result: a class or union of classes, a
    parametrised class, a tuple of results, a type variable with or without a
    bound, the stack, a name in quotes, nothing at all, a special form, or a value
    that is no type. -/
inductive TypeExpr where
  | plain (type : CellType)
  | parametrised (origin : HostClass)
  | tuple (items : List TypeExpr)
  | free (bound : Option TypeExpr)
  | stack
  | named (name : String)
  | nothing
  | special (spelling : String)
  | value (spelling type : String)
deriving Inhabited

namespace TypeExpr

/-- The class of nothing. -/
def nothingClass : CellType := .other (.foreign "NoneType")

/-- A parametrised class that no cell is an instance of, such as that of lists. -/
def generic (origin : String) : TypeExpr := parametrised (.foreign origin)

/-- Whether an annotation stands for the whole stack, itself or by a name whose
    last part is its name. -/
def isStack : TypeExpr → Bool
  | stack => true
  | named name => name = "Stack" || ".Stack".toList.isSuffixOf name.toList
  | _ => false

/-- Why an annotation is no type of a cell. -/
inductive Trouble where
  | unknownGeneric (spelling : String)
  | nameInQuotes
  | unknownType (spelling type : String)
deriving DecidableEq, Repr

/-- The type that an annotation asks for; parameters of a class are forgotten. -/
def type : TypeExpr → Except Trouble CellType
  | plain t => .ok t
  | parametrised origin => .ok (.other origin)
  | tuple _ => .ok (.other (.foreign "tuple"))
  | free none => .ok .any
  | free (some bound) => bound.type
  | stack => .ok (.other (.foreign "Stack"))
  | named _ => .error .nameInQuotes
  | nothing => .error (.unknownType "None" "NoneType")
  | special spelling => .error (.unknownGeneric spelling)
  | value spelling type => .error (.unknownType spelling type)

end TypeExpr

/-- How a parameter takes its argument. -/
inductive ParameterKind where
  | positional
  | keywordOnly
  | variadic
deriving DecidableEq, Repr

/-- A parameter: how it takes its argument, whether it has a default, and its
    annotation. -/
structure Parameter where
  kind : ParameterKind
  hasDefault : Bool
  declared : Option TypeExpr

/-- What the author of an operation declares. -/
structure Signature where
  parameters : List Parameter
  result : Option TypeExpr

/-- Why a signature has no stack effect. -/
inductive SignatureTrouble where
  | variadic
  | declared (trouble : TypeExpr.Trouble)
deriving DecidableEq, Repr

namespace Signature

/-- The parameters that take a cell: those that must be given by position. -/
def operands (signature : Signature) : List Parameter :=
  signature.parameters.filter fun p => p.kind = .positional && !p.hasDefault

/-- The types of the results, in the order in which they are pushed; nothing if
    the result is a new stack. -/
def results : Option TypeExpr → Except TypeExpr.Trouble (Option (List CellType))
  | none => .ok (some [.any])
  | some .nothing => .ok (some [])
  | some (.tuple items) => (items.mapM TypeExpr.type).map some
  | some (.plain t) => .ok (some (if t = TypeExpr.nothingClass then [] else [t]))
  | some result =>
    if result.isStack then .ok none else (TypeExpr.type result).map fun t => some [t]

/-- The type of the cell that a parameter takes. -/
def operandType (p : Parameter) : Except TypeExpr.Trouble CellType :=
  match p.declared with
  | none => .ok .any
  | some declared => declared.type

/-- The types of the cells taken, top first; nothing if the only operand is the
    stack itself. -/
def takes (signature : Signature) : Except TypeExpr.Trouble (Option (List CellType)) :=
  match signature.operands with
  | [⟨_, _, some declared⟩] =>
    if declared.isStack then .ok none
    else declared.type.map fun t => some [t]
  | operands => (operands.mapM operandType).map fun types => some types.reverse

/-- The stack effect of a signature. -/
def effect (signature : Signature) : Except SignatureTrouble Effect :=
  if signature.parameters.any (·.kind = .variadic) then .error .variadic
  else
    match results signature.result with
    | .error trouble => .error (.declared trouble)
    | .ok outputs =>
      match signature.takes with
      | .error trouble => .error (.declared trouble)
      | .ok inputs => .ok ⟨inputs, outputs⟩

end Signature
end StackCalc
