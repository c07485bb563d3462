/-
  StackCalc.Place

  Where things stand in a source text: tokens and program nodes have a `Place`,
  whole programs an `Extent` of lines.
-/

namespace StackCalc

/-- What is known about the text that something stands in. -/
inductive Origin where
  | unknown
  | unnamed
  | named (name : String)
deriving DecidableEq, Repr

/-- The name of the text, if there is one. -/
def Origin.name? : Origin → Option String
  | .named name => some name
  | _ => none

/-- The origin of a text that may have a name. -/
def Origin.ofName? : Option String → Origin
  | some name => .named name
  | none => .unnamed

/-- The place of a token or node: its first and last line and its columns, the
    second of them behind its end.  Lines and columns count from one, and what is
    not known is left out. -/
structure Place where
  origin : Origin
  first : Option Int
  last : Option Int
  columns : Option (Int × Int)
deriving DecidableEq, Repr

/-- Nothing is known. -/
def Place.unknown : Place := ⟨.unknown, none, none, none⟩

/-- The column at which something starts. -/
def Place.column? (place : Place) : Option Int :=
  place.columns.map (·.1)

/-- The lines of a program. -/
structure Extent where
  name : Option String
  first : Int
  last : Int
deriving DecidableEq, Repr

namespace Extent

/-- The lines of no line at all: every line widens them. -/
def noLines : Int × Int := (4294967296, -1)

/-- The extent of an empty program. -/
def empty (name : Option String) : Extent :=
  ⟨name, noLines.1, noLines.2⟩

/-- The extent with some more lines. -/
def widen (extent : Extent) (lines : Int × Int) : Extent :=
  { extent with first := min extent.first lines.1, last := max extent.last lines.2 }

end Extent
end StackCalc
