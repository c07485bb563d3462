/-
  StackCalc.Node

  Programs: trees of nodes.  A word is looked up only when it is executed, so a
  node holds its name; every node but a plain cell knows the place of the word it
  comes from.
-/

import StackCalc.Cell
import StackCalc.Place

namespace StackCalc

/-- The comparison of a conditional.  A keyword that is none of the four is kept,
    but can only fail. -/
inductive Test where
  | equal
  | different
  | greater
  | less
  | unknown (keyword : String)
deriving DecidableEq, Repr

/-- The comparison that a keyword stands for. -/
def Test.ofKeyword (keyword : String) : Test :=
  match keyword with
  | "ifeq" => .equal
  | "ifne" => .different
  | "ifgt" => .greater
  | "iflt" => .less
  | _ => .unknown keyword

/-- The keyword of a comparison. -/
def Test.keyword : Test → String
  | .equal => "ifeq"
  | .different => "ifne"
  | .greater => "ifgt"
  | .less => "iflt"
  | .unknown keyword => keyword

theorem Test.keyword_ofKeyword (keyword : String) : (ofKeyword keyword).keyword = keyword := by
  unfold ofKeyword
  split <;> rfl

/-- What a block does with the stack.  A keyword that is none of the three is kept,
    but can only fail. -/
inductive Combinator where
  | map
  | fold
  | scan
  | unknown (keyword : String)
deriving DecidableEq, Repr

/-- The combinator that a keyword stands for. -/
def Combinator.ofKeyword (keyword : String) : Combinator :=
  match keyword with
  | "map" => .map
  | "fold" => .fold
  | "scan" => .scan
  | _ => .unknown keyword

/-- The keyword of a combinator. -/
def Combinator.keyword : Combinator → String
  | .map => "map"
  | .fold => "fold"
  | .scan => "scan"
  | .unknown keyword => keyword

theorem Combinator.keyword_ofKeyword (keyword : String) :
    (ofKeyword keyword).keyword = keyword := by
  unfold ofKeyword
  split <;> rfl

/-- A step of a program: a cell to push, a word to look up, a block for a
    combinator, a conditional with its two branches, or a directive that moves a
    cell between the stack and a variable. -/
inductive Node where
  | cell (c : Cell)
  | word (name : String) (place : Place)
  | block (body : List Node) (combinator : Combinator) (place : Place)
  | branch (test : Test) (consequent alternative : List Node) (place : Place)
  | store (name : String) (place : Place)
  | fetch (name : String) (place : Place)
deriving Repr

/-- A program: nodes and the lines they come from. -/
structure Program where
  nodes : List Node
  extent : Extent
deriving Repr

namespace Node

/-- The word that an error in a step is blamed on. -/
def token : Node → String
  | cell c => c.quoted
  | word name _ => name
  | block _ combinator _ => combinator.keyword
  | branch test _ _ _ => test.keyword
  | store .. => "sto"
  | fetch .. => "rcl"

/-- The place of a node; a cell has none. -/
def place? : Node → Option Place
  | cell _ => none
  | word _ place => some place
  | block _ _ place => some place
  | branch _ _ _ place => some place
  | store _ place => some place
  | fetch _ place => some place

/-! ## Showing -/

mutual

/-- A node as it is shown inside brackets; of a conditional only the test. -/
def quoted : Node → String
  | cell c => c.quoted
  | word name _ => name
  | block body combinator _ =>
    "[ " ++ " ".intercalate (quotedAll body) ++ " ] " ++ combinator.keyword
  | branch test _ _ _ => test.keyword ++ " … fi"
  | store name _ => "sto " ++ name
  | fetch name _ => "rcl " ++ name

/-- All nodes of a list as they are shown inside brackets. -/
def quotedAll : List Node → List String
  | [] => []
  | node :: rest => quoted node :: quotedAll rest

end

/-- A node as it is shown in a trace: cells as on the stack. -/
def shown : Node → String
  | cell c => c.shown none
  | node => node.quoted

/-- The nodes of a list between square brackets, with commas. -/
def quoteList (nodes : List Node) : String :=
  "[" ++ ", ".intercalate (quotedAll nodes) ++ "]"

/-! ## Size -/

mutual

/-- The number of nodes in a node, itself included. -/
def size : Node → Nat
  | cell _ => 1
  | word .. => 1
  | block body _ _ => 1 + sizeAll body
  | branch _ consequent alternative _ => 1 + sizeAll consequent + sizeAll alternative
  | store .. => 1
  | fetch .. => 1

/-- The number of nodes in a list of nodes. -/
def sizeAll : List Node → Nat
  | [] => 0
  | node :: rest => size node + sizeAll rest

end

@[simp] theorem sizeAll_nil : sizeAll [] = 0 := by simp [sizeAll]

@[simp] theorem sizeAll_cons (node : Node) (rest : List Node) :
    sizeAll (node :: rest) = node.size + sizeAll rest := by simp [sizeAll]

@[simp] theorem sizeAll_append (p q : List Node) :
    sizeAll (p ++ q) = sizeAll p + sizeAll q := by
  induction p with
  | nil => simp
  | cons node rest ih => simp [ih]; omega

theorem size_pos (node : Node) : 0 < node.size := by
  cases node <;> simp only [size] <;> omega

theorem sizeAll_branch_append (test : Test) (consequent alternative rest : List Node)
    (place : Place) (condition : Bool) :
    sizeAll ((if condition then consequent else alternative) ++ rest)
      < sizeAll (branch test consequent alternative place :: rest) := by
  have split :
      sizeAll (if condition then consequent else alternative)
        ≤ sizeAll consequent + sizeAll alternative := by
    cases condition
    · exact Nat.le_add_left ..
    · exact Nat.le_add_right ..
  rw [sizeAll_append, sizeAll_cons, size]
  omega

end Node
end StackCalc
