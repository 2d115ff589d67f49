import Dinamite.DepthFirst

/-!
# The metadata crawler

`MetadataCrawler`: a walk over the debug information that collects the names of
typedefs and then the names of the fields of classes and structs.
-/

namespace Dinamite.Metadata

open Dinamite.DepthFirst

universe u v

variable {Node : Type u}

/-! ## Debug information -/

/-- An operand of a node; other values count by their name. -/
inductive Operand (Node : Type u) where
  | node (node : Node)
  | string (text : String)
  | constantInt (value : Int)
  | value (name : String)
  deriving DecidableEq, Repr

/-- Nodes and integers have no name, and the name of a string is its text. -/
def Operand.getName : Operand Node → String
  | .node _ => ""
  | .string text => text
  | .constantInt _ => ""
  | .value name => name

def Operand.asNode : Operand Node → Option Node
  | .node child => some child
  | _ => none

/-- The operands of every node; an operand may be null. -/
structure Graph (Node : Type u) where
  operands : Node → List (Option (Operand Node))

namespace Graph

variable (graph : Graph Node)

def numOperands (node : Node) : Nat :=
  (graph.operands node).length

/-- Nothing for a null operand. -/
def getOperand (node : Node) (index : Nat) : Option (Operand Node) :=
  ((graph.operands node)[index]?).join

/-- The operand if it is a node. -/
def nodeOperand (node : Node) (index : Nat) : Option Node :=
  (graph.getOperand node index).bind Operand.asNode

/-- The operands that are nodes. -/
def children (node : Node) : List Node :=
  (graph.operands node).filterMap fun operand =>
    operand.bind Operand.asNode

end Graph

/-- What the crawler reads of an instruction: the operands of a call of a named
function, as far as they are nodes, and the metadata attached. -/
structure Instruction (Node : Type u) where
  call : Option (String × List (Option Node))
  attached : List Node

/-- The named metadata `llvm.dbg.cu`, if there is any, and the instructions of
the functions in order. -/
structure Module (Node : Type u) where
  graph : Graph Node
  compileUnits : Option (List (Option Node))
  instructions : List (Instruction Node)

/-! ## Tags -/

def dwTagClassType : Nat := 0x02

def dwTagStructureType : Nat := 0x13

def dwTagTypedef : Nat := 0x16

/-- `CHECK_TAG` -/
def checkTag (x tag : Nat) : Bool :=
  x &&& tag = tag

/-- The first operand as an `unsigned int`, if it is an integer. -/
def Graph.tag (graph : Graph Node) (node : Node) : Option Nat :=
  match graph.getOperand node 0 with
  | some (.constantInt value) => some (value % 2 ^ 32).toNat
  | _ => none

/-! ## The tables -/

/-- `typedefMap` and `fieldMap` -/
structure Tables (Node : Type u) where
  typedefMap : Node → Option String
  fieldMap : String → Option (List String)

/-- The crawler before it has seen a module. -/
def Tables.fresh : Tables Node where
  typedefMap := fun _ => none
  fieldMap := fun _ => none

/-- `demangle`, and what is read of a string that is gone: the name of a class
is kept as a reference to a string of an inner block. -/
structure Environment where
  demangle : String → String
  dangling : String → String

section Typedefs

variable [DecidableEq Node] (graph : Graph Node)

/-- The first name counts. -/
def bindTypedef
    (tables : Tables Node) (structptr : Option Node) (tdefname : String) :
    Tables Node :=
  match structptr with
  | some node =>
      if tables.typedefMap node = none then
        { tables with
          typedefMap :=
            Function.update tables.typedefMap node (some tdefname) }
      else
        tables
  | none => tables

/-- `TypedefTraversal::traverse` -/
def traverseTypedef (tables : Tables Node) (node : Node) : Tables Node :=
  match graph.tag node with
  | some tag =>
      if checkTag tag dwTagTypedef then
        if graph.numOperands node > 9 then
          match graph.getOperand node 3 with
          | some (.string tdefname) =>
              bindTypedef tables (graph.nodeOperand node 9) tdefname
          | _ => bindTypedef tables (graph.nodeOperand node 9) ""
        else
          tables
      else
        tables
  | none => tables

end Typedefs

section Fields

variable (environment : Environment) (graph : Graph Node)

/-- `text.erase(0, …)` wherever the pattern stands. -/
def eraseTypeinfo (text : String) : String :=
  if "typeinfo name for ".toList <:+: text.toList then
    String.ofList (text.toList.drop "typeinfo name for ".toList.length)
  else
    text

/-- The name under which the fields of a node are kept. -/
def className
    (typedefMap : Node → Option String) (node : Node)
    (operand : Operand Node) : String :=
  if operand.getName = "" then
    match typedefMap node with
    | some name => name
    | none =>
        match graph.getOperand node 14 with
        | some identifier =>
            environment.dangling
              (eraseTypeinfo (environment.demangle identifier.getName))
        | none => "<unknown>"
  else
    operand.getName

/-- The name of a member. -/
def fieldName (field : Node) : String :=
  match graph.getOperand field 3 with
  | some operand => operand.getName
  | none => "unknown"

/-- `fieldMap[className].push_back(fieldName)` -/
def pushField
    (className : String) (tables : Tables Node) (fieldName : String) :
    Tables Node :=
  { tables with
    fieldMap :=
      Function.update tables.fieldMap className
        (some ((tables.fieldMap className).getD [] ++ [fieldName])) }

def getFields
    (tables : Tables Node) (className : String) (fields : Node) :
    Tables Node :=
  ((graph.children fields).map (fieldName graph)).foldl
    (pushField className) tables

/-- `FieldNameTraversal::traverse` -/
def traverseFieldName (tables : Tables Node) (node : Node) :
    Tables Node :=
  match graph.tag node with
  | some tag =>
      if checkTag tag dwTagClassType || checkTag tag dwTagStructureType then
        match graph.getOperand node 3 with
        | some operand =>
            match graph.nodeOperand node 10 with
            | some fields =>
                getFields graph tables
                  (className environment graph tables.typedefMap node
                    operand)
                  fields
            | none => tables
        | none => tables
      else
        tables
  | none => tables

/-- Compared with the size, a negative index is a very large one. -/
def Tables.getFieldName
    (tables : Tables Node) (structName : String) (fieldIdx : Int) :
    String :=
  match tables.fieldMap structName with
  | some names =>
      if fieldIdx < 0 ∨ names.length ≤ fieldIdx then
        "unknown"
      else
        names.getD fieldIdx.toNat ""
  | none => "NA"

end Fields

/-! ## The crawl -/

/-- The nodes `crawlNMD` starts from. -/
def Module.unitRoots (module : Module Node) : List Node :=
  (module.compileUnits.getD []).reduceOption

/-- The nodes an instruction gives to start from: those of a call of an LLVM
function, and those attached. -/
def Instruction.roots (instruction : Instruction Node) : List Node :=
  (match instruction.call with
    | some (name, operands) =>
        if "llvm.".toList <+: name.toList then operands.reduceOption else []
    | none => []) ++ instruction.attached

/-- The nodes `crawlAllInstructions` starts from. -/
def Module.instructionRoots (module : Module Node) : List Node :=
  module.instructions.flatMap Instruction.roots

/-- `visited` and the tables. -/
abbrev MetadataCrawler (Node : Type u) :=
  Finset Node × Tables Node

section Crawl

variable [DecidableEq Node] {State : Type v} (module : Module Node)

/-- `traverseMetadata`, started from several nodes. -/
def traverseMetadata
    (traversal : State → Node → State) (fuel : Nat)
    (crawler : Finset Node × State) (nodes : List Node) :
    Option (Finset Node × State) :=
  exploreAll module.graph.children traversal fuel crawler nodes

/-- One pass over the module. -/
def crawl
    (traversal : State → Node → State) (fuel : Nat)
    (crawler : Finset Node × State) : Option (Finset Node × State) :=
  (traverseMetadata module traversal fuel crawler module.unitRoots).bind
    fun crawler =>
      traverseMetadata module traversal fuel crawler module.instructionRoots

/-- The two passes, with what they call on the nodes; `visited` is cleared in
between. -/
def crawlWith
    (typedefs fieldNames : State → Node → State) (fuel : Nat)
    (crawler : Finset Node × State) : Option (Finset Node × State) :=
  (crawl module typedefs fuel crawler).bind fun crawler =>
    crawl module fieldNames fuel (∅, crawler.2)

def crawlModule
    (environment : Environment) (fuel : Nat)
    (crawler : MetadataCrawler Node) : Option (MetadataCrawler Node) :=
  crawlWith module (traverseTypedef module.graph)
    (traverseFieldName environment module.graph) fuel crawler

end Crawl

end Dinamite.Metadata
