import Dinamite.Instrument.IR

/-!
# Running the code

What code does when it is run.  Loads, stores, casts, calls of log functions
and calls of the functions of the module are run here; what every other
instruction does is left to the machine, as is what a terminator chooses.  They
see the registers of the program, its arguments and its memory, but neither the
registers nor the slots that the pass has made, nor the log.
-/

namespace Dinamite.Instrument

/-! ## States -/

/-- What a register holds: a value of the program, or the address of a slot
that the pass has made. -/
inductive Content (Val : Type) where
  | value (value : Val)
  | slot (id : Nat)
  deriving DecidableEq

/-- One call of a log function, with the memory it finds. -/
structure Entry (Val Mem : Type) where
  callee : Callee
  args : List (Content Val)
  memory : Mem

/-- A running function.  `cameFrom` is the block before this one, and the log
grows at its end. -/
structure Frame (Val Mem : Type) where
  registers : Nat → Content Val
  arguments : Nat → Content Val
  cameFrom : Option Nat
  memory : Mem
  log : List (Entry Val Mem)

/-- What the program can see of a frame. -/
structure Seen (Val Mem : Type) where
  registers : Nat → Content Val
  arguments : Nat → Content Val
  cameFrom : Option Nat
  memory : Mem

/-- What an instruction of the program does: it may have a result, or it never
comes back.  Functions it calls may have logged something. -/
inductive Effect (Val Mem : Type) where
  | returns (result : Option (Content Val)) (memory : Mem)
      (log : List (Entry Val Mem))
  | halts (memory : Mem) (log : List (Entry Val Mem))

/-- Where a terminator goes. -/
inductive Control (Val : Type) where
  | goto (block : Nat)
  | leave (result : Option (Content Val))
  | halt

/-- What functions do that have a body here, by their names. -/
abbrev Bodies (Val Mem : Type) :=
  String → Option (List (Content Val) → Mem → Effect Val Mem)

/-- Everything that is not about the pass.  `fresh` is the first identity the
program does not use, and a terminator is told by its function and block. -/
structure Machine (Val Mem : Type) where
  fresh : Nat
  isLog : Callee → Bool
  enter : Bodies Val Mem
  global : String → Val
  constant : String → Ty → Val
  integer : Int → Ty → Val
  cast : CastOp → Ty → Ty → Val → Val
  load : Mem → Content Val → Ty → Content Val
  store : Mem → Val → Content Val → Mem
  execute : Inst → Seen Val Mem → Effect Val Mem
  terminate :
    String → Nat → TerminatorOp → Seen Val Mem →
      Control Val × Mem × List (Entry Val Mem)

namespace Frame

variable {Val Mem : Type}

def set
    (frame : Frame Val Mem) (id : Nat) (content : Content Val) :
    Frame Val Mem :=
  { frame with registers := Function.update frame.registers id content }

def logging
    (frame : Frame Val Mem) (entries : List (Entry Val Mem)) : Frame Val Mem :=
  { frame with log := frame.log ++ entries }

/-- On the way from a block to the next. -/
def leaving
    (frame : Frame Val Mem) (block : Nat) (memory : Mem) : Frame Val Mem :=
  { frame with
    cameFrom := some block
    memory := memory }

/-- Registers from `fresh` on are not seen. -/
def seen (frame : Frame Val Mem) (fresh : Nat) : Seen Val Mem where
  registers := fun id =>
    if id < fresh then frame.registers id else .slot fresh
  arguments := frame.arguments
  cameFrom := frame.cameFrom
  memory := frame.memory

end Frame

/-- How a list of instructions ends. -/
inductive Result (Val Mem : Type) where
  | goes (frame : Frame Val Mem)
  | halts (memory : Mem) (log : List (Entry Val Mem))

def Result.bind {Val Mem : Type}
    (result : Result Val Mem) (next : Frame Val Mem → Result Val Mem) :
    Result Val Mem :=
  match result with
  | .goes frame => next frame
  | .halts memory log => .halts memory log

/-- The frame after an instruction of the program. -/
def Frame.after {Val Mem : Type}
    (frame : Frame Val Mem) (inst : Inst) : Effect Val Mem → Result Val Mem
  | .returns none memory log =>
      .goes { frame.logging log with memory := memory }
  | .returns (some result) memory log =>
      .goes { (frame.set inst.id result).logging log with memory := memory }
  | .halts memory log => .halts memory (frame.log ++ log)

/-! ## Instructions -/

namespace Machine

variable {Val Mem : Type} (machine : Machine Val Mem)

/-- The address of a slot stays what it is. -/
def castContent
    (op : CastOp) (source target : Ty) : Content Val → Content Val
  | .value value => .value (machine.cast op source target value)
  | .slot id => .slot id

def eval (frame : Frame Val Mem) : Value → Content Val
  | .argument _ index _ _ => frame.arguments index
  | .instruction id _ _ _ => frame.registers id
  | .globalVariable name _ => .value (machine.global name)
  | .constant text type => .value (machine.constant text type)
  | .constantInt value type => .value (machine.integer value type)
  | .constantCast op value type =>
      machine.castContent op value.getType type (eval frame value)

/-- An instruction that is left to the machine. -/
def runProgram (inst : Inst) (frame : Frame Val Mem) : Result Val Mem :=
  frame.after inst (machine.execute inst (frame.seen machine.fresh))

/-- A store to a slot is seen by nobody. -/
def step (inst : Inst) (frame : Frame Val Mem) : Result Val Mem :=
  match inst.op with
  | .load pointer =>
      .goes (frame.set inst.id
        (machine.load frame.memory (machine.eval frame pointer)
          inst.getType))
  | .store value pointer =>
      match machine.eval frame pointer with
      | .slot _ => .goes frame
      | .value address =>
          .goes { frame with
            memory :=
              machine.store frame.memory address
                (machine.eval frame value) }
  | .cast op operand type =>
      .goes (frame.set inst.id
        (machine.castContent op operand.getType type
          (machine.eval frame operand)))
  | .call (some callee) args _ =>
      if machine.isLog callee then
        .goes (frame.logging
          [⟨callee, args.map (machine.eval frame), frame.memory⟩])
      else
        match machine.enter callee.name with
        | some body =>
            frame.after inst
              (body (args.map (machine.eval frame)) frame.memory)
        | none => machine.runProgram inst frame
  | .alloca _ =>
      if machine.fresh ≤ inst.id then
        .goes (frame.set inst.id (.slot inst.id))
      else
        machine.runProgram inst frame
  | _ => machine.runProgram inst frame

def stepAll : List Inst → Frame Val Mem → Result Val Mem
  | [], frame => .goes frame
  | inst :: rest, frame => (machine.step inst frame).bind (stepAll rest)

end Machine

/-! ## Functions -/

/-- A block as the run of a function sees it. -/
structure Code (Val Mem : Type) where
  terminator : TerminatorOp
  body : Frame Val Mem → Result Val Mem

/-- How a run ends, or where it stands when the steps are used up. -/
inductive Behaviour (Val Mem : Type) where
  | runs (memory : Mem) (log : List (Entry Val Mem))
  | leaves (result : Option (Content Val)) (memory : Mem)
      (log : List (Entry Val Mem))
  | halts (memory : Mem) (log : List (Entry Val Mem))

def Behaviour.log {Val Mem : Type} :
    Behaviour Val Mem → List (Entry Val Mem)
  | .runs _ log => log
  | .leaves _ _ log => log
  | .halts _ log => log

/-- What the caller notices.  A function that is not done has not come back. -/
def Behaviour.effect {Val Mem : Type} :
    Behaviour Val Mem → Effect Val Mem
  | .runs memory log => .halts memory log
  | .leaves result memory log => .returns result memory log
  | .halts memory log => .halts memory log

namespace Machine

variable {Val Mem : Type} (machine : Machine Val Mem)

def code (block : Block) : Code Val Mem :=
  ⟨block.terminator.op, machine.stepAll block.insts⟩

/-- At most so many blocks of a function, from the one with this position
on. -/
def run (function : String) (codes : List (Code Val Mem)) :
    Nat → Nat → Frame Val Mem → Behaviour Val Mem
  | 0, _, frame => .runs frame.memory frame.log
  | steps + 1, index, frame =>
      match codes[index]? with
      | none => .halts frame.memory frame.log
      | some block =>
          match block.body frame with
          | .halts memory log => .halts memory log
          | .goes after =>
              let ended :=
                machine.terminate function index block.terminator
                  (after.seen machine.fresh)
              match ended.1 with
              | .goto next =>
                  run function codes steps next
                    ((after.logging ended.2.2).leaving index ended.2.1)
              | .leave result =>
                  .leaves result ended.2.1 (after.log ++ ended.2.2)
              | .halt => .halts ended.2.1 (after.log ++ ended.2.2)

end Machine

/-! ## Programs -/

/-- A function by its name and its code, which depends on the machine through
the functions that it calls.  A declaration has no code. -/
structure Routine where
  name : String
  codes : {Val Mem : Type} → Machine Val Mem → List (Code Val Mem)

def Function.routine (function : Function) : Routine where
  name := function.name
  codes := fun machine => function.blocks.map machine.code

/-- The first function of the name. -/
def lookup (routines : List Routine) (name : String) : Option Routine :=
  routines.find? fun routine => routine.name = name

namespace Machine

variable {Val Mem : Type} (machine : Machine Val Mem)

/-- A call with these arguments, in registers that hold nothing yet. -/
def start (args : List (Content Val)) (memory : Mem) : Frame Val Mem where
  registers := fun _ => .slot machine.fresh
  arguments := fun index => args.getD index (.slot machine.fresh)
  cameFrom := none
  memory := memory
  log := []

/-- A call of the function of this name, if it has a body; its first block is
the entry. -/
def call (routines : List Routine) (steps : Nat) (name : String) :
    Option (List (Content Val) → Mem → Behaviour Val Mem) :=
  match lookup routines name with
  | none => none
  | some routine =>
      if routine.codes machine = [] then none
      else
        some fun args memory =>
          machine.run name (routine.codes machine) steps 0
            (machine.start args memory)

def entering (bodies : Bodies Val Mem) : Machine Val Mem :=
  { machine with enter := bodies }

/-- The functions that have a body, run down to a depth of calls. -/
def bodies (routines : List Routine) (steps : Nat) :
    Nat → Bodies Val Mem
  | 0 => fun _ => none
  | depth + 1 => fun name =>
      ((machine.entering (bodies routines steps depth)).call routines steps
          name).map
        fun body args memory => (body args memory).effect

/-- A program is run from one of its functions on. -/
def behaviour
    (routines : List Routine) (steps depth : Nat) (name : String) :
    Option (List (Content Val) → Mem → Behaviour Val Mem) :=
  (machine.entering (machine.bodies routines steps depth)).call routines
    steps name

end Machine

end Dinamite.Instrument
