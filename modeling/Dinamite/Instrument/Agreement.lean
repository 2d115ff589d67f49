import Dinamite.Instrument.Machine

/-!
# Runs that agree

Two frames agree if they differ only in registers from a mark on and, where
logs are not kept, in what is logged.  An instruction whose operands are older
than the mark does the same in both, and so does code made of such
instructions.
-/

namespace Dinamite.Instrument

variable {Val Mem : Type} {keeps : Prop} {mark : Nat}

/-! ## Agreement -/

structure Frame.Agree
    (keeps : Prop) (mark : Nat) (left right : Frame Val Mem) : Prop where
  registers : ∀ id < mark, left.registers id = right.registers id
  arguments : left.arguments = right.arguments
  cameFrom : left.cameFrom = right.cameFrom
  memory : left.memory = right.memory
  log : keeps → left.log = right.log

inductive Effect.Agree
    (keeps : Prop) : Effect Val Mem → Effect Val Mem → Prop
  | returns (result : Option (Content Val)) (memory : Mem)
      {log other : List (Entry Val Mem)} (same : keeps → log = other) :
      Effect.Agree keeps (.returns result memory log)
        (.returns result memory other)
  | halts (memory : Mem)
      {log other : List (Entry Val Mem)} (same : keeps → log = other) :
      Effect.Agree keeps (.halts memory log) (.halts memory other)

inductive Result.Agree
    (keeps : Prop) (mark : Nat) :
    Result Val Mem → Result Val Mem → Prop
  | goes {left right : Frame Val Mem} (agree : left.Agree keeps mark right) :
      Result.Agree keeps mark (.goes left) (.goes right)
  | halts (memory : Mem)
      {log other : List (Entry Val Mem)} (same : keeps → log = other) :
      Result.Agree keeps mark (.halts memory log) (.halts memory other)

inductive Behaviour.Agree
    (keeps : Prop) : Behaviour Val Mem → Behaviour Val Mem → Prop
  | runs (memory : Mem)
      {log other : List (Entry Val Mem)} (same : keeps → log = other) :
      Behaviour.Agree keeps (.runs memory log) (.runs memory other)
  | leaves (result : Option (Content Val)) (memory : Mem)
      {log other : List (Entry Val Mem)} (same : keeps → log = other) :
      Behaviour.Agree keeps (.leaves result memory log)
        (.leaves result memory other)
  | halts (memory : Mem)
      {log other : List (Entry Val Mem)} (same : keeps → log = other) :
      Behaviour.Agree keeps (.halts memory log) (.halts memory other)

/-- The same functions have a body, and they differ only in what they log. -/
def Bodies.Agree (keeps : Prop) (left right : Bodies Val Mem) : Prop :=
  ∀ name,
    Option.Rel
      (fun body other =>
        ∀ args memory, (body args memory).Agree keeps (other args memory))
      (left name) (right name)

section Frames

variable {first second third : Frame Val Mem}

theorem Frame.Agree.refl
    (keeps : Prop) (mark : Nat) (frame : Frame Val Mem) :
    frame.Agree keeps mark frame :=
  ⟨fun _ _ => rfl, rfl, rfl, rfl, fun _ => rfl⟩

theorem Frame.Agree.symm (agree : first.Agree keeps mark second) :
    second.Agree keeps mark first :=
  ⟨fun id below => (agree.registers id below).symm, agree.arguments.symm,
    agree.cameFrom.symm, agree.memory.symm,
    fun kept => (agree.log kept).symm⟩

theorem Frame.Agree.trans
    (agree : first.Agree keeps mark second)
    (later : second.Agree keeps mark third) :
    first.Agree keeps mark third :=
  ⟨fun id below =>
      (agree.registers id below).trans (later.registers id below),
    agree.arguments.trans later.arguments,
    agree.cameFrom.trans later.cameFrom, agree.memory.trans later.memory,
    fun kept => (agree.log kept).trans (later.log kept)⟩

theorem Frame.Agree.mono
    (agree : first.Agree keeps mark second)
    {less : Nat} (fewer : less ≤ mark) :
    first.Agree keeps less second :=
  { agree with
    registers := fun id below =>
      agree.registers id (below.trans_le fewer) }

theorem Frame.Agree.set
    (agree : first.Agree keeps mark second)
    (id : Nat) (content : Content Val) :
    (first.set id content).Agree keeps mark (second.set id content) := by
  refine { agree with registers := ?_ }
  intro other below
  by_cases same : other = id
  · simp [Frame.set, same]
  · simp only [Frame.set, Function.update_of_ne same]
    exact agree.registers other below

theorem Frame.Agree.logging
    (agree : first.Agree keeps mark second)
    {entries others : List (Entry Val Mem)}
    (same : keeps → entries = others) :
    (first.logging entries).Agree keeps mark (second.logging others) := by
  refine { agree with log := ?_ }
  intro kept
  simp only [Frame.logging, agree.log kept, same kept]

theorem Frame.Agree.withMemory
    (agree : first.Agree keeps mark second) (memory : Mem) :
    ({ first with memory := memory } : Frame Val Mem).Agree keeps mark
      { second with memory := memory } :=
  { agree with memory := rfl }

theorem Frame.Agree.leaving
    (agree : first.Agree keeps mark second) (block : Nat) (memory : Mem) :
    (first.leaving block memory).Agree keeps mark
      (second.leaving block memory) :=
  ⟨agree.registers, agree.arguments, rfl, rfl, agree.log⟩

/-- A young register does not count. -/
theorem Frame.agree_set
    (frame : Frame Val Mem) {id : Nat} (young : mark ≤ id)
    (content : Content Val) :
    frame.Agree keeps mark (frame.set id content) := by
  refine ⟨?_, rfl, rfl, rfl, fun _ => rfl⟩
  intro other below
  have different : other ≠ id := by omega
  simp only [Frame.set, Function.update_of_ne different]

theorem Frame.Agree.seen
    (agree : first.Agree keeps mark second) {fresh : Nat}
    (older : fresh ≤ mark) :
    first.seen fresh = second.seen fresh := by
  have registers :
      (fun id => if id < fresh then first.registers id else .slot fresh) =
        fun id =>
          if id < fresh then second.registers id else .slot fresh := by
    funext id
    by_cases below : id < fresh
    · rw [if_pos below, if_pos below,
        agree.registers id (below.trans_le older)]
    · rw [if_neg below, if_neg below]
  simp only [Frame.seen, registers, agree.arguments, agree.cameFrom,
    agree.memory]

theorem Effect.Agree.refl (keeps : Prop) (effect : Effect Val Mem) :
    effect.Agree keeps effect := by
  cases effect with
  | returns result memory log => exact .returns result memory fun _ => rfl
  | halts memory log => exact .halts memory fun _ => rfl

theorem Frame.Agree.after
    (agree : first.Agree keeps mark second) (inst : Inst)
    {effect other : Effect Val Mem} (same : effect.Agree keeps other) :
    (first.after inst effect).Agree keeps mark (second.after inst other) := by
  cases same with
  | returns result memory sameLog =>
      cases result with
      | none => exact .goes ((agree.logging sameLog).withMemory memory)
      | some content =>
          exact .goes
            (((agree.set inst.id content).logging sameLog).withMemory memory)
  | halts memory sameLog =>
      refine .halts memory ?_
      intro kept
      rw [agree.log kept, sameLog kept]

end Frames

section Results

variable {first second third : Result Val Mem}

theorem Result.Agree.refl
    (keeps : Prop) (mark : Nat) (result : Result Val Mem) :
    result.Agree keeps mark result := by
  cases result with
  | goes frame => exact .goes (.refl keeps mark frame)
  | halts memory log => exact .halts memory fun _ => rfl

theorem Result.Agree.trans
    (agree : first.Agree keeps mark second)
    (later : second.Agree keeps mark third) :
    first.Agree keeps mark third := by
  cases agree with
  | goes agree =>
      cases later with
      | goes later => exact .goes (agree.trans later)
  | halts memory same =>
      cases later with
      | halts _ sameLater =>
          exact .halts memory fun kept => (same kept).trans (sameLater kept)

theorem Result.Agree.bind
    (agree : first.Agree keeps mark second)
    {next other : Frame Val Mem → Result Val Mem} {less : Nat}
    (continued : ∀ left right : Frame Val Mem,
      left.Agree keeps mark right →
        (next left).Agree keeps less (other right)) :
    (first.bind next).Agree keeps less (second.bind other) := by
  cases agree with
  | goes agree => exact continued _ _ agree
  | halts memory same => exact .halts memory same

end Results

@[simp]
theorem Result.bind_goes
    (frame : Frame Val Mem) (next : Frame Val Mem → Result Val Mem) :
    (Result.goes frame).bind next = next frame :=
  rfl

theorem Result.bind_bind
    (result : Result Val Mem)
    (next later : Frame Val Mem → Result Val Mem) :
    (result.bind next).bind later =
      result.bind fun frame => (next frame).bind later := by
  cases result <;> rfl

theorem Behaviour.Agree.eq
    {first second : Behaviour Val Mem} (agree : first.Agree True second) :
    first = second := by
  cases agree with
  | runs memory same => rw [same trivial]
  | leaves result memory same => rw [same trivial]
  | halts memory same => rw [same trivial]

theorem Behaviour.Agree.effect
    {first second : Behaviour Val Mem} (agree : first.Agree keeps second) :
    first.effect.Agree keeps second.effect := by
  cases agree with
  | runs memory same => exact .halts memory same
  | leaves result memory same => exact .returns result memory same
  | halts memory same => exact .halts memory same

theorem Bodies.Agree.refl (keeps : Prop) (bodies : Bodies Val Mem) :
    bodies.Agree keeps bodies := by
  intro name
  cases bodies name with
  | none => exact .none
  | some body => exact .some fun args memory => .refl keeps _

/-! ## Operands -/

/-- The registers that are read are older than the mark. -/
def Value.Below (mark : Nat) : Value → Prop
  | .instruction id _ _ _ => id < mark
  | .constantCast _ value _ => value.Below mark
  | _ => True

instance decidableBelow (mark : Nat) :
    (value : Value) → Decidable (value.Below mark)
  | .instruction id _ _ _ => inferInstanceAs (Decidable (id < mark))
  | .constantCast _ value _ => decidableBelow mark value
  | .argument .. => isTrue trivial
  | .globalVariable .. => isTrue trivial
  | .constant .. => isTrue trivial
  | .constantInt .. => isTrue trivial

theorem Value.Below.mono
    {value : Value} (below : value.Below mark)
    {more : Nat} (grows : mark ≤ more) : value.Below more := by
  induction value with
  | instruction id name type gep => exact Nat.lt_of_lt_of_le below grows
  | constantCast op value type inductionHypothesis =>
      exact inductionHypothesis below
  | _ => trivial

/-- What an instruction is seen to read. -/
def Inst.operands (inst : Inst) : List Value :=
  match inst.op with
  | .load pointer => [pointer]
  | .store value pointer => [value, pointer]
  | .call _ args _ => args
  | .cast _ operand _ => [operand]
  | _ => []

def Inst.OperandsBelow (mark : Nat) (inst : Inst) : Prop :=
  ∀ value ∈ inst.operands, value.Below mark

instance (mark : Nat) (inst : Inst) :
    Decidable (inst.OperandsBelow mark) :=
  inferInstanceAs (Decidable (∀ value ∈ inst.operands, value.Below mark))

namespace Machine

variable {machine : Machine Val Mem}
variable {left right : Frame Val Mem}

theorem eval_congr
    (agree : left.Agree keeps mark right) {value : Value}
    (below : value.Below mark) :
    machine.eval left value = machine.eval right value := by
  induction value with
  | argument function index name type =>
      simp only [eval, agree.arguments]
  | instruction id name type gep =>
      exact agree.registers id below
  | constantCast op value type inductionHypothesis =>
      simp only [eval, inductionHypothesis below]
  | _ => rfl

/-- Values do not depend on the log. -/
@[simp]
theorem eval_logging
    (frame : Frame Val Mem) (entries : List (Entry Val Mem))
    (value : Value) :
    machine.eval (frame.logging entries) value =
      machine.eval frame value := by
  induction value with
  | constantCast op value type inductionHypothesis =>
      simp only [eval, inductionHypothesis]
  | _ => rfl

theorem map_eval_congr
    (agree : left.Agree keeps mark right) {values : List Value}
    (below : ∀ value ∈ values, value.Below mark) :
    values.map (machine.eval left) = values.map (machine.eval right) :=
  List.map_congr_left fun value member =>
    eval_congr agree (below value member)

theorem runProgram_congr
    (agree : left.Agree keeps mark right) (older : machine.fresh ≤ mark)
    (inst : Inst) :
    (machine.runProgram inst left).Agree keeps mark
      (machine.runProgram inst right) := by
  unfold runProgram
  rw [agree.seen older]
  exact agree.after inst (.refl keeps _)

@[simp]
theorem entering_eval
    (bodies : Bodies Val Mem) (frame : Frame Val Mem) (value : Value) :
    (machine.entering bodies).eval frame value =
      machine.eval frame value := by
  induction value with
  | constantCast op value type inductionHypothesis =>
      simp only [eval, inductionHypothesis]
      rfl
  | _ => rfl

theorem entering_eval_eq
    (bodies : Bodies Val Mem) (frame : Frame Val Mem) :
    (machine.entering bodies).eval frame = machine.eval frame :=
  funext (entering_eval bodies frame)

@[simp]
theorem entering_fresh (bodies : Bodies Val Mem) :
    (machine.entering bodies).fresh = machine.fresh :=
  rfl

@[simp]
theorem entering_isLog (bodies : Bodies Val Mem) :
    (machine.entering bodies).isLog = machine.isLog :=
  rfl

@[simp]
theorem entering_enter (bodies : Bodies Val Mem) :
    (machine.entering bodies).enter = bodies :=
  rfl

@[simp]
theorem entering_terminate (bodies : Bodies Val Mem) :
    (machine.entering bodies).terminate = machine.terminate :=
  rfl

/-- The same operands and functions that agree, the same effect. -/
theorem step_entering
    {first second : Bodies Val Mem} (bodies : first.Agree keeps second)
    (agree : left.Agree keeps mark right) (older : machine.fresh ≤ mark)
    {inst : Inst} (below : inst.OperandsBelow mark) :
    ((machine.entering first).step inst left).Agree keeps mark
      ((machine.entering second).step inst right) := by
  have program :
      ((machine.entering first).runProgram inst left).Agree keeps mark
        ((machine.entering second).runProgram inst right) :=
    @runProgram_congr _ _ _ _ machine _ _ agree older inst
  rcases inst with ⟨id, name, op, debugLoc⟩
  cases op with
  | load pointer =>
      have same : machine.eval left pointer = machine.eval right pointer :=
        eval_congr agree (below pointer List.mem_cons_self)
      simp only [step, entering_eval, same, agree.memory]
      exact .goes (agree.set _ _)
  | store value pointer =>
      have samePointer :
          machine.eval left pointer = machine.eval right pointer :=
        eval_congr agree
          (below pointer (List.mem_cons_of_mem _ List.mem_cons_self))
      have sameValue :
          machine.eval left value = machine.eval right value :=
        eval_congr agree (below value List.mem_cons_self)
      simp only [step, entering_eval, samePointer, sameValue, agree.memory]
      cases machine.eval right pointer with
      | slot slot => exact .goes agree
      | value address => exact .goes (agree.withMemory _)
  | cast op operand type =>
      have same : machine.eval left operand = machine.eval right operand :=
        eval_congr agree (below operand List.mem_cons_self)
      simp only [step, entering_eval, same]
      exact .goes (agree.set _ _)
  | call callee args type =>
      cases callee with
      | none => exact program
      | some callee =>
          have same :
              args.map (machine.eval left) =
                args.map (machine.eval right) :=
            map_eval_congr agree below
          simp only [step, entering_eval_eq, entering_isLog, entering_enter,
            same, agree.memory]
          by_cases logs : machine.isLog callee = true
          · rw [if_pos logs, if_pos logs]
            exact .goes (agree.logging fun _ => rfl)
          · rw [if_neg logs, if_neg logs]
            have body := bodies callee.name
            generalize first callee.name = firstBody at body ⊢
            generalize second callee.name = secondBody at body ⊢
            cases body with
            | none => exact program
            | some same => exact agree.after _ (same _ _)
  | alloca type =>
      simp only [step]
      by_cases injected : machine.fresh ≤ id
      · rw [if_pos (show (machine.entering first).fresh ≤ id from injected),
          if_pos (show (machine.entering second).fresh ≤ id from injected)]
        exact .goes (agree.set _ _)
      · rw [if_neg (show ¬ (machine.entering first).fresh ≤ id from injected),
          if_neg (show ¬ (machine.entering second).fresh ≤ id from injected)]
        exact program
  | _ => exact program

theorem step_congr
    (agree : left.Agree keeps mark right) (older : machine.fresh ≤ mark)
    {inst : Inst} (below : inst.OperandsBelow mark) :
    (machine.step inst left).Agree keeps mark (machine.step inst right) :=
  @step_entering _ _ _ _ machine _ _ _ _ (.refl keeps machine.enter) agree
    older _ below

theorem stepAll_entering
    {first second : Bodies Val Mem} (bodies : first.Agree keeps second)
    (agree : left.Agree keeps mark right) (older : machine.fresh ≤ mark)
    {insts : List Inst}
    (below : ∀ inst ∈ insts, inst.OperandsBelow mark) :
    ((machine.entering first).stepAll insts left).Agree keeps mark
      ((machine.entering second).stepAll insts right) := by
  induction insts generalizing left right with
  | nil => exact .goes agree
  | cons inst rest inductionHypothesis =>
      exact (step_entering bodies agree older
        (below inst List.mem_cons_self)).bind
          fun _ _ continued =>
            inductionHypothesis continued
              fun other member => below other (List.mem_cons_of_mem _ member)

theorem stepAll_append
    (earlier later : List Inst) (frame : Frame Val Mem) :
    machine.stepAll (earlier ++ later) frame =
      (machine.stepAll earlier frame).bind (machine.stepAll later) := by
  induction earlier generalizing frame with
  | nil => rfl
  | cons inst earlier inductionHypothesis =>
      rw [List.cons_append, stepAll, stepAll, Result.bind_bind]
      cases machine.step inst frame with
      | goes next => exact inductionHypothesis next
      | halts memory log => rfl

theorem stepAll_singleton (inst : Inst) (frame : Frame Val Mem) :
    machine.stepAll [inst] frame = machine.step inst frame := by
  rw [stepAll]
  cases machine.step inst frame <;> rfl

end Machine

/-! ## Runs -/

/-- Two codes of one shape that do the same from frames that agree. -/
structure Code.Agree
    (keeps : Prop) (fresh : Nat) (left right : Code Val Mem) : Prop where
  terminator : left.terminator = right.terminator
  body : ∀ first second : Frame Val Mem,
    first.Agree keeps fresh second →
      (left.body first).Agree keeps fresh (right.body second)

theorem rel_getElem?
    {α β : Type} {related : α → β → Prop} {lefts : List α}
    {rights : List β} (all : List.Forall₂ related lefts rights)
    (index : Nat) :
    Option.Rel related lefts[index]? rights[index]? := by
  induction all generalizing index with
  | nil => exact .none
  | cons first _ inductionHypothesis =>
      cases index with
      | zero => exact .some first
      | succ index => exact inductionHypothesis index

/-- Codes that agree behave alike for every number of steps. -/
theorem Machine.run_congr
    {machine : Machine Val Mem} {left right : List (Code Val Mem)}
    (codes : List.Forall₂ (Code.Agree keeps machine.fresh) left right)
    {first second : Frame Val Mem}
    (agree : first.Agree keeps machine.fresh second)
    (bodies others : Bodies Val Mem) (function : String)
    (steps index : Nat) :
    ((machine.entering bodies).run function left steps index first).Agree
      keeps
      ((machine.entering others).run function right steps index second) := by
  induction steps generalizing index first second with
  | zero =>
      simp only [run, agree.memory]
      exact .runs _ agree.log
  | succ steps inductionHypothesis =>
      have here := rel_getElem? codes index
      simp only [run]
      generalize left[index]? = leftCode at here ⊢
      generalize right[index]? = rightCode at here ⊢
      cases here with
      | none =>
          rw [agree.memory]
          exact .halts _ agree.log
      | @some leftBlock rightBlock block =>
          have bodiesAgree := block.body first second agree
          simp only [block.terminator]
          generalize leftBlock.body first = leftEnd at bodiesAgree ⊢
          generalize rightBlock.body second = rightEnd at bodiesAgree ⊢
          cases bodiesAgree with
          | halts memory same => exact .halts memory same
          | @goes leftAfter rightAfter after =>
              have sees :
                  leftAfter.seen machine.fresh =
                    rightAfter.seen machine.fresh :=
                after.seen (Nat.le_refl _)
              simp only [entering_fresh, sees, entering_terminate]
              rcases machine.terminate function index rightBlock.terminator
                  (rightAfter.seen machine.fresh) with
                ⟨control, memory, log⟩
              have logged :
                  (leftAfter.logging log).Agree keeps machine.fresh
                    (rightAfter.logging log) :=
                after.logging fun _ => rfl
              cases control with
              | goto next =>
                  exact inductionHypothesis (logged.leaving index memory)
                    next
              | leave result => exact .leaves result memory logged.log
              | halt => exact .halts memory logged.log

end Dinamite.Instrument
