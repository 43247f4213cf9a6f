import Relics.InterruptSource

namespace Relics.Interrupt

/-!
# The frame `exception_handler` receives

The words the processor and a stub push are exactly the fields of `regs_t`
when the stub pushes a zero for the vectors without an error code and for no
others.  The stubs of vectors 21 and 29 push one although the processor has
pushed an error code, which shifts every field above it by one word.
-/

open ByteMemory WordStack

/-- The words on the stack of a machine, the top first. -/
def Holding (machine : Machine) (values : List UInt64) : Prop :=
  Holds machine.memory machine.rsp values

/-- The error code the processor pushes for a vector, if it pushes one. -/
def pushedCode (vector : Nat) (code : UInt64) : Option UInt64 :=
  if hasErrorCode vector then some code else none

/-- The machine when `exception_handler` is called. -/
def atHandler
    (context : Context)
    (stack : UInt64)
    (gate : Gate)
    (vector : Nat)
    (code : UInt64) :
    Machine :=
  run (deliver context.toMachine stack gate (pushedCode vector code))
    (stub vector ++ commonStubEntry)

/-- The frame a handler is to receive for an interrupted context. -/
def expectedFrame
    (context : Context)
    (vector : Nat)
    (code : UInt64) :
    RegsT where
  r15 := context.registers .r15
  r14 := context.registers .r14
  r13 := context.registers .r13
  r12 := context.registers .r12
  r11 := context.registers .r11
  r10 := context.registers .r10
  r9 := context.registers .r9
  r8 := context.registers .r8
  rbp := context.registers .rbp
  rdi := context.registers .rdi
  rsi := context.registers .rsi
  rdx := context.registers .rdx
  rcx := context.registers .rcx
  rbx := context.registers .rbx
  rax := context.registers .rax
  irq := UInt64.ofNat vector
  errorCode := (pushedCode vector code).getD 0
  rip := context.rip
  cs := context.cs.toUInt64
  rflags := context.rflags
  rsp := context.rsp
  ss := context.ss.toUInt64

/-- The machine runs the interrupted context again. -/
structure Resumed (machine : Machine) (context : Context) : Prop where
  registers : machine.registers = context.registers
  rip : machine.rip = context.rip
  cs : machine.cs = context.cs
  rflags : machine.rflags = context.rflags
  rsp : machine.rsp = context.rsp
  ss : machine.ss = context.ss

/--
The handler receives the expected frame, and however it returns, as long as
the stack pointer and the frame are unchanged, the context is resumed.
-/
structure FrameMatches
    (context : Context)
    (stack : UInt64)
    (gate : Gate)
    (vector : Nat)
    (code : UInt64) :
    Prop where
  received :
    RegsT.read (atHandler context stack gate vector code).memory
        ((atHandler context stack gate vector code).registers .rdi) =
      expectedFrame context vector code
  resumed :
    ∀ returned : Machine,
      returned.rsp = (atHandler context stack gate vector code).rsp →
      RegsT.read returned.memory returned.rsp =
        RegsT.read (atHandler context stack gate vector code).memory
          (atHandler context stack gate vector code).rsp →
      Resumed (run returned commonStubExit) context

section Stack

variable
    {machine : Machine}
    {values rest : List UInt64}
    {value : UInt64}

/-- Pushing and dropping words keep the registers. -/
@[simp] theorem registers_push :
    (machine.push value).registers = machine.registers :=
  rfl

@[simp] theorem registers_drop :
    machine.drop.registers = machine.registers :=
  rfl

theorem Holding.push
    (holding : Holding machine values)
    (value : UInt64)
    (near : values.length + 1 < 2 ^ 61) :
    Holding (machine.push value) (value :: values) :=
  Holds.push holding near

theorem Holding.top
    (holding : Holding machine (value :: rest)) :
    machine.top = value :=
  holding.1

theorem Holding.drop
    (holding : Holding machine (value :: rest)) :
    Holding machine.drop rest :=
  holding.2

/-- Pushing registers in order puts them on the stack in reverse order. -/
theorem holding_pushes
    (registers : List Register)
    (holding : Holding machine values)
    (near : registers.length + values.length < 2 ^ 61) :
    Holding (run machine (registers.map .push))
        ((registers.map machine.registers).reverse ++ values) ∧
      (run machine (registers.map .push)).registers = machine.registers := by
  induction registers generalizing machine values with
  | nil =>
      exact ⟨holding, rfl⟩
  | cons register later inductionHypothesis =>
      rw [List.length_cons] at near
      have pushed :
          Holding (machine.push (machine.registers register))
            (machine.registers register :: values) :=
        holding.push _ (by omega)
      obtain ⟨held, kept⟩ :=
        inductionHypothesis pushed (by simp; omega)
      refine ⟨?_, kept⟩
      have regrouped :
          ((register :: later).map machine.registers).reverse ++ values =
            (later.map machine.registers).reverse ++
              machine.registers register :: values := by
        simp
      rw [regrouped]
      exact held

/-- Popping registers gives each the word that stands for it on the stack. -/
theorem holding_pops
    (registers : List Register)
    (saved : Register → UInt64)
    (holding : Holding machine (registers.map saved ++ rest)) :
    Holding (run machine (registers.map .pop)) rest ∧
      ∀ register,
        (run machine (registers.map .pop)).registers register =
          if register ∈ registers then
            saved register
          else
            machine.registers register := by
  induction registers generalizing machine with
  | nil =>
      exact ⟨holding, fun register => by simp [run]⟩
  | cons first later inductionHypothesis =>
      have top : machine.top = saved first := holding.top
      have popped :
          Holding (machine.drop.setRegister first machine.top)
            (later.map saved ++ rest) :=
        holding.drop
      obtain ⟨held, values⟩ := inductionHypothesis popped
      refine ⟨held, ?_⟩
      intro register
      have value := values register
      simp only [run, List.map_cons, List.foldl_cons, execute] at value ⊢
      rw [value]
      simp only [Machine.setRegister, Machine.drop, top, List.mem_cons]
      by_cases inLater : register ∈ later
      · simp [inLater]
      · by_cases isFirst : register = first
        · simp [isFirst]
        · simp [inLater, isFirst]

/-- `iretq` takes the five words on top of the stack. -/
theorem execute_iretq
    {rip cs rflags rsp ss : UInt64}
    (holding : Holding machine (rip :: cs :: rflags :: rsp :: ss :: rest)) :
    (execute machine .iretq).registers = machine.registers ∧
      (execute machine .iretq).rip = rip ∧
      (execute machine .iretq).cs = cs.toUInt16 ∧
      (execute machine .iretq).rflags = rflags ∧
      (execute machine .iretq).rsp = rsp ∧
      (execute machine .iretq).ss = ss.toUInt16 := by
  have afterRip := holding.drop
  have afterCs := afterRip.drop
  have afterFlags := afterCs.drop
  have afterRsp := afterFlags.drop
  simp only [execute, holding.top, afterRip.top, afterCs.top, afterFlags.top,
    afterRsp.top, registers_drop]
  exact ⟨trivial, trivial, trivial, trivial, trivial, trivial⟩

end Stack

section Entry

variable
    (context : Context)
    (stack : UInt64)
    (gate : Gate)
    (code : UInt64)
    {vector : Nat}

/-- The five words the processor always pushes. -/
def returnWords : List UInt64 :=
  [context.rip, context.cs.toUInt64, context.rflags, context.rsp,
    context.ss.toUInt64]

/-- The zero a stub pushes in the place of an error code, if it does. -/
def placeholder (vector : Nat) : List UInt64 :=
  if hasErrorCode vector ∧ vector ≠ 21 ∧ vector ≠ 29 then [] else [0]

/-- The stub of a vector pushes a placeholder, if it does, and the vector. -/
theorem stub_eq
    (inside : vector < 48) :
    stub vector =
      (placeholder vector).map .pushImmediate ++
        [.pushImmediate (UInt64.ofNat vector)] := by
  have everyStub :
      ∀ vector < 48,
        stub vector =
          (placeholder vector).map .pushImmediate ++
            [.pushImmediate (UInt64.ofNat vector)] := by
    decide
  exact everyStub vector inside

/-- What is on the stack when the processor has delivered an interrupt. -/
theorem holding_deliver (pushed : Option UInt64) :
    Holding (deliver context.toMachine stack gate pushed)
      (pushed.toList ++ returnWords context) := by
  have nothing : Holding { context.toMachine with rsp := stack } [] :=
    trivial
  have one := nothing.push context.ss.toUInt64 (by simp)
  have two := one.push context.rsp (by simp)
  have three := two.push context.rflags (by simp)
  have four := three.push context.cs.toUInt64 (by simp)
  have five := four.push context.rip (by simp)
  cases pushed with
  | none =>
      exact five
  | some code =>
      exact five.push code (by simp)

/-- The processor pushes at most six words. -/
theorem length_delivered_le (vector : Nat) :
    ((pushedCode vector code).toList ++ returnWords context).length ≤ 6 := by
  cases pushedCode vector code with
  | none =>
      simp [returnWords]
  | some pushed =>
      simp [returnWords]

/-- A stub pushes at most one word in place of a code. -/
theorem length_stubbed_le (vector : Nat) :
    (placeholder vector ++
        ((pushedCode vector code).toList ++ returnWords context)).length ≤
      7 := by
  have delivered := length_delivered_le context code vector
  have held : (placeholder vector).length ≤ 1 := by
    unfold placeholder
    split
    · exact Nat.zero_le 1
    · exact Nat.le_refl 1
  rw [List.length_append]
  omega

/-- `popaq` takes the registers in the order opposite to `pushaq`. -/
theorem map_pushaqOrder_reverse (registers : Register → UInt64) :
    (pushaqOrder.map registers).reverse = popaqOrder.map registers :=
  rfl

/-- What is on the stack when a stub jumps to `idt_common_stub`. -/
theorem holding_stub
    (inside : vector < 48) :
    Holding
        (run (deliver context.toMachine stack gate (pushedCode vector code))
          (stub vector))
        (UInt64.ofNat vector ::
          (placeholder vector ++
            ((pushedCode vector code).toList ++ returnWords context))) ∧
      (run (deliver context.toMachine stack gate (pushedCode vector code))
          (stub vector)).registers = context.registers := by
  have delivered :=
    holding_deliver context stack gate (pushedCode vector code)
  have kept :
      (deliver context.toMachine stack gate
        (pushedCode vector code)).registers = context.registers := by
    cases pushedCode vector code with
    | none =>
        simp only [deliver, registers_push]
    | some pushed =>
        simp only [deliver, registers_push]
  have room := length_delivered_le context code vector
  rw [stub_eq inside]
  by_cases pushesCode : hasErrorCode vector ∧ vector ≠ 21 ∧ vector ≠ 29
  · simp only [placeholder, pushesCode, ne_eq, not_false_eq_true, and_self,
      ↓reduceIte, List.map_nil, List.nil_append]
    exact ⟨delivered.push _ (by omega), kept⟩
  · simp only [placeholder, pushesCode, ↓reduceIte, List.map_cons,
      List.map_nil, List.singleton_append]
    exact
      ⟨(delivered.push 0 (by omega)).push _ (by rw [List.length_cons]; omega),
        kept⟩

/-- The stack and the argument of `exception_handler` when it is called. -/
theorem holding_atHandler
    (inside : vector < 48) :
    Holding (atHandler context stack gate vector code)
        (popaqOrder.map context.registers ++
          UInt64.ofNat vector ::
            (placeholder vector ++
              ((pushedCode vector code).toList ++ returnWords context))) ∧
      (atHandler context stack gate vector code).registers .rdi =
        (atHandler context stack gate vector code).rsp := by
  obtain ⟨stubbed, kept⟩ := holding_stub context stack gate code inside
  let entered : Machine :=
    execute
      (run (deliver context.toMachine stack gate (pushedCode vector code))
        (stub vector))
      .cld
  have cleared :
      Holding entered
        (UInt64.ofNat vector ::
          (placeholder vector ++
            ((pushedCode vector code).toList ++ returnWords context))) :=
    stubbed
  have room := length_stubbed_le context code vector
  have near :
      pushaqOrder.length +
          (UInt64.ofNat vector ::
            (placeholder vector ++
              ((pushedCode vector code).toList ++
                returnWords context))).length < 2 ^ 61 := by
    have fifteen : pushaqOrder.length = 15 := rfl
    rw [List.length_cons]
    omega
  have pushed := (holding_pushes pushaqOrder cleared near).1
  have sameRegisters : entered.registers = context.registers := kept
  rw [map_pushaqOrder_reverse, sameRegisters] at pushed
  have split :
      atHandler context stack gate vector code =
        execute (run entered (pushaqOrder.map .push)) .movRdiRsp := by
    simp [atHandler, commonStubEntry, pushaq, run, entered]
  rw [split]
  refine ⟨pushed, ?_⟩
  simp [execute, Machine.setRegister]

end Entry

/-- The words of the expected frame, from the general registers on. -/
theorem words_expectedFrame
    (context : Context)
    (vector : Nat)
    (code : UInt64) :
    (expectedFrame context vector code).words =
      popaqOrder.map context.registers ++
        UInt64.ofNat vector :: (pushedCode vector code).getD 0 ::
          returnWords context :=
  rfl

/-- Words held from an address on include the first of them. -/
theorem holds_of_append
    {memory : Memory}
    {pointer : UInt64}
    {values rest : List UInt64}
    (holds : Holds memory pointer (values ++ rest)) :
    Holds memory pointer values := by
  induction values generalizing pointer with
  | nil =>
      trivial
  | cons value later inductionHypothesis =>
      exact ⟨holds.1, inductionHypothesis holds.2⟩

/-- The frame when a word stands between the vector and the error code. -/
def shiftedFrame
    (context : Context)
    (vector : Nat)
    (code : UInt64) :
    RegsT :=
  { expectedFrame context vector code with
    errorCode := 0
    rip := code
    cs := context.rip
    rflags := context.cs.toUInt64
    rsp := context.rflags
    ss := context.rsp }

/-- The shifted frame differs from the expected one in every context. -/
theorem shiftedFrame_ne
    {context : Context}
    {vector : Nat}
    {code : UInt64}
    (pushes : hasErrorCode vector) :
    shiftedFrame context vector code ≠ expectedFrame context vector code := by
  intro same
  have codes : 0 = (expectedFrame context vector code).errorCode :=
    congrArg RegsT.errorCode same
  have rips : code = context.rip := congrArg RegsT.rip same
  have selectors : context.rip = context.cs.toUInt64 :=
    congrArg RegsT.cs same
  have flags : context.cs.toUInt64 = context.rflags :=
    congrArg RegsT.rflags same
  simp only [expectedFrame, pushedCode, pushes, ↓reduceIte,
    Option.getD_some] at codes
  -- all of them are 0, but bit 1 of the flags is set
  apply context.reserved
  rw [← flags, ← selectors, ← rips, ← codes]
  rfl

/-- Leaving a handler that kept its frame resumes the interrupted context. -/
theorem resumed_of_frame
    {context : Context}
    {vector : Nat}
    {code : UInt64}
    {returned : Machine}
    (kept :
      RegsT.read returned.memory returned.rsp =
        expectedFrame context vector code) :
    Resumed (run returned commonStubExit) context := by
  have holding : Holding returned (expectedFrame context vector code).words :=
    RegsT.holds_iff_read.mpr kept
  rw [words_expectedFrame] at holding
  obtain ⟨held, restored⟩ := holding_pops popaqOrder context.registers holding
  let popped : Machine := run returned (popaqOrder.map .pop)
  let balanced : Machine := execute (execute popped (.addRsp 16)) .sti
  have skipped : Holding balanced (returnWords context) := by
    have below : Holding popped.drop.drop (returnWords context) :=
      held.drop.drop
    have sameStack : balanced.rsp = popped.drop.drop.rsp := by
      simp [balanced, execute, Machine.drop, UInt64.add_assoc]
    unfold Holding
    rw [sameStack]
    exact below
  obtain ⟨registers, rip, cs, rflags, rsp, ss⟩ := execute_iretq skipped
  have split :
      run returned commonStubExit = execute balanced .iretq := by
    simp [commonStubExit, popaq, run, balanced, popped]
  rw [split]
  exact {
    registers := by
      rw [registers]
      funext register
      have everyRegister : register ∈ popaqOrder := by
        cases register <;> decide
      exact (restored register).trans (if_pos everyRegister)
    rip := rip
    cs := by rw [cs]; simp
    rflags := rflags
    rsp := rsp
    ss := by rw [ss]; simp }

/-- Every vector but 21 and 29 hands its context over in the frame. -/
theorem frame_atHandler
    (context : Context)
    (stack : UInt64)
    (gate : Gate)
    {vector : Nat}
    (code : UInt64)
    (inside : vector < 48)
    (framed : vector ≠ 21 ∧ vector ≠ 29) :
    RegsT.read (atHandler context stack gate vector code).memory
        ((atHandler context stack gate vector code).registers .rdi) =
      expectedFrame context vector code := by
  obtain ⟨holding, argument⟩ :=
    holding_atHandler context stack gate code inside
  have words :
      placeholder vector ++
          ((pushedCode vector code).toList ++ returnWords context) =
        (pushedCode vector code).getD 0 :: returnWords context := by
    by_cases pushes : hasErrorCode vector
    · simp [placeholder, pushedCode, pushes, framed.1, framed.2]
    · simp [placeholder, pushedCode, pushes]
  rw [words, ← words_expectedFrame] at holding
  rw [argument]
  exact RegsT.holds_iff_read.mp holding

/-- The placeholder of vectors 21 and 29 shifts the frame. -/
theorem not_frameMatches_of_shifted
    (context : Context)
    (stack : UInt64)
    (gate : Gate)
    {vector : Nat}
    (code : UInt64)
    (shifted : vector = 21 ∨ vector = 29) :
    ¬FrameMatches context stack gate vector code := by
  intro frameMatches
  have inside : vector < 48 := by
    omega
  have pushes : hasErrorCode vector := by
    rcases shifted with rfl | rfl
    all_goals decide
  obtain ⟨holding, argument⟩ :=
    holding_atHandler context stack gate code inside
  have words :
      popaqOrder.map context.registers ++
          UInt64.ofNat vector ::
            (placeholder vector ++
              ((pushedCode vector code).toList ++ returnWords context)) =
        (shiftedFrame context vector code).words ++
          [context.ss.toUInt64] := by
    have placed : placeholder vector = [0] := if_neg (by omega)
    have pushed : pushedCode vector code = some code := if_pos pushes
    rw [placed, pushed]
    rfl
  rw [words] at holding
  have frame := RegsT.holds_iff_read.mp (holds_of_append holding)
  have received := frameMatches.received
  rw [argument, frame] at received
  exact shiftedFrame_ne pushes received

/--
The handler receives the interrupted context and its return resumes it, for
every context and error code, exactly for the vectors other than 21 and 29.
-/
theorem frameMatches_iff
    (context : Context)
    (stack : UInt64)
    (gate : Gate)
    (vector : Nat)
    (code : UInt64)
    (inside : vector < 48) :
    FrameMatches context stack gate vector code ↔
      vector ≠ 21 ∧ vector ≠ 29 := by
  constructor
  · intro frameMatches
    by_contra wrong
    exact not_frameMatches_of_shifted context stack gate code (by omega)
      frameMatches
  · rintro ⟨not21, not29⟩
    obtain ⟨holding, argument⟩ :=
      holding_atHandler context stack gate code inside
    have words :
        placeholder vector ++
            ((pushedCode vector code).toList ++ returnWords context) =
          (pushedCode vector code).getD 0 :: returnWords context := by
      by_cases pushes : hasErrorCode vector
      · simp [placeholder, pushedCode, pushes, not21, not29]
      · simp [placeholder, pushedCode, pushes]
    rw [words, ← words_expectedFrame] at holding
    have frame := RegsT.holds_iff_read.mp holding
    refine ⟨by rw [argument]; exact frame, ?_⟩
    intro returned sameStack sameFrame
    rw [frame] at sameFrame
    exact resumed_of_frame sameFrame

/-- A context in which everything but the flags is 0. -/
def quietContext : Context where
  registers := fun _ => 0
  rip := 0
  cs := 8
  rflags := flagReserved
  rsp := 0x9000
  ss := 16
  memory := fun _ => 0
  reserved := by decide

/-- A page fault in it is delivered and resumed. -/
theorem frameMatches_pageFault :
    FrameMatches quietContext 0x9000 { rip := 0x2000, cs := 8 } 14 2 :=
  (frameMatches_iff quietContext 0x9000 { rip := 0x2000, cs := 8 } 14 2
    (by decide)).mpr (by decide)

/-- After a control-protection fault the frame does not match. -/
theorem not_frameMatches_controlProtection :
    ¬FrameMatches quietContext 0x9000 { rip := 0x2000, cs := 8 } 21 3 :=
  not_frameMatches_of_shifted quietContext 0x9000 { rip := 0x2000, cs := 8 } 3
    (by decide)

end Relics.Interrupt
