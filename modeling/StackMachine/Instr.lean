/-!
# `StackMachine.Instr`: the instruction set

Every instruction has a number, the opcode, and takes zero or one operand word after it.

| opcode | mnemonic | operands | effect |
|---|---|---|---|
| 0 | `HALT` | 0 | stop |
| 1 | `NOP` | 0 | nothing |
| 2 | `PRINT` | 0 | pop a value and write it as a character |
| 3 | `PUSH` | 1 | push the operand |
| 4 | `POP` | 0 | pop a value |
| 5 | `ADD` | 0 | pop two values and push their sum |
| 6 | `JMP` | 0 | pop an address and go there |
| 7 | `JZ` | 1 | pop a value and go to the operand if it is zero |
| 8 | `JNZ` | 1 | pop a value and go to the operand if it is not zero |
| 9 | `CALL` | 1 | push the return address and go to the operand |
| 10 | `RET` | 0 | pop a return address and go there |

- `Instr.ofOpcode?` and `Instr.opcode` are inverse to each other (`ofOpcode?_eq_some_iff`).
- `mnemonicOf` names any integer as an opcode.
-/

set_option autoImplicit false

namespace StackMachine

/-- The instructions. -/
inductive Instr where
  | halt | nop | print | push | pop | add | jmp | jz | jnz | call | ret
  deriving DecidableEq, Repr

namespace Instr

/-- The number of an instruction. -/
def opcode : Instr → Int
  | halt => 0
  | nop => 1
  | print => 2
  | push => 3
  | pop => 4
  | add => 5
  | jmp => 6
  | jz => 7
  | jnz => 8
  | call => 9
  | ret => 10

/-- The instruction with a number. -/
def ofOpcode? (n : Int) : Option Instr :=
  match n with
  | 0 => some halt
  | 1 => some nop
  | 2 => some print
  | 3 => some push
  | 4 => some pop
  | 5 => some add
  | 6 => some jmp
  | 7 => some jz
  | 8 => some jnz
  | 9 => some call
  | 10 => some ret
  | _ => none

/-- The number of operand words. -/
def arity : Instr → Nat
  | push | jz | jnz | call => 1
  | halt | nop | print | pop | add | jmp | ret => 0

/-- The name of an instruction. -/
def mnemonic : Instr → String
  | halt => "HALT"
  | nop => "NOP"
  | print => "PRINT"
  | push => "PUSH"
  | pop => "POP"
  | add => "ADD"
  | jmp => "JMP"
  | jz => "JZ"
  | jnz => "JNZ"
  | call => "CALL"
  | ret => "RET"

/-- The name shown for what is no opcode. -/
def unknownMnemonic : String := "???"

/-- The name shown for a number. -/
def mnemonicOf (n : Int) : String :=
  match ofOpcode? n with
  | some i => i.mnemonic
  | none => unknownMnemonic

/-- The instruction with opcode `n` is `i` exactly if `n` is the opcode of `i`. So no two
instructions share an opcode, and none is out of reach. -/
theorem ofOpcode?_eq_some_iff {n : Int} {i : Instr} : ofOpcode? n = some i ↔ n = i.opcode := by
  constructor
  · intro h
    simp only [ofOpcode?] at h
    split at h <;> cases h <;> rfl
  · rintro rfl
    cases i <;> rfl

/-- An integer is no opcode exactly if it lies outside `0..10`. -/
theorem ofOpcode?_eq_none_iff {n : Int} : ofOpcode? n = none ↔ n < 0 ∨ 10 < n := by
  constructor
  · intro h
    by_cases hn : n < 0 ∨ 10 < n
    · exact hn
    · have hcases : n = 0 ∨ n = 1 ∨ n = 2 ∨ n = 3 ∨ n = 4 ∨ n = 5 ∨ n = 6 ∨ n = 7 ∨ n = 8 ∨
          n = 9 ∨ n = 10 := by omega
      rcases hcases with rfl | rfl | rfl | rfl | rfl | rfl | rfl | rfl | rfl | rfl | rfl <;>
        cases h
  · intro h
    simp only [ofOpcode?]
    split <;> first | rfl | omega

end Instr

end StackMachine
