import Timeslice.Machine.Syscall
import Timeslice.Text.Decimal

/-! # Scripted handlers

A script answers a call by the actions of its first rule for the call's code. An action sees what
the actions before it have changed.
-/

namespace Timeslice

/-- One thing that a handler can do in answer to a call. -/
inductive Action where
  | exit
  | block (ticks : Nat)
  | emit (text : String)
  | emitAccumulator
  | emitProgramCounter
  | emitWaiting
  /-- Emits the value of a name, or `none` where it has none. -/
  | emitValue (name : String)
  | setAccumulator (value : Int32)
  | setWaiting (waiting : Bool)
  deriving DecidableEq

namespace Action

/-- The reply after one more action. -/
def perform (call : Call) (reply : Reply) : Action → Reply
  | exit => leave .exit
  | block ticks => leave (.block ticks)
  | emit text => leave (.output text)
  | emitAccumulator => leave (.output (Text.decimal reply.accumulator.toInt))
  | emitProgramCounter => leave (.output (Text.decimal call.programCounter))
  | emitWaiting => leave (.output (if reply.waitingForInput then "true" else "false"))
  | emitValue name =>
    leave (.output (match call.data.get? name with
      | some value => Text.decimal value.toInt
      | none => "none"))
  | setAccumulator value => { reply with accumulator := value }
  | setWaiting waiting => { reply with waitingForInput := waiting }
where
  leave (effect : Effect) : Reply := { reply with effects := reply.effects ++ [effect] }

end Action

structure Script where
  rules : List (Int32 × List Action)
  deriving DecidableEq

namespace Script

def answer (script : Script) (call : Call) : Reply × Script :=
  let actions := (script.rules.lookup call.code).getD []
  (actions.foldl (Action.perform call) call.ignored, script)

instance : SyscallHandler Script := ⟨answer⟩

end Script

/-- A handler of one of two kinds. -/
instance {A B : Type} [SyscallHandler A] [SyscallHandler B] : SyscallHandler (A ⊕ B) where
  serve
    | .inl a, call => let (reply, a) := serve a call; (reply, .inl a)
    | .inr b, call => let (reply, b) := serve b call; (reply, .inr b)

end Timeslice
