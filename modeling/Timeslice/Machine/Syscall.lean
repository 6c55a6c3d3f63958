import Timeslice.Store

/-! # System calls

A processor gives no meaning to syscall codes. It hands each call to a handler, which sees part of
the processor, may change two registers, and may leave effects for the owner of the process.
-/

namespace Timeslice

/-- What a handler asks of the owner of the process. -/
inductive Effect where
  | exit
  | block (ticks : Nat)
  | output (text : String)
  deriving DecidableEq

/-- What a handler sees of the processor. -/
structure Call where
  code : Int32
  accumulator : Int32
  /-- The address of the instruction that calls, or of the next one where input does. -/
  programCounter : Nat
  data : Store
  waitingForInput : Bool

/-- What a handler leaves behind. The effects come after those already there. -/
structure Reply where
  accumulator : Int32
  waitingForInput : Bool
  effects : List Effect
  deriving DecidableEq

/-- The reply that changes nothing. -/
def Call.ignored (call : Call) : Reply := ⟨call.accumulator, call.waitingForInput, []⟩

class SyscallHandler (H : Type) where
  /-- Answers a call. A handler may go on as another one. -/
  serve : H → Call → Reply × H

export SyscallHandler (serve)

end Timeslice
