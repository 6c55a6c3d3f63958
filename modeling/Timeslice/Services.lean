import Timeslice.Machine.Cpu
import Timeslice.Rotation

/-! # The standard services

The meaning that scenarios give to syscall codes. Code 0 ends the process, code 1 prints the
accumulator and blocks for the next duration of a rotation, code 2 waits for input, and the code
of the input sentinel prints a greeting. Other codes are ignored.
-/

namespace Timeslice

structure Services where
  rotation : Rotation
  deriving DecidableEq

namespace Services

def exitCode : Int32 := 0

def printCode : Int32 := 1

def readCode : Int32 := 2

def greeting : String := "Ola"

def answer (services : Services) (call : Call) : Reply × Services :=
  if call.code = Cpu.sentinelCode then
    ({ call.ignored with effects := [.output greeting] }, services)
  else if call.code = exitCode then ({ call.ignored with effects := [.exit] }, services)
  else if call.code = printCode then
    let (ticks, rotation) := services.rotation.next
    ({ call.ignored with
        effects := [.output (Text.decimal call.accumulator.toInt), .block ticks] }, ⟨rotation⟩)
  else if call.code = readCode then ({ call.ignored with waitingForInput := true }, services)
  else (call.ignored, services)

instance : SyscallHandler Services := ⟨answer⟩

end Services

end Timeslice
