import Timeslice.CommandLine

/-! # The program

Files are read from the disk and the transcript is printed.
-/

namespace Timeslice

/-- Whether a code stands for the error of a number. Some calls give the number below zero. -/
def isErrorCode (number code : UInt32) : Bool := code == number || code == -number

/-- What kept a file on the disk from being read. -/
def diskReason (e : IO.Error) : ReadError :=
  match e with
  | .noFileOrDirectory .. => .notFound
  | .inappropriateType _ code _ => if isErrorCode 21 code then .isDirectory else .notDirectory
  | .invalidArgument _ code _ =>
    if isErrorCode 36 code then .nameTooLong else .other (toString e)
  | .permissionDenied .. => .other "Permission denied (os error 13)"
  | _ => .other (toString e)

/-- The text of a file on the disk. -/
def readDisk : Reader IO := fun path => do
  match ← (IO.FS.readBinFile path).toBaseIO with
  | .ok bytes =>
    match String.fromUTF8? bytes with
    | some text => return .ok text
    | none => return .error .notText
  | .error e => return .error (diskReason e)

end Timeslice

open Timeslice in
def main (arguments : List String) : IO UInt32 := do
  let transcript ← CommandLine.run readDisk "timeslice" arguments
  for print in transcript.prints do
    match print with
    | .out text => IO.print text
    | .err text => IO.eprint text
  return transcript.code.toUInt32
