import Timeslice.Process.Attributes
import Timeslice.Text.Padded

/-! # Logs

A log keeps the entries whose level is at least its minimum and drops the others as they arrive.
-/

namespace Timeslice.Log

inductive Level where
  | debug
  | info
  | warn
  | error
  deriving DecidableEq

namespace Level

def rank : Level → Nat
  | debug => 0
  | info => 1
  | warn => 2
  | error => 3

def name : Level → String
  | debug => "debug"
  | info => "info"
  | warn => "warn"
  | error => "error"

def label : Level → String
  | debug => "DEBUG"
  | info => "INFO"
  | warn => "WARN"
  | error => "ERROR"

/-- The levels by name. -/
def named : List (String × Level) :=
  [("debug", debug), ("info", info), ("warn", warn), ("error", error)]

def codec : Codec Level := .choice name named

end Level

structure Entry where
  level : Level
  source : Option Pid
  tick : Nat
  message : String
  fields : List (String × String)
  deriving DecidableEq

namespace Entry

/-- An entry of process `source`. -/
def of (level : Level) (source : Pid) (tick : Nat) (message : String)
    (fields : List (String × String)) : Entry :=
  ⟨level, some source, tick, message, fields⟩

def line (entry : Entry) : String :=
  "[" ++ Text.padLeft 4 (Text.decimal entry.tick) ++ "] " ++ Text.padRight 5 entry.level.label
    ++ (match entry.source with
        | some id => " " ++ id.label
        | none => "")
    ++ " " ++ entry.message
    ++ String.join (entry.fields.map fun (key, value) => " " ++ key ++ "=" ++ value)

def codec : Codec Entry where
  encode entry := .record [
    ("level", Level.codec.encode entry.level),
    ("source", (Codec.option Pid.codec).encode entry.source),
    ("tick", Codec.word.encode entry.tick),
    ("message", Codec.text.encode entry.message),
    ("fields", (Codec.list (.pair .text .text)).encode entry.fields)]
  decode json := do
    let record ← Record.of? ["level", "source", "tick", "message", "fields"] json
    return {
      level := ← record.required "level" Level.codec
      source := ← record.defaulted "source" (.option Pid.codec) none
      tick := ← record.required "tick" .word
      message := ← record.required "message" .text
      fields := ← record.required "fields" (.list (.pair .text .text)) }

end Entry

end Log

/-- A minimum level and the entries kept, oldest first. -/
structure Log where
  minimum : Log.Level
  entries : List Log.Entry
  deriving DecidableEq

namespace Log

/-- The empty log that keeps entries from `minimum` on. -/
def keeping (minimum : Level) : Log := ⟨minimum, []⟩

def keeps (log : Log) (entry : Entry) : Bool := log.minimum.rank ≤ entry.level.rank

def add (log : Log) (entry : Entry) : Log :=
  if log.keeps entry then { log with entries := log.entries ++ [entry] } else log

def addAll (log : Log) (entries : List Entry) : Log := entries.foldl add log

/-- The same log without its entries. -/
def cleared (log : Log) : Log := { log with entries := [] }

@[simp] theorem minimum_add (log : Log) (entry : Entry) :
    (log.add entry).minimum = log.minimum := by
  unfold add
  split <;> rfl

theorem entries_add (log : Log) (entry : Entry) :
    (log.add entry).entries = log.entries ++ [entry].filter log.keeps := by
  unfold add
  by_cases h : log.keeps entry <;> simp [h]

theorem addAll_eq (log : Log) (entries : List Entry) :
    log.addAll entries = { log with entries := log.entries ++ entries.filter log.keeps } := by
  induction entries generalizing log with
  | nil => simp [addAll]
  | cons entry rest ih =>
    have keeps : (log.add entry).keeps = log.keeps := by
      funext e
      simp [Log.keeps]
    have step : log.addAll (entry :: rest) = (log.add entry).addAll rest := rfl
    rw [step, ih, keeps, entries_add, minimum_add]
    by_cases h : log.keeps entry <;> simp [h]

end Log

end Timeslice
