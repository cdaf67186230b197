import Tqsim.Common.CText
import Tqsim.Sampling.Model.Sampler

/-!
# The trace file

`buffer_manager.c` with a trace file: the three pushes log what they are
called with, a line each, and `fill_trace_buffer_from_file` reads the lines
back into a trace buffer, as far as it has room. A record that finds the
buffer full waits in `on_the_fly_inst` for the next call.

The writer and the reader are different programs, and logging to a file that
is open for reading has no effect. A function fails where the source follows
a null pointer, and on a miss type that is none.
-/

namespace Tqsim

namespace TraceFile

open TraceAnalyzer (Inst InstQueue initInst)
open Sampling (pushCode pushBpred pushMemaddr)
open CText

/-- A call of one of the three pushes. -/
inductive TraceEvent where
  | code (seq pc word : UInt32) (missType : CacheMissType)
  | memaddr (addr : UInt32) (missType : CacheMissType)
  | bpred (correct : Bool)
  deriving DecidableEq, Repr

/-! ## The writer -/

/-- A hexadecimal number, `%X`. -/
def hex (n : UInt32) : List Char := numeral 16 n.toNat

/-- What is written to the file, without the end of the line: `c %X %X %X %d`,
`a %X %d` or `b %d`. -/
def TraceEvent.line : TraceEvent → List Char
  | .code seq pc word missType =>
    'c' :: ' ' :: hex seq ++ ' ' :: hex pc ++ ' ' :: hex word ++ ' ' :: numeral 10 missType.toNat
  | .memaddr addr missType => 'a' :: ' ' :: hex addr ++ ' ' :: numeral 10 missType.toNat
  | .bpred correct => 'b' :: ' ' :: numeral 10 correct.toNat

/-- The file after the pushes. -/
def logFile (events : List TraceEvent) : List Char := events.flatMap fun e => e.line ++ ['\n']

/-- A push into the trace buffer. -/
def TraceEvent.push (q : InstQueue Inst) : TraceEvent → Option (InstQueue Inst)
  | .code seq pc word missType => some (pushCode q seq pc word missType)
  | .memaddr addr missType => pushMemaddr q addr missType
  | .bpred correct => pushBpred q correct

/-- The records that the pushes make, in a buffer without a bound. -/
def records (events : List TraceEvent) : Option (List Inst) :=
  (events.foldlM TraceEvent.push ⟨[], 0⟩).map InstQueue.elems

/-! ## The reader -/

/-- The number of an enumerator. -/
def missTypeOf (n : UInt64) : Option CacheMissType :=
  if n = 0 then some .l1Hit else if n = 1 then some .l1Miss else if n = 2 then some .l2Miss else none

/-- What is left of the file, `on_the_fly_inst`, and the trace buffer. -/
structure Reader where
  file : List Char
  onTheFlyInst : Option Inst
  traceBuffer : InstQueue Inst

namespace Reader

/-- `push_code`: whether the buffer had room. -/
def pushCode (r : Reader) (seq pc code : UInt32) (missType : CacheMissType) : Bool × Reader :=
  if r.traceBuffer.isFullQueue then
    (false, { r with onTheFlyInst := some { initInst seq pc code with instCacheMiss := missType } })
  else (true, { r with traceBuffer := Sampling.pushCode r.traceBuffer seq pc code missType })

/-- The branch of the loop for a line that starts with `c`. -/
def readCode (r : Reader) (s : List Char) : Option (Bool × Reader) :=
  (strtok ' ' s).bind fun (seq, s) =>
    (strtok ' ' s).bind fun (pc, s) =>
      (strtok ' ' s).bind fun (code, s) =>
        (strtok ' ' s).bind fun (missType, _) =>
          (missTypeOf (strtoul 10 missType)).map fun missType =>
            r.pushCode (strtoul 16 seq).toUInt32 (strtoul 16 pc).toUInt32 (strtoul 16 code).toUInt32
              missType

/-- For a line that starts with `b`. -/
def readBpred (r : Reader) (s : List Char) : Option (Bool × Reader) :=
  (strtok ' ' s).bind fun (correct, _) =>
    (pushBpred r.traceBuffer ((strtoul 10 correct).toUInt32 != 0)).map fun q =>
      (true, { r with traceBuffer := q })

/-- For a line that starts with `a`. -/
def readMemaddr (r : Reader) (s : List Char) : Option (Bool × Reader) :=
  (strtok ' ' s).bind fun (addr, s) =>
    (strtok ' ' s).bind fun (missType, _) =>
      (missTypeOf (strtoul 10 missType)).bind fun missType =>
        (pushMemaddr r.traceBuffer (strtoul 16 addr).toUInt32 missType).map fun q =>
          (true, { r with traceBuffer := q })

/-- A turn of the loop of `fill_trace_buffer_from_file`: whether it goes
on. -/
def readLine (r : Reader) (line : List Char) : Option (Bool × Reader) :=
  match strtok ' ' line with
  | none => some (true, r)
  | some (ptr, s) =>
    if ptr.head? = some 'c' then r.readCode s
    else if ptr.head? = some 'b' then r.readBpred s
    else if ptr.head? = some 'a' then r.readMemaddr s
    else some (true, r)

/-- The loop, for at most so many lines. -/
def fillLoop : ℕ → Reader → Option Reader
  | 0, _ => none
  | n + 1, r =>
    match fgets 256 r.file with
    | none => some r
    | some (line, rest) => ({ r with file := rest }.readLine line).bind fun (goesOn, r) =>
      if goesOn then fillLoop n r else some r

/-- The record that waits goes first. -/
def pushOnTheFly (r : Reader) : Reader :=
  match r.onTheFlyInst with
  | some inst =>
    { r with traceBuffer := (r.traceBuffer.pushBackInst inst).1, onTheFlyInst := none }
  | none => r

/-- `fill_trace_buffer_from_file`. Every turn of its loop reads a
character. -/
def fillTraceBufferFromFile (r : Reader) : Option Reader :=
  fillLoop (r.file.length + 1) r.pushOnTheFly

/-- The loop of `seq_main`, at most `n` turns, with an analysis that empties
the buffer: all records it was given. -/
def seqMain : ℕ → Reader → Option (List Inst)
  | 0, _ => none
  | n + 1, r => r.fillTraceBufferFromFile.bind fun r =>
    if r.traceBuffer.size = 0 then some []
    else (seqMain n { r with traceBuffer := { r.traceBuffer with elems := [] } }).map
      (r.traceBuffer.elems ++ ·)

end Reader

end TraceFile

end Tqsim
