import Tqsim.Common.CBuffer
import Tqsim.Common.CText
import Tqsim.Hsim.Model.Memmap

/-!
# The environment file

`comm_read_env` of `hsim_stub.c`: settings are read line by line into a
buffer that keeps its bytes from one turn to the next, and before the first
line holds whatever the stack held. A line is cut in place, at each `=`, and
the value of a region once more, at each `:`. The regions are kept in the
order in which `memmap_add_region` is called with them. Setting the core's
affinity, which comes after the loop, is left out.
-/

open CBuffer Function

namespace Tqsim

namespace Hsim

/-- `(MemoryType) code`. -/
def MemoryType.ofCode (code : UInt32) : MemoryType :=
  if code = 0 then .memVirtual
  else if code = 1 then .memInternal
  else if code = 2 then .memLocal
  else if code = 3 then .memScratchpad
  else if code = 4 then .memSharedC
  else if code = 5 then .memSharedNc
  else if code = 6 then .memUnknown
  else if code = 7 then .memUndefined
  else .other code

/-- The number of a type. -/
def MemoryType.code : MemoryType → UInt32
  | .memVirtual => 0
  | .memInternal => 1
  | .memLocal => 2
  | .memScratchpad => 3
  | .memSharedC => 4
  | .memSharedNc => 5
  | .memUnknown => 6
  | .memUndefined => 7
  | .other code => code

/-- What the file sets: `comm_notice_period`, `core_id` and the regions. -/
structure Env where
  commNoticePeriod : Int32
  coreId : Int32
  regions : List MemRegion
  deriving DecidableEq, Repr

/-- The size of `buf`. -/
def lineSize : ℕ := 128

/-- The loop that cuts a line at each `=`, and the last `value` it set.
`n` turns are left. -/
def cutSetting : ℕ → ℕ → Buffer → Option ℕ → Buffer × Option ℕ
  | 0, _, buf, value => (buf, value)
  | n + 1, i, buf, value =>
    if buf i = '=' then cutSetting n (i + 1) (update buf i '\x00') (some (i + 1))
    else if buf i = '\x00' ∨ buf i = '\n' then (update buf i '\x00', value)
    else cutSetting n (i + 1) buf value

/-- The loop that cuts the value of a region at each `:`, where `p` is
`&value[i]`. `lpszData` is every pointer stored so far, its length `index`. -/
def cutFields : ℕ → ℕ → Buffer → List ℕ → Buffer × List ℕ
  | 0, _, buf, lpszData => (buf, lpszData)
  | n + 1, p, buf, lpszData =>
    if buf p = ':' then cutFields n (p + 1) (update buf p '\x00') (lpszData ++ [p + 1])
    else if buf p = '\x00' then (buf, lpszData)
    else cutFields n (p + 1) buf lpszData

/-- The fields of a region: the first starts with the value. -/
def regionFields (buf : Buffer) (value : ℕ) : Buffer × List ℕ :=
  cutFields lineSize value buf [value]

/-- `arData[i]`: an `int` kept as an `unsigned int`. -/
def arData (buf : Buffer) (p : ℕ) : UInt32 := (CText.atoi (stringAt lineSize buf p)).toUInt32

/-- A region from its fields. `lpszData` has room for three pointers, and
three are converted: a fourth is stored past its end, and one that was not
stored is read all the same. Neither has a meaning. -/
def Env.addRegion (env : Env) (buf : Buffer) : List ℕ → Option Env
  | [base, size, type] =>
    some { env with
      regions := env.regions ++
        [⟨arData buf base, arData buf size, .ofCode (arData buf type)⟩] }
  | _ => none

/-- One turn of the loop, once it has a line in the buffer. -/
def Env.readLine (env : Env) (buf : Buffer) : Option (Buffer × Env) :=
  match cutSetting lineSize 0 buf none with
  | (buf, none) => some (buf, env)
  | (buf, some value) =>
    let key := stringAt lineSize buf 0
    if key = "NoticePeriod".toList then
      some (buf, { env with commNoticePeriod := CText.atoi (stringAt lineSize buf value) })
    else if key = "Memorymap".toList then
      let (buf, lpszData) := regionFields buf value
      (env.addRegion buf lpszData).map (buf, ·)
    else if key = "ProcessorId".toList then
      some (buf, { env with coreId := CText.atoi (stringAt lineSize buf value) })
    else some (buf, env)

/-- The buffer once `fgets` has read a line into it. -/
def fgetsBuffer (buf : Buffer) (line : List Char) : Buffer := write buf 0 (line ++ ['\x00'])

/-- `while (1)`: `none` as long as the loop is running, `some none` when a
line has no meaning. At the end of the file `fgets` leaves the buffer as it
is. -/
def readEnvLoop : ℕ → Buffer → List Char → Env → Option (Option Env)
  | 0, _, _, _ => none
  | n + 1, buf, file, env =>
    match CText.fgets lineSize file with
    | none => if buf 0 = '#' then readEnvLoop n buf file env else some (some env)
    | some (line, file) =>
      let buf := fgetsBuffer buf line
      if buf 0 = '#' then readEnvLoop n buf file env
      else
        match env.readLine buf with
        | none => some none
        | some (buf, env) => readEnvLoop n buf file env

/-- `comm_read_env` in `n` turns, of a file that may not be there, with what
the stack holds where the buffer is. -/
def commReadEnv (n : ℕ) (stack : Buffer) : Option (List Char) → Env → Option (Option Env)
  | none, env => some (some env)
  | some file, env => readEnvLoop n stack file env

end Hsim

end Tqsim
