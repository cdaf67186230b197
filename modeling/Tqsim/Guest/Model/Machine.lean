import Tqsim.Guest.Model.Stores

/-!
# The guest's instructions

`inst_increment` with `CONFIG_HSIM`, over the core and the stub together. A
fetch that misses the instruction cache is forwarded to the stub, as an
access that reads a whole block into a word that nothing looks at, and the
end of the call is a notice. The core's part of it is that of `Core`, which
reads the clock where the stub is called.
-/

namespace Tqsim

namespace Guest

open TraceAnalyzer (Double)
open Hsim (Packet Reply)
open Cachesim (filterFetch)

/-- A call of `inst_increment`, and what the stub finds around it. -/
structure Step extends InstIncrement where
  /-- `my_packet` of the access, before it is assigned. -/
  packet : Packet
  /-- That of the notice. -/
  notice : Packet
  replies : List Reply

/-- The access after a miss, `hsim_access(..., pc, 0, &dummy, 8*64, InstAccess)`. -/
def Step.fetch (i : Step) : Load := ⟨i.pc, i.pc, i.packet, i.stack, i.replies⟩

namespace Machine

variable {F : Type}

/-- From `cur_PC = pc` to `previous_pc = fetchbufferalignpc(pc)`. -/
def fetchLine (D : Double F) (cfg : CoreConfig) (M : Machine F) (i : Step) : Option (Machine F) :=
  let c := { M.core with curPC := i.pc }
  (filterFetch c.cachesim cfg.hsim cfg.robSize i.stack c.previousPc
    (UInt64.ofInt (c.getSimpleCycle D)) i.pc).bind fun (missType, cachesim, previousPc) =>
      let read := if c.previousPc ≠ previousPc then c.readTime D else c
      let M := { M with core := { read with cachesim := cachesim, previousPc := previousPc } }
      if cfg.hsim ∧ missType ≠ .l1Hit then
        (M.hsimAccess D i.fetch (8 * 64) .instAccess).map Prod.fst
      else some M

/-- From `if (!num_insts)` on: the sampling, the count, and the notice. -/
def countInst (D : Double F) (cfg : CoreConfig) (M : Machine F) (i : Step) : Machine F :=
  let core := ((M.core.firstInst.finishSample cfg).startPeriod D cfg i.toInstIncrement).countInst
    D cfg
  { core := core
    stub := if cfg.hsim then M.stub.hsimNotice (UInt64.ofInt (core.getSimpleCycle D)) i.notice
      else M.stub }

/-- `inst_increment`. -/
def instIncrement (D : Double F) (cfg : CoreConfig) (M : Machine F) (i : Step) :
    Option (Machine F) :=
  (fetchLine D cfg { M with core := M.core.resolveBranch i.toInstIncrement } i).map fun M =>
    M.countInst D cfg i

/-- `set_branch_inst`. -/
def setBranchInst (M : Machine F) (isCond : Int32) : Machine F :=
  { M with core := { M.core with isBranch := true, isCond := isCond } }

end Machine

end Guest

end Tqsim
