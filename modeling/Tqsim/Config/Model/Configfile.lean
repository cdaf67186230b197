import Tqsim.Common.CText

/-!
# The configuration file

`config.c`: the XML file of a simulation is read by a walk over its tree. An
element whose name is known is read attribute by attribute, wherever it
stands; all others are passed over. The library parses the file; a node of
the tree points to its first child and to the next node beside it.

An attribute that is missing is a null pointer, which `atoi` and `strncpy`
do not take: the walk fails. `atof` is a parameter.
-/

namespace Tqsim

namespace Config

open CText (atoi)

/-! ## `struct perfmodel_config` -/

structure SampleConfig (F : Type) where
  length : Int32
  defaultPeriod : Int32
  initialEffectiveDispatchWidth : F
  deriving DecidableEq, Repr

structure CoreConfig where
  frontendWidth : Int32
  backendWidth : Int32
  robSize : Int32
  iqSize : Int32
  deriving DecidableEq, Repr

structure NumfuConfig where
  intalu : Int32
  intmultdiv : Int32
  memRwport : Int32
  deriving DecidableEq, Repr

structure LatencyConfig where
  intalu : Int32
  branch : Int32
  intmult : Int32
  intdiv : Int32
  mem : Int32
  coproc : Int32
  deriving DecidableEq, Repr

structure EtcConfig where
  syscallPenalty : Int32
  deriving DecidableEq, Repr

structure CacheConfig where
  perfect : Int32
  numSet : Int32
  sizeBlk : Int32
  assoc : Int32
  /-- Eight characters. -/
  replacementPolicy : List Char
  latency : Int32
  deriving DecidableEq, Repr

structure MemoryConfig where
  latency : Int32
  deriving DecidableEq, Repr

structure BpredConfig where
  bimodTableSize : Int32
  mispredictPenalty : Int32
  deriving DecidableEq, Repr

/-- `struct perfmodel_config`. -/
structure Perfmodel (F : Type) where
  sample : SampleConfig F
  core : CoreConfig
  numfu : NumfuConfig
  latency : LatencyConfig
  etc : EtcConfig
  dl1 : CacheConfig
  il1 : CacheConfig
  ul2 : CacheConfig
  mem : MemoryConfig
  bpred : BpredConfig
  existDL1 : Bool
  existIL1 : Bool
  existUL2 : Bool
  deriving DecidableEq, Repr

/-! ## The document -/

/-- The attributes of an element. -/
abbrev Attributes := List (String × List Char)

/-- `xmlNode`, behind a pointer. -/
inductive XmlNode where
  | null
  | element (name : String) (attributes : Attributes) (children next : XmlNode)
  /-- Text, a comment or the like. -/
  | other (children next : XmlNode)
  deriving DecidableEq, Repr

/-- `xmlGetProp`. -/
def xmlGetProp (attributes : Attributes) (name : String) : Option (List Char) :=
  attributes.lookup name

/-- `strncpy(dst, src, n)`, which fills up with null characters. -/
def strncpy (src : List Char) (n : ℕ) : List Char := (src ++ List.replicate n '\x00').take n

/-! ## The elements -/

section Read

variable {F : Type} (atof : List Char → F) (attributes : Attributes)

/-- `atoi` of an attribute. -/
def atoiProp (name : String) : Option Int32 := (xmlGetProp attributes name).map atoi

/-- `sample`. -/
def readSample : Option (SampleConfig F) := do
  let length ← atoiProp attributes "length"
  let defaultPeriod ← atoiProp attributes "default_period"
  let str ← xmlGetProp attributes "initial_effective_dispatch_width"
  some ⟨length, defaultPeriod, atof str⟩

/-- `core`. -/
def readCore : Option CoreConfig := do
  let frontendWidth ← atoiProp attributes "frontend_width"
  let backendWidth ← atoiProp attributes "backend_width"
  let robSize ← atoiProp attributes "rob_size"
  let iqSize ← atoiProp attributes "iq_size"
  some ⟨frontendWidth, backendWidth, robSize, iqSize⟩

/-- `numfu`. -/
def readNumfu : Option NumfuConfig := do
  let intalu ← atoiProp attributes "intalu"
  let intmultdiv ← atoiProp attributes "intmultdiv"
  let memRwport ← atoiProp attributes "mem_rwport"
  some ⟨intalu, intmultdiv, memRwport⟩

/-- `latency`. -/
def readLatency : Option LatencyConfig := do
  let intalu ← atoiProp attributes "intalu"
  let branch ← atoiProp attributes "branch"
  let intmult ← atoiProp attributes "intmult"
  let intdiv ← atoiProp attributes "intdiv"
  let mem ← atoiProp attributes "mem"
  let coproc ← atoiProp attributes "coproc"
  some ⟨intalu, branch, intmult, intdiv, mem, coproc⟩

/-- `etc`. -/
def readEtc : Option EtcConfig := do
  let syscallPenalty ← atoiProp attributes "syscall_penalty"
  some ⟨syscallPenalty⟩

/-- `dl1_cache`, `il1_cache` and `ul2_cache`. -/
def readCache : Option CacheConfig := do
  let perfect ← atoiProp attributes "perfect"
  let numSet ← atoiProp attributes "num_set"
  let sizeBlk ← atoiProp attributes "size_blk"
  let assoc ← atoiProp attributes "assoc"
  let latency ← atoiProp attributes "latency"
  let str ← xmlGetProp attributes "replacement_policy"
  some ⟨perfect, numSet, sizeBlk, assoc, strncpy str 8, latency⟩

/-- `memory`. -/
def readMemory : Option MemoryConfig := do
  let latency ← atoiProp attributes "latency"
  some ⟨latency⟩

/-- `bpred`. -/
def readBpred : Option BpredConfig := do
  let bimodTableSize ← atoiProp attributes "bimod_table_size"
  let mispredictPenalty ← atoiProp attributes "mispredict_penalty"
  some ⟨bimodTableSize, mispredictPenalty⟩

/-- The tests of `print_element_names` on the name of an element. -/
def readElement (name : String) (p : Perfmodel F) : Option (Perfmodel F) :=
  match name with
  | "sample" => (readSample atof attributes).map ({ p with sample := · })
  | "core" => (readCore attributes).map ({ p with core := · })
  | "numfu" => (readNumfu attributes).map ({ p with numfu := · })
  | "latency" => (readLatency attributes).map ({ p with latency := · })
  | "etc" => (readEtc attributes).map ({ p with etc := · })
  | "dl1_cache" => (readCache attributes).map ({ p with existDL1 := true, dl1 := · })
  | "il1_cache" => (readCache attributes).map ({ p with existIL1 := true, il1 := · })
  | "ul2_cache" => (readCache attributes).map ({ p with existUL2 := true, ul2 := · })
  | "memory" => (readMemory attributes).map ({ p with mem := · })
  | "bpred" => (readBpred attributes).map ({ p with bpred := · })
  | _ => some p

end Read

variable {F : Type}

/-- `print_element_names`: a node, its children, and the nodes behind it. -/
def printElementNames (atof : List Char → F) : XmlNode → Perfmodel F → Option (Perfmodel F)
  | .null, p => some p
  | .element name attributes children next, p =>
    (readElement atof attributes name p).bind fun p =>
      (printElementNames atof children p).bind (printElementNames atof next)
  | .other children next, p =>
    (printElementNames atof children p).bind (printElementNames atof next)

/-- `init`. -/
def init (p : Perfmodel F) : Perfmodel F :=
  { p with existDL1 := false, existIL1 := false, existUL2 := false }

/-- `load_configfile`, with the tree that `xmlReadFile` makes of the file, if it
does: what is returned, and the configuration. -/
def loadConfigfile (atof : List Char → F) (doc : Option XmlNode) (p : Perfmodel F) :
    Option (ℤ × Perfmodel F) :=
  let p := init p
  match doc with
  | none => some (-1, p)
  | some root => (printElementNames atof root p).map (0, ·)

end Config

end Tqsim
