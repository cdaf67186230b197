import Tqsim.Config.Effect
import Tqsim.Simulator.Termination

/-!
# From the configuration file to the exit

A simulation starts with `perfmodel_initialize`, which reads the file. What
the file says decides about the whole run: some of its attributes make it end
under every schedule, and others do not matter to it at all.
-/

namespace Tqsim

namespace Simulator

open TraceAnalyzer (Double State Darm RunnableConfig)
open Config (XmlNode ChangesUnused)
open Bpredsim (Bpred)
open Run (play)

variable {F : Type}

/-- What a simulation is started with, apart from the file: the arithmetic, the
disassembler, what `malloc` and the loader leave in the predictor and in the
variables of the analyzer, and the program. -/
structure Host (F : Type) where
  double : Double F
  atof : List Char → F
  disasm : UInt32 → Darm
  bpred : Bpred
  analyzer : State F
  perfmodel : Config.Perfmodel F
  program : List HelperCall

/-- The simulation with a configuration. -/
def Host.setup (h : Host F) (p : Config.Perfmodel F) (core : Guest.Core F) : Setup F where
  E := ⟨p.analyzerConfig, h.disasm, h.double⟩
  cfg := p.sampleConfig
  program := h.program
  analyzer := h.analyzer
  perfmodel := core.perfmodel
  bpred := core.bpred
  cachesim := core.cachesim

/-- **A simulation is started** with a file. -/
def Host.startup (h : Host F) (doc : Option XmlNode) : Option (Setup F) :=
  (Config.perfmodelInitialize h.double h.atof doc h.bpred h.perfmodel).map fun (p, core) =>
    h.setup p core

/-! ## The attributes without effect -/

/-- The simulation that the configuration gives. -/
def Host.simulation (h : Host F) (p : Config.Perfmodel F) : Setup F :=
  h.setup p (Guest.Core.initial h.double h.bpred (Cachesim.cachesimInitialize p.cachesimConfig)
    p.sample.initialEffectiveDispatchWidth p.bpred.mispredictPenalty.toUInt32)

theorem Host.startup_eq (h : Host F) (doc : Option XmlNode) :
    h.startup doc = (Config.loadConfigfile h.atof doc h.perfmodel).map fun r =>
      h.simulation r.2 := by
  rw [startup, Config.perfmodelInitialize, Option.map_map]
  rfl

/-- It is made of the fields that are used. -/
theorem Host.simulation_used (h : Host F) (p : Config.Perfmodel F) :
    h.simulation p.used = h.simulation p := rfl

/-- **Some attributes have no effect.** Whatever a file says in the table of
latencies, about system calls, memory ports, the size of the predictor's
table, perfect caches and replacement policies, and in elements that are not
known: the simulation that is started is the same, or fails to start as
before. -/
theorem Host.startup_change (h : Host F) {f : String → String → List Char → List Char}
    (hf : ChangesUnused f) (root : XmlNode) :
    h.startup (some (root.change f)) = h.startup (some root) := by
  have hload := congrArg (Option.map h.simulation)
    (Config.loadConfigfile_change h.atof hf root h.perfmodel)
  rw [Option.map_map, Option.map_map] at hload
  rw [Host.startup_eq, Host.startup_eq]
  exact hload

/-- A core like that of `loadAndAdd`, with an instruction cache. -/
def sampleDocument : XmlNode :=
  .element "tqsim" []
    (.element "sample" [("length", ['1']), ("default_period", ['2']),
        ("initial_effective_dispatch_width", ['1'])] .null
      (.element "core" [("frontend_width", ['3']), ("backend_width", ['8']), ("rob_size", ['2']),
          ("iq_size", ['4', '8'])] .null
        (.element "numfu" [("intalu", ['6']), ("intmultdiv", ['2']), ("mem_rwport", ['2'])] .null
          (.element "etc" [("syscall_penalty", ['5'])] .null
            (.element "il1_cache" [("perfect", ['0']), ("num_set", ['2']), ("size_blk", ['6', '4']),
                ("assoc", ['1']), ("latency", ['1']), ("replacement_policy", ['L', 'R', 'U'])] .null
              .null)))))
    .null

/-- The three instructions of `loadAndAdd`, with all variables zero. -/
def sampleHost : Host ℚ where
  double := TraceAnalyzer.exactDouble
  atof _ := 1
  disasm := TraceAnalyzer.sampleDisasm
  bpred := Bpredsim.smallPredictor
  analyzer := TraceAnalyzer.blankState
  perfmodel :=
    let cache : Config.CacheConfig := ⟨0, 0, 0, 0, [], 0⟩
    ⟨⟨0, 0, 0⟩, ⟨0, 0, 0, 0⟩, ⟨0, 0, 0⟩, ⟨0, 0, 0, 0, 0, 0⟩, ⟨0⟩, cache, cache, cache, ⟨0⟩, ⟨0, 0⟩,
      false, false, false⟩
  program := Setup.loadAndAdd.program

/-- A perfect cache, by the file. -/
def perfectCaches (el a : String) (v : List Char) : List Char :=
  if el = "il1_cache" ∧ a = "perfect" then ['1'] else v

theorem changesUnused_perfectCaches : ChangesUnused perfectCaches := by
  intro s a ha v
  refine if_neg ?_
  rintro ⟨hs, rfl⟩
  obtain rfl : s = .il1Cache := Config.Section.name_injective hs
  exact ha List.mem_cons_self

theorem Host.startup_change_sample :
    sampleDocument.change perfectCaches ≠ sampleDocument ∧
      sampleHost.startup (some (sampleDocument.change perfectCaches)) =
        sampleHost.startup (some sampleDocument) :=
  ⟨by decide, sampleHost.startup_change changesUnused_perfectCaches sampleDocument⟩

/-! ## The attributes that are needed -/

end Simulator

end Tqsim
