import Tqsim.Common.Circular
import Tqsim.Common.Run
import Tqsim.Common.Linked
import Tqsim.Common.Lru
import Tqsim.Common.Groups
import Tqsim.Common.Words
import Tqsim.Common.Mean
import Tqsim.Common.Spsc
import Tqsim.Common.ShiftRegister
import Tqsim.Common.SetBits
import Tqsim.Common.CText
import Tqsim.Common.CBuffer
import Tqsim.Common.Interleave
import Tqsim.Bpredsim.Model.Bimod
import Tqsim.Bpredsim.Helpers.Frame
import Tqsim.Bpredsim.History
import Tqsim.Bpredsim.Training
import Tqsim.Bpredsim.Width
import Tqsim.Bpredsim.Learning
import Tqsim.Model.Config
import Tqsim.TraceAnalyzer.Model.Inst
import Tqsim.TraceAnalyzer.Model.DarmTables
import Tqsim.TraceAnalyzer.Model.Darm
import Tqsim.TraceAnalyzer.Model.Queue
import Tqsim.TraceAnalyzer.Model.Trace
import Tqsim.TraceAnalyzer.Model.Rob
import Tqsim.TraceAnalyzer.Model.Pipeline
import Tqsim.TraceAnalyzer.Helpers.Window
import Tqsim.TraceAnalyzer.Matrix
import Tqsim.TraceAnalyzer.Helpers.Scan
import Tqsim.TraceAnalyzer.Helpers.Matching
import Tqsim.TraceAnalyzer.Helpers.Expansion
import Tqsim.TraceAnalyzer.Helpers.Stages
import Tqsim.TraceAnalyzer.Helpers.Dispatch
import Tqsim.TraceAnalyzer.Helpers.Queues
import Tqsim.TraceAnalyzer.Helpers.Records
import Tqsim.TraceAnalyzer.Helpers.Invariant
import Tqsim.TraceAnalyzer.Analysis
import Tqsim.TraceAnalyzer.Structure
import Tqsim.TraceAnalyzer.Limits
import Tqsim.TraceAnalyzer.Duration
import Tqsim.TraceAnalyzer.Issue
import Tqsim.TraceAnalyzer.Timing
import Tqsim.TraceAnalyzer.Dependence
import Tqsim.TraceAnalyzer.Search
import Tqsim.TraceAnalyzer.Progress
import Tqsim.TraceAnalyzer.Rotation
import Tqsim.TraceAnalyzer.Helpers.Forms
import Tqsim.TraceAnalyzer.Operands
import Tqsim.TraceAnalyzer.Microops
import Tqsim.TraceAnalyzer.Bounds
import Tqsim.TraceAnalyzer.Bandwidth
import Tqsim.TraceAnalyzer.Helpers.Resolution
import Tqsim.TraceAnalyzer.Mispredictions
import Tqsim.TraceAnalyzer.Model.InstList
import Tqsim.TraceAnalyzer.Helpers.Ownership
import Tqsim.TraceAnalyzer.Helpers.Calls
import Tqsim.TraceAnalyzer.Deque
import Tqsim.TraceAnalyzer.Pool
import Tqsim.Model.Perfmodel
import Tqsim.Sampling.Model.Sampler
import Tqsim.Sampling.Executed
import Tqsim.Sampling.Helpers.Phases
import Tqsim.Sampling.Helpers.Contents
import Tqsim.Sampling.Helpers.Transitions
import Tqsim.Sampling.Helpers.Invariant
import Tqsim.Sampling.Handover
import Tqsim.Sampling.Wrapup
import Tqsim.Sampling.Helpers.Modes
import Tqsim.Sampling.Addresses
import Tqsim.Sampling.Updates
import Tqsim.Sampling.Parameters
import Tqsim.Sampling.Rates
import Tqsim.Sampling.Schedule
import Tqsim.Sampling.Liveness
import Tqsim.Hsim.Model.Memmap
import Tqsim.Hsim.Model.Packet
import Tqsim.Hsim.Model.Stub
import Tqsim.Hsim.Helpers.Regions
import Tqsim.Hsim.Lookup
import Tqsim.Hsim.Membership
import Tqsim.Hsim.Helpers.Effects
import Tqsim.Hsim.Time
import Tqsim.Hsim.Deltas
import Tqsim.Hsim.Model.PacketBuffer
import Tqsim.Hsim.Fifo
import Tqsim.Hsim.Registers
import Tqsim.Hsim.Model.Transport
import Tqsim.Hsim.Transport
import Tqsim.Hsim.Model.SpmBuffer
import Tqsim.Hsim.Bulk
import Tqsim.Hsim.Model.Env
import Tqsim.Hsim.Helpers.Settings
import Tqsim.Hsim.EnvFile
import Tqsim.Cachesim.Model.Cache
import Tqsim.Cachesim.Helpers.Sets
import Tqsim.Cachesim.Replacement
import Tqsim.Cachesim.Model.Hierarchy
import Tqsim.Cachesim.Helpers.Access
import Tqsim.Cachesim.Helpers.Levels
import Tqsim.Cachesim.Filter
import Tqsim.Cachesim.Inclusion
import Tqsim.Cachesim.Accounting
import Tqsim.Cachesim.Clusters
import Tqsim.Cachesim.Classes
import Tqsim.Cachesim.MoveToFront
import Tqsim.Guest.Model.Core
import Tqsim.Guest.Clock
import Tqsim.Guest.Estimate
import Tqsim.Guest.Model.Loads
import Tqsim.Guest.Loads
import Tqsim.Guest.Model.Stores
import Tqsim.Guest.Routing
import Tqsim.Guest.Model.Machine
import Tqsim.Guest.Transparency
import Tqsim.Guest.Memory
import Tqsim.TraceFile.Model.TraceFile
import Tqsim.TraceFile.RoundTrip
import Tqsim.Config.Model.Configfile
import Tqsim.Config.Model.Startup
import Tqsim.Config.Loading
import Tqsim.Config.Effect
import Tqsim.Simulator.Model.Machine
import Tqsim.Simulator.Model.Atomic
import Tqsim.Simulator.Schedule
import Tqsim.Simulator.Termination
import Tqsim.Simulator.Refinement
import Tqsim.Simulator.Bounds
import Tqsim.Simulator.Startup
