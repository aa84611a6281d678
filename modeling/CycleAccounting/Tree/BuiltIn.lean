import CycleAccounting.Tree.Groups

/-!
# Built-in trees

The trees for the interval core model.  They come at two levels of detail for the memory hierarchy
and two for synchronization, and each of them in full or gathered into the standard groups.
-/

namespace CycleAccounting

/-- The detail in which time in the memory hierarchy is shown. -/
inductive MemoryDetail where
  /-- One entry for each cache level, traffic from neighbours included. -/
  | cacheLevel
  /-- Entries of their own for what a neighbouring cache served. -/
  | withNeighbors
  deriving DecidableEq, Repr

/-- The detail in which synchronization is shown. -/
inductive SyncDetail where
  /-- One entry for each kind of synchronization. -/
  | detailed
  /-- A single entry. -/
  | flat
  deriving DecidableEq, Repr

namespace MemoryDetail

def word : MemoryDetail → String
  | cacheLevel => "cache-level"
  | withNeighbors => "with-neighbors"

def ofWord? (text : String) : Option MemoryDetail :=
  [cacheLevel, withNeighbors].find? (·.word = text)

end MemoryDetail

namespace SyncDetail

def word : SyncDetail → String
  | detailed => "detailed"
  | flat => "flat"

def ofWord? (text : String) : Option SyncDetail := [detailed, flat].find? (·.word = text)

end SyncDetail

/-- Which of the built-in trees is meant. -/
structure TreeVariant where
  simplified : Bool
  memory : MemoryDetail
  sync : SyncDetail
  deriving DecidableEq, Repr

namespace TreeVariant

variable {α : Type} [Amount α]

/-- A built-in leaf that reads one category.  All built-in nodes have the standard threshold. -/
def one (name key : String) : Node α := .leaf name Node.standardThreshold (.category key)

/-- A built-in leaf that reads several categories. -/
def several (name : String) (keys : List String) : Node α :=
  .leaf name Node.standardThreshold (.sum keys)

/-- A built-in branch. -/
def below (name : String) (children : List (Node α)) : Node α :=
  .branch name Node.standardThreshold children

/-- Where a core spends cycles on its own: computing, and fetching instructions. -/
def coreNodes : List (Node α) :=
  [one "base" "Base",
   one "dispatch_width" "Issue",
   below "depend" [one "int" "PathInt", one "fp" "PathFP", one "branch" "PathBranch"],
   below "issue"
    [one "port0" "PathP0", one "port1" "PathP1", one "port2" "PathP2", one "port34" "PathP34",
     one "port5" "PathP5", one "port05" "PathP05", one "port015" "PathP015"],
   below "contend"
    [one "fp_addsub" "FU_FpAddSub", one "fp_muldiv" "FU_FpMulDiv", one "load" "FU_Load",
     one "store" "FU_Store", one "branch" "FU_Branch", one "generic" "FU_Generic"],
   several "serial" ["Serialization", "LongLatency"],
   one "smt" "SMT",
   one "branch" "BranchPredictor",
   one "itlb" "ITLBMiss",
   one "dtlb" "DTLBMiss",
   several "ifetch"
    ["DataCacheL1I", "InstructionCacheL1I", "InstructionCacheL1", "InstructionCacheL1_S",
     "InstructionCacheL2", "InstructionCacheL2_S", "InstructionCacheL3", "InstructionCacheL3_S",
     "InstructionCacheL4", "InstructionCacheL4_S", "InstructionCachemiss", "InstructionCache????",
     "InstructionCachedram-cache", "InstructionCachedram", "InstructionCachedram-remote",
     "InstructionCachecache-remote", "InstructionCachedram-local",
     "InstructionCachepredicate-false", "InstructionCacheunknown"]]

/-- Where a core waits for data. -/
def memoryNode : MemoryDetail → Node α
  | .cacheLevel =>
    below "mem"
      [several "l1d" ["DataCacheL1", "DataCacheL1_S", "PathLoadX", "PathStore"],
       several "l2" ["DataCacheL2", "DataCacheL2_S"],
       several "l3" ["DataCacheL3", "DataCacheL3_S"],
       several "l4" ["DataCacheL4", "DataCacheL4_S"],
       one "remote" "DataCachecache-remote",
       one "dram-cache" "DataCachedram-cache",
       several "dram"
        ["DataCachedram", "DataCachedram-local", "DataCachedram-remote", "DataCachemiss",
         "DataCache????", "DataCachepredicate-false", "DataCacheunknown"]]
  | .withNeighbors =>
    below "mem"
      [one "l0d_neighbor" "DataCacheL1_S",
       several "l1d" ["DataCacheL1", "PathLoadX", "PathStore"],
       one "l1_neighbor" "DataCacheL2_S",
       one "l2" "DataCacheL2",
       one "l2_neighbor" "DataCacheL3_S",
       one "l3" "DataCacheL3",
       one "l3_neighbor" "DataCacheL4_S",
       one "l4" "DataCacheL4",
       one "off_socket" "DataCachecache-remote",
       several "dram"
        ["DataCachedram-cache", "DataCachedram", "DataCachedram-local", "DataCachedram-remote",
         "DataCachemiss", "DataCache????", "DataCachepredicate-false", "DataCacheunknown"]]

/-- The kinds of synchronization, with their categories. -/
def syncKinds : List (String × String) :=
  [("futex", "SyncFutex"), ("mutex", "SyncPthreadMutex"), ("cond", "SyncPthreadCond"),
   ("barrier", "SyncPthreadBarrier"), ("join", "SyncJoin"), ("pause", "SyncPause"),
   ("sleep", "SyncSleep"), ("unscheduled", "SyncUnscheduled"), ("memaccess", "SyncMemAccess"),
   ("recv", "Recv")]

/-- Where a core waits for other cores. -/
def syncNode : SyncDetail → Node α
  | .detailed => below "sync" (syncKinds.map fun (name, key) => one name key)
  | .flat => several "sync" (syncKinds.map (·.2))

/-- Changes of frequency, and the time before and after a core's work. -/
def restNodes : List (Node α) :=
  [one "dvfs-transition" "SyncDvfsTransition",
   below "imbalance" [one "start" "StartTime", one "end" "Imbalance"]]

/-- The full tree at a level of detail. -/
def fullTree (memory : MemoryDetail) (sync : SyncDetail) : Tree α :=
  ⟨coreNodes ++ [memoryNode memory, syncNode sync] ++ restNodes⟩

/-- The tree of a variant. -/
def tree (v : TreeVariant) : Tree α :=
  if v.simplified then (fullTree v.memory v.sync).simplify .standard
  else fullTree v.memory v.sync

end TreeVariant

end CycleAccounting
