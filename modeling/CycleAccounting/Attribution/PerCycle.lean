import CycleAccounting.Category
import CycleAccounting.Ledger
import CycleAccounting.Run

/-!
# Per-cycle counters

The ledger of a core begins with its per-cycle counters, each scaled to cycles and booked under the
category in its name.  Two corrections follow: a copy of the barrier time under the name of memory
access is cleared, and a start time that was not reported is made up from the idle time.
-/

namespace CycleAccounting

namespace Counter

variable {α : Type} [Amount α]

/-- Books a per-cycle counter for one core; other counters leave the ledger alone. -/
def bookPerCycle (c : Counter α) (core : Nat) (scale : α) (l : Ledger α) : Ledger α :=
  match c.role with
  | .perCycle category => l.book category (c.value core * scale)
  | _ => l

end Counter

namespace Ledger

variable {α : Type} [Amount α]

/-- The ledger of the per-cycle counters. -/
def ofPerCycle (counters : List (Counter α)) (core : Nat) (scale : α) : Ledger α :=
  counters.foldl (fun l c => c.bookPerCycle core scale l) .empty

/-- Clears the time of memory accesses where it is the very time spent at barriers. -/
def clearCopiedMemAccess (l : Ledger α) : Ledger α :=
  match l.get? Category.memAccess, l.get? Category.barrier with
  | some memAccess, some barrier =>
    if Amount.identical memAccess barrier then l.insert Category.memAccess 0 else l
  | _, _ => l

/-- The start time of a core that was idle for a time: what synchronization does not explain. -/
def reconstructedStart (l : Ledger α) (scale idle : α) : α :=
  scale * idle - l.amount Category.futex - l.amount Category.mutex - l.amount Category.cond
    - l.amount Category.barrier - l.amount Category.recv

/-- Books a start time where none was reported and the run tells the idle time. -/
def bookStart (run : Run α) (core : Nat) (scale : α) (l : Ledger α) : Ledger α :=
  if l.contains Category.startTime || (run.counter? Stat.idleElapsedTime).isNone then l
  else
    l.insert Category.startTime
      (l.reconstructedStart scale (run.value Stat.idleElapsedTime core))

end Ledger

end CycleAccounting
