import CycleAccounting.Category
import CycleAccounting.Ledger
import CycleAccounting.TimeBasis

/-!
# Views

Cycles are shown in one of three views: for each instruction, as a fraction of core 0's budget, or
in seconds.  All views are computed from the same cycles.  Which cores count in the summary is
decided here too, by how much of one budget the idle cycles of each core leave.
-/

namespace CycleAccounting

/-- What the numbers of a report mean. -/
inductive View where
  /-- Cycles per instruction. -/
  | cpi
  /-- Fraction of the elapsed time. -/
  | time
  /-- Seconds. -/
  | absTime
  deriving DecidableEq, Repr

namespace View

def word : View → String
  | cpi => "cpi"
  | time => "time"
  | absTime => "abstime"

def ofWord? (text : String) : Option View := [cpi, time, absTime].find? (·.word = text)

end View

/-- What cycles are measured with. -/
structure Gauge (α : Type) where
  basis : TimeBasis α
  /-- The instruction count of each core. -/
  instructions : List α

namespace Gauge

variable {α : Type} [Amount α]

/-- The units of time in a second: femtoseconds. -/
def unitsPerSecond : α := Amount.ofNat 1000000000000000

/-- Cycles per instruction of a core. -/
def rate (g : Gauge α) (cycles : α) (core : Nat) : α :=
  Amount.ratio cycles (Amount.getAt g.instructions core)

/-- Fraction of core 0's budget. -/
def fraction (g : Gauge α) (cycles : α) : α := Amount.ratio cycles g.basis.referenceCycles

/-- Seconds, with the time that was fast-forwarded. -/
def seconds (g : Gauge α) (cycles : α) : α :=
  g.basis.fastforwardScale * Amount.ratio cycles (Amount.getAt g.basis.scale 0) / unitsPerSecond

/-- The number shown for cycles of a core. -/
def project (g : Gauge α) (view : View) (cycles : α) (core : Nat) : α :=
  match view with
  | .cpi => g.rate cycles core
  | .time => g.fraction cycles
  | .absTime => g.seconds cycles

end Gauge

namespace Books

variable {α : Type} [Amount α]

/-- The part of a budget, which need not be that of the core, that is left by the cycles of a core
that do not count as computing. -/
def computeFraction (books : Books α) (core : Nat) (budget : α) : α :=
  Amount.ofNat 1
    - Amount.ratio (Amount.sum (Category.nonCompute.map (books.amount core))) budget

/-- The cores with at least the given compute fraction of a budget.  Without a fraction, or with one
that is not positive, every core counts. -/
def summaryCores (books : Books α) (cores : List Nat) (budget : α) (least : Option α) :
    List Nat :=
  match least with
  | some least =>
    if Amount.less 0 least then
      cores.filter fun core => Amount.atMost least (books.computeFraction core budget)
    else cores
  | none => cores

end Books

end CycleAccounting
