import CycleAccounting.Amount
import CycleAccounting.Catalog

/-!
# Ledgers

The cycles of one core, category by category, are a `Ledger`; the ledgers of all cores are `Books`.
Cycles are moved between categories by booking them in one and deducting them from another, and a
category that is not in a ledger counts as zero.
-/

namespace CycleAccounting

/-- The cycles of one core by category. -/
abbrev Ledger (α : Type) := Catalog α

namespace Ledger

variable {α : Type} [Amount α]

/-- The cycles of a category. -/
def amount (l : Ledger α) (category : String) : α := l.getD category 0

/-- Adds cycles to a category. -/
def book (l : Ledger α) (category : String) (cycles : α) : Ledger α :=
  l.insert category (cycles + l.amount category)

/-- Takes cycles out of a category. -/
def deduct (l : Ledger α) (category : String) (cycles : α) : Ledger α :=
  l.insert category (l.amount category - cycles)

/-- The sum over all categories, in name order. -/
def total (l : Ledger α) : α := Amount.sum l.values

end Ledger

/-- The ledgers of all cores. -/
structure Books (α : Type) where
  cores : List (Ledger α)

namespace Books

variable {α : Type}

/-- The number of cores. -/
def ncores (books : Books α) : Nat := books.cores.length

/-- The categories of any core, in name order. -/
def categories (books : Books α) : List String := Catalog.unionNames books.cores

variable [Amount α]

/-- The cycles of a category on a core; zero for a core that is not there. -/
def amount (books : Books α) (core : Nat) (category : String) : α :=
  match books.cores[core]? with
  | some l => l.amount category
  | none => 0

/-- The sum over all categories of a core; zero for a core that is not there. -/
def total (books : Books α) (core : Nat) : α :=
  match books.cores[core]? with
  | some l => l.total
  | none => 0

/-- The ledger of the mean over some cores, each counted as often as it is listed.  Over no cores
it has no categories. -/
def meanLedger (books : Books α) (cores : List Nat) : Ledger α :=
  let entries := (cores.filterMap (books.cores[·]?)).flatMap Catalog.toList
  let sums := entries.foldl (fun (l : Ledger α) (category, cycles) => l.book category cycles) .empty
  if cores.isEmpty then sums else sums.mapValues (· / Amount.ofNat cores.length)

/-- The books of one synthetic core, the mean over some cores. -/
def meanOver (books : Books α) (cores : List Nat) : Books α := ⟨[books.meanLedger cores]⟩

end Books

end CycleAccounting
