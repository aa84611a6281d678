import CycleAccounting.Report.Basic
import CycleAccounting.Text.Pieces

/-!
# Reports as text

One block for each core, headed by its number unless the report shows a mean: a line for each entry
with its cycles per instruction, its percentage of the stack and its percentage of the elapsed
time, and after a blank line the total, which ends in seconds.
-/

namespace CycleAccounting.Report

variable {α : Type} [Amount α] [DecimalText α]

/-- The line above all blocks. -/
def header : String := "                     CPI      CPI %     Time %"

/-- An amount with two places, right-aligned in six columns. -/
def cell (x : α) : String := Text.padLeft 6 (DecimalText.fixed 2 x)

/-- One line: a label of at least fifteen columns and three amounts, the last with its unit. -/
def line (label : String) (rate percent last : α) (unit : String) : String :=
  s!"  {Text.padRight 15 label}    {cell rate}    {cell percent}%    {cell last}{unit}"

/-- A share as a percentage. -/
def percentage (share : α) : α := Amount.ofNat 100 * share

/-- The lines of one core. -/
def blockLines (g : Gauge α) (s : Series α) : List String :=
  s.stack.entries.map (fun (name, cycles) =>
      line name (g.rate cycles s.core) (percentage (s.stack.share cycles))
        (percentage (g.fraction cycles)) "%")
    ++ ["", line "total" (g.rate s.stack.total s.core)
        (percentage (s.stack.share s.stack.total)) (g.seconds s.stack.total) "s"]

/-- All lines of a report. -/
def lines (r : Report α) : List String :=
  header :: r.series.flatMap fun s =>
    (if r.aggregated then [] else [s!"Core {s.core}"]) ++ blockLines r.gauge s

/-- The text of a report, every line ended. -/
def render (r : Report α) : String := String.join (r.lines.map (· ++ "\n"))

end CycleAccounting.Report
