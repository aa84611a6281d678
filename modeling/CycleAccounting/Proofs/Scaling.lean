import CycleAccounting.Proofs.Attribution
import CycleAccounting.Proofs.Stack
import CycleAccounting.Reconciliation
import CycleAccounting.View

/-!
# Multiples of ledgers and stacks

Cycle accounting adds, subtracts and compares amounts of one kind, so multiplying all of them by a
positive factor changes nothing but the amounts.  This file says so for what a ledger goes through
on its way to a stack: its own operations commute with `Ledger.scaled`, whatever the factor is; the
mean of several ledgers does, and the choice of the cores that compute for long enough does not see
a factor at all; and a tree over a multiple shows the multiple of what it showed
(**`stack_scaled`**), as thresholds are shares and a remainder is zero on both sides or on neither.
-/

namespace CycleAccounting

/-! ## Catalogs with other values -/

namespace Catalog

variable {β γ : Type}

lemma mapValues_insert (f : β → γ) (m : Catalog β) (name : String) (value : β) :
    (m.insert name value).mapValues f = (m.mapValues f).insert name (f value) := by
  apply ext_get?
  intro other
  rw [get?_mapValues, get?_insert, get?_insert, get?_mapValues]
  split_ifs <;> rfl

lemma mapValues_erase (f : β → γ) (m : Catalog β) (name : String) :
    (m.erase name).mapValues f = (m.mapValues f).erase name := by
  apply ext_get?
  intro other
  rw [get?_mapValues, get?_erase, get?_erase, get?_mapValues]
  split_ifs <;> rfl

lemma mapValues_mapValues {δ : Type} (g : γ → δ) (f : β → γ) (m : Catalog β) :
    (m.mapValues f).mapValues g = m.mapValues (g ∘ f) := by
  apply ext_get?
  intro name
  rw [get?_mapValues, get?_mapValues, get?_mapValues, Option.map_map]

lemma names_mapValues (f : β → γ) (m : Catalog β) : (m.mapValues f).names = m.names := by
  rw [names, mapValues, List.map_map]
  rfl

lemma contains_mapValues (f : β → γ) (m : Catalog β) (name : String) :
    (m.mapValues f).contains name = m.contains name := by
  rw [contains, get?_mapValues, Option.isSome_map, contains]

end Catalog

/-! ## Ledgers -/

namespace Ledger

/-- The ledger with every amount multiplied by a factor. -/
def scaled (c : ℚ) (l : Ledger ℚ) : Ledger ℚ := l.mapValues (c * ·)

variable (c : ℚ) (l : Ledger ℚ)

lemma get?_scaled (k : String) : (l.scaled c).get? k = (l.get? k).map (c * ·) :=
  Catalog.get?_mapValues _ l k

lemma contains_scaled (k : String) : (l.scaled c).contains k = l.contains k :=
  Catalog.contains_mapValues _ l k

lemma amount_scaled (k : String) : (l.scaled c).amount k = c * l.amount k :=
  amount_mapValues _ (mul_zero c) l k

lemma scaled_insert (k : String) (cycles : ℚ) :
    scaled c (l.insert k cycles) = (l.scaled c).insert k (c * cycles) :=
  Catalog.mapValues_insert _ l k cycles

lemma scaled_erase (k : String) : scaled c (l.erase k) = (l.scaled c).erase k :=
  Catalog.mapValues_erase _ l k

lemma scaled_book (k : String) (cycles : ℚ) :
    (l.book k cycles).scaled c = (l.scaled c).book k (c * cycles) := by
  rw [book, scaled_insert, mul_add, book, amount_scaled]

lemma scaled_foldl_book (entries : List (String × ℚ)) :
    (entries.foldl (fun (l : Ledger ℚ) e => l.book e.1 e.2) l).scaled c
      = (entries.map fun e => (e.1, c * e.2)).foldl
          (fun (l : Ledger ℚ) e => l.book e.1 e.2) (l.scaled c) := by
  rw [List.foldl_map]
  refine (List.foldl_hom (scaled c) ?_).symm
  intro l e
  exact (l.scaled_book c e.1 e.2).symm

lemma scaled_deduct (k : String) (cycles : ℚ) :
    (l.deduct k cycles).scaled c = (l.scaled c).deduct k (c * cycles) := by
  rw [deduct, scaled_insert, mul_sub, deduct, amount_scaled]

lemma scaled_moveFromBase (k : String) (cycles : ℚ) :
    (l.moveFromBase k cycles).scaled c = (l.scaled c).moveFromBase k (c * cycles) := by
  rw [moveFromBase, scaled_book, scaled_deduct, moveFromBase]

lemma total_scaled : (l.scaled c).total = c * l.total := by
  have hvalues : Catalog.values (l.scaled c) = l.values.map (c * ·) := by
    rw [Catalog.values, scaled, Catalog.mapValues, List.map_map, Catalog.values, List.map_map]
    rfl
  rw [total, Amount.sum_eq, hvalues, total, Amount.sum_eq]
  exact List.sum_map_mul_left l.values (fun x => x) c |>.trans (by rw [List.map_id'])

/-- What is left of a multiple of the budget is the multiple of what was left. -/
lemma scaled_balance (budget : ℚ) :
    (l.balance budget).scaled c = (l.scaled c).balance (c * budget) := by
  rw [balance, scaled_insert, mul_sub, ← total_scaled, scaled_erase, balance]

/-- An amount is a copy of another if its multiple is. -/
lemma scaled_clearCopiedMemAccess (hc : c ≠ 0) :
    l.clearCopiedMemAccess.scaled c = (l.scaled c).clearCopiedMemAccess := by
  have hcopied (x y : ℚ) : Amount.identical (c * x) (c * y) = Amount.identical x y := by
    rw [Bool.eq_iff_iff, Amount.identical_iff, Amount.identical_iff]
    exact mul_right_inj' hc
  rw [clearCopiedMemAccess, clearCopiedMemAccess, get?_scaled, get?_scaled]
  cases l.get? Category.memAccess with
  | none => rfl
  | some memAccess =>
      cases l.get? Category.barrier with
      | none => rfl
      | some barrier =>
          simp only [Option.map_some, hcopied]
          split_ifs
          · rw [scaled_insert, mul_zero]
          · rfl

end Ledger

/-! ## Books -/

namespace Books

/-- The books with every amount multiplied by a factor. -/
def scaled (c : ℚ) (books : Books ℚ) : Books ℚ := ⟨books.cores.map (Ledger.scaled c)⟩

variable (c : ℚ) (books : Books ℚ)

lemma amount_scaled (core : ℕ) :
    (books.scaled c).amount core = fun k => c * books.amount core k := by
  funext k
  rw [amount, scaled, List.getElem?_map, amount]
  cases books.cores[core]? with
  | none => exact (mul_zero c).symm
  | some l => exact l.amount_scaled c k

lemma categories_scaled : (books.scaled c).categories = books.categories := by
  have hnames : Catalog.names ∘ Ledger.scaled c = Catalog.names :=
    funext fun l => Catalog.names_mapValues (c * ·) l
  rw [categories, scaled, Catalog.unionNames, List.flatMap_map]
  simp only [← Function.comp_apply (f := Catalog.names), hnames]
  rfl

lemma scaled_meanLedger (cores : List ℕ) :
    (books.meanLedger cores).scaled c = (books.scaled c).meanLedger cores := by
  have hentries : (cores.filterMap ((books.scaled c).cores[·]?)).flatMap Catalog.toList
      = ((cores.filterMap (books.cores[·]?)).flatMap Catalog.toList).map
          fun e : String × ℚ => (e.1, c * e.2) := by
    have hcores : cores.filterMap ((books.scaled c).cores[·]?)
        = (cores.filterMap (books.cores[·]?)).map (Ledger.scaled c) := by
      simp only [scaled, List.getElem?_map, List.map_filterMap]
    rw [hcores, List.flatMap_map, List.map_flatMap]
    rfl
  have hsums (entries : List (String × ℚ)) :
      (entries.map fun e => (e.1, c * e.2)).foldl (fun (l : Ledger ℚ) e => l.book e.1 e.2) .empty
        = (entries.foldl (fun (l : Ledger ℚ) e => l.book e.1 e.2) .empty).scaled c :=
    (Ledger.scaled_foldl_book c .empty entries).symm
  rw [meanLedger, meanLedger, hentries]
  dsimp only
  rw [hsums]
  split_ifs
  · rfl
  · rw [Ledger.scaled, Ledger.scaled, Catalog.mapValues_mapValues, Catalog.mapValues_mapValues]
    congr 1
    funext cycles
    exact (mul_div_assoc c cycles _).symm

/-- The mean of multiples is the multiple of the mean. -/
lemma scaled_meanOver (cores : List ℕ) :
    (books.meanOver cores).scaled c = (books.scaled c).meanOver cores :=
  congrArg (fun l => Books.mk [l]) (books.scaled_meanLedger c cores)

variable {c}

lemma computeFraction_scaled (hc : c ≠ 0) (core : ℕ) (budget : ℚ) :
    (books.scaled c).computeFraction core (c * budget) = books.computeFraction core budget := by
  rw [computeFraction, computeFraction, amount_scaled, Amount.sum_eq, Amount.sum_eq,
    List.sum_map_mul_left, Amount.ratio_eq, Amount.ratio_eq, mul_div_mul_left _ _ hc]

lemma summaryCores_scaled (hc : c ≠ 0) (cores : List ℕ) (budget : ℚ) (least : Option ℚ) :
    (books.scaled c).summaryCores cores (c * budget) least
      = books.summaryCores cores budget least := by
  rw [summaryCores.eq_def, summaryCores.eq_def]
  simp only [books.computeFraction_scaled hc]

end Books

/-! ## Stacks -/

namespace Stack

/-- The stack with all cycles multiplied by a factor, under the same names. -/
def scaled (c : ℚ) (s : Stack ℚ) : Stack ℚ where
  entries := s.entries.map fun e => (e.1, c * e.2)
  total := c * s.total

variable (c : ℚ)

lemma names_scaled (s : Stack ℚ) : (s.scaled c).names = s.names := by
  rw [names, scaled, List.map_map]
  rfl

lemma get?_scaled (s : Stack ℚ) (name : String) :
    (s.scaled c).get? name = (s.get? name).map (c * ·) :=
  Catalog.lookup_map_snd (fun _ => (c * ·)) name s.entries

/-- A part with its threshold, as many times as large. -/
def scaledPart (part : ℚ × Stack ℚ) : ℚ × Stack ℚ := (part.1, part.2.scaled c)

lemma subtotal_scaled (parts : List (ℚ × Stack ℚ)) :
    subtotal (parts.map (scaledPart c)) = c * subtotal parts := by
  rw [subtotal, Amount.sum_eq, List.map_map, subtotal, Amount.sum_eq, ← List.sum_map_mul_left]
  rfl

variable {c}

lemma isShown_scaled (hc : 0 < c) (collapse : Bool) (subtotal : ℚ) (part : ℚ × Stack ℚ) :
    isShown collapse (c * subtotal) (scaledPart c part) = isShown collapse subtotal part := by
  cases collapse with
  | false => rfl
  | true =>
      have hle : part.1 * (c * subtotal) ≤ c * part.2.total
          ↔ part.1 * subtotal ≤ part.2.total := by
        rw [mul_left_comm, mul_le_mul_iff_right₀ hc]
      rw [isShown_true, isShown_true, Bool.eq_iff_iff, decide_eq_true_iff, decide_eq_true_iff]
      exact hle

lemma remainderEntries_scaled (hc : c ≠ 0) (parent : Option String) (remainder : ℚ) :
    remainderEntries parent (c * remainder)
      = (remainderEntries parent remainder).map fun e => (e.1, c * e.2) := by
  rw [remainderEntries, remainderEntries]
  by_cases hzero : remainder = 0
  · simp [hzero]
  · rw [if_neg hzero, if_neg (mul_ne_zero hc hzero)]
    rfl

/-- Multiples of siblings make up the multiple of their stack. -/
lemma combine_scaled (hc : 0 < c) (collapse : Bool) (parent : Option String)
    (parts : List (ℚ × Stack ℚ)) :
    combine collapse parent (parts.map (scaledPart c))
      = (combine collapse parent parts).scaled c := by
  have hshown : isShown collapse (c * subtotal parts) ∘ scaledPart c
      = isShown collapse (subtotal parts) := funext (isShown_scaled hc collapse _)
  have hhidden : (fun part => !isShown collapse (c * subtotal parts) part) ∘ scaledPart c
      = fun part => !isShown collapse (subtotal parts) part :=
    funext fun part => congrArg not (isShown_scaled hc collapse _ part)
  have hentries : (combine collapse parent (parts.map (scaledPart c))).entries
      = (combine collapse parent parts).entries.map fun e => (e.1, c * e.2) := by
    rw [entries_combine, entries_combine, subtotal_scaled, List.filter_map, hshown,
      List.filter_map, hhidden, List.map_append, List.map_map, List.flatMap_map,
      ← remainderEntries_scaled hc.ne', ← List.sum_map_mul_left, List.map_flatMap]
    rfl
  exact congrArg₂ Stack.mk hentries (subtotal_scaled c parts)

end Stack

lemma Source.value_scaled (c : ℚ) (lookup : String → ℚ) (source : Source) :
    source.value (fun k => c * lookup k) = c * source.value lookup := by
  rw [value_eq, value_eq, List.sum_map_mul_left]

namespace Node

mutual

lemma stack_scaled {c : ℚ} (hc : 0 < c) (collapse : Bool) (lookup : String → ℚ)
    (parent : Option String) : ∀ n : Node ℚ, n.stack collapse (fun k => c * lookup k) parent
      = (n.stack collapse lookup parent).scaled c
  | .leaf name _ source => by
      rw [stack, stack, source.value_scaled]
      rfl
  | .branch name _ children => by
      rw [stack, stack, parts_scaled hc collapse lookup (some (path parent name)) children]
      exact Stack.combine_scaled hc collapse _ _

lemma parts_scaled {c : ℚ} (hc : 0 < c) (collapse : Bool) (lookup : String → ℚ)
    (parent : Option String) : ∀ ns : List (Node ℚ),
    parts collapse (fun k => c * lookup k) parent ns
      = (parts collapse lookup parent ns).map (Stack.scaledPart c)
  | [] => rfl
  | n :: rest => by
      rw [parts, parts, stack_scaled hc collapse lookup parent n,
        parts_scaled hc collapse lookup parent rest]
      rfl

end

end Node

namespace Tree

variable {c : ℚ} (hc : 0 < c) (tree : Tree ℚ) (collapse : Bool)
include hc

/-- **A tree shows the multiple of what it showed**, entry by entry and under the same names. -/
theorem stack_scaled (lookup : String → ℚ) :
    tree.stack collapse (fun k => c * lookup k) = (tree.stack collapse lookup).scaled c := by
  rw [stack, Node.parts_scaled hc collapse lookup none tree.roots]
  exact Stack.combine_scaled hc collapse none _

lemma stackOf_scaled (books : Books ℚ) (core : ℕ) :
    tree.stackOf collapse (books.scaled c) core = (tree.stackOf collapse books core).scaled c := by
  rw [stackOf, books.amount_scaled, tree.stack_scaled hc]
  rfl

end Tree

end CycleAccounting
