import CycleAccounting.Ledger
import CycleAccounting.Proofs.Catalog
import CycleAccounting.Proofs.Exact
import Mathlib.Algebra.BigOperators.Group.Finset.Basic
import Mathlib.Tactic.Ring

/-!
# Amounts and totals of ledgers

Two views of a ledger carry all that is proved about the passes over it.

**Amounts.**  What a category holds after an operation, for any kind of amount; a category that is
not there holds zero.

**Totals.**  Over the rationals the total is the sum of the amounts over any set of categories that
covers the ledger (`total_eq_sum`).  So an operation changes the total by what it changes the
amount of its own category (`total_insert`), whatever categories were there before.
-/

namespace CycleAccounting

/-! ## Named amounts -/

/-- The sum of some named amounts, each with the weight of its name. -/
def weigh (f : String → ℚ) (entries : List (String × ℚ)) : ℚ :=
  (entries.map fun e => f e.1 * e.2).sum

lemma weigh_append (f : String → ℚ) (entries entries' : List (String × ℚ)) :
    weigh f (entries ++ entries') = weigh f entries + weigh f entries' := by
  rw [weigh, List.map_append, List.sum_append]
  rfl

lemma weigh_flatMap {β : Type} (f : String → ℚ) (g : β → List (String × ℚ)) (xs : List β) :
    weigh f (xs.flatMap g) = (xs.map fun x => weigh f (g x)).sum := by
  induction xs with
  | nil => rfl
  | cons x rest ih => rw [List.flatMap_cons, weigh_append, ih, List.map_cons, List.sum_cons]

lemma weigh_one (entries : List (String × ℚ)) :
    weigh (fun _ => 1) entries = (entries.map (·.2)).sum := by
  simp only [weigh, one_mul]

/-- The weight that picks the amounts of one name. -/
def picking (name other : String) : ℚ := if other = name then 1 else 0

/-- Among distinct names, a name is picked at most once. -/
lemma weigh_picking {entries : List (String × ℚ)} (h : (entries.map (·.1)).Nodup)
    (name : String) : weigh (picking name) entries = (entries.lookup name).getD 0 := by
  induction entries with
  | nil => rfl
  | cons e rest ih =>
      obtain ⟨hnew, hrest⟩ := List.nodup_cons.1 h
      have hcons : weigh (picking name) (e :: rest)
          = (if e.1 = name then 1 else 0) * e.2 + (rest.lookup name).getD 0 := by
        rw [← ih hrest]
        rfl
      rw [hcons, List.lookup_cons]
      by_cases hname : e.1 = name
      · have hnone : rest.lookup name = none := by
          rw [List.lookup_eq_none_iff]
          rintro other hother
          rw [bne_iff_ne]
          rintro rfl
          exact hnew (List.mem_map.2 ⟨other, hother, hname.symm⟩)
        simp [hname, hnone]
      · have hbeq : (name == e.1) = false := beq_eq_false_iff_ne.2 (Ne.symm hname)
        rw [hbeq, if_neg hname, zero_mul, zero_add]

/-! ## Amounts -/

namespace Ledger

section Amounts

variable {α : Type} [Amount α]

@[simp] lemma amount_empty (k : String) : Ledger.amount (.empty : Ledger α) k = 0 := rfl

lemma amount_insert (l : Ledger α) (category k : String) (cycles : α) :
    Ledger.amount (l.insert category cycles) k = if k = category then cycles else l.amount k := by
  rw [amount, Catalog.getD, Catalog.get?_insert]
  split_ifs <;> rfl

lemma amount_erase (l : Ledger α) (category k : String) :
    Ledger.amount (l.erase category) k = if k = category then 0 else l.amount k := by
  rw [amount, Catalog.getD, Catalog.get?_erase]
  split_ifs <;> rfl

lemma amount_book (l : Ledger α) (category k : String) (cycles : α) :
    (l.book category cycles).amount k
      = if k = category then cycles + l.amount category else l.amount k :=
  amount_insert l category k _

lemma amount_deduct (l : Ledger α) (category k : String) (cycles : α) :
    (l.deduct category cycles).amount k
      = if k = category then l.amount category - cycles else l.amount k :=
  amount_insert l category k _

lemma contains_book (l : Ledger α) (category k : String) (cycles : α) :
    (l.book category cycles).contains k = (decide (k = category) || l.contains k) :=
  Catalog.contains_insert l category k _

lemma contains_deduct (l : Ledger α) (category k : String) (cycles : α) :
    (l.deduct category cycles).contains k = (decide (k = category) || l.contains k) :=
  Catalog.contains_insert l category k _

lemma amount_of_not_contains {l : Ledger α} {k : String} (h : l.contains k = false) :
    l.amount k = 0 := by
  have hnone : l.get? k = none := by simpa [Catalog.contains] using h
  rw [amount, Catalog.getD, hnone, Option.getD_none]

lemma amount_of_mem {l : Ledger α} {b : String × α} (h : b ∈ l.toList) : l.amount b.1 = b.2 := by
  rw [amount, Catalog.getD, (Catalog.get?_eq_some_iff l b.1 b.2).2 h]
  rfl

end Amounts

/-! ## Totals -/

section Totals

variable (l : Ledger ℚ)

/-- **The total is the sum of the amounts** over any set of categories that covers the ledger. -/
theorem total_eq_sum {s : Finset String} (h : ∀ k, l.contains k = true → k ∈ s) :
    l.total = ∑ k ∈ s, l.amount k := by
  have hvalues : l.values = l.names.map l.amount := by
    rw [Catalog.values, Catalog.names, List.map_map]
    exact List.map_congr_left fun b hb => (amount_of_mem hb).symm
  have hsub : l.names.toFinset ⊆ s := fun k hk =>
    h k ((Catalog.mem_names_iff l k).1 (List.mem_toFinset.1 hk))
  rw [Ledger.total, Amount.sum_eq, hvalues, ← List.sum_toFinset _ l.nodup_names]
  refine Finset.sum_subset hsub fun k _ hk => amount_of_not_contains ?_
  rwa [List.mem_toFinset, Catalog.mem_names_iff, Bool.not_eq_true] at hk

/-- The names that a ledger binds cover it. -/
lemma mem_toFinset_names {l : Ledger ℚ} {k : String} (h : l.contains k = true) :
    k ∈ l.names.toFinset :=
  List.mem_toFinset.2 ((Catalog.mem_names_iff l k).2 h)

/-- Categories that hold zero do not matter to the total. -/
lemma total_congr {l l' : Ledger ℚ} (h : ∀ k, l.amount k = l'.amount k) : l.total = l'.total := by
  rw [total_eq_sum l fun k hk => Finset.mem_union_left l'.names.toFinset (mem_toFinset_names hk),
    total_eq_sum l' fun k hk => Finset.mem_union_right l.names.toFinset (mem_toFinset_names hk)]
  exact Finset.sum_congr rfl fun k _ => h k

/-- Rebinding a category changes the total by what it changes the amount. -/
lemma total_insert (category : String) (cycles : ℚ) :
    Ledger.total (l.insert category cycles) = l.total - l.amount category + cycles := by
  set s : Finset String := insert category l.names.toFinset
  have hs : category ∈ s := Finset.mem_insert_self _ _
  have hl : l.total = ∑ k ∈ s, l.amount k :=
    total_eq_sum l fun k hk => Finset.mem_insert_of_mem (mem_toFinset_names hk)
  have hi : Ledger.total (l.insert category cycles)
      = ∑ k ∈ s, Ledger.amount (l.insert category cycles) k := total_eq_sum _ fun k hk => by
    rw [Catalog.contains_insert, Bool.or_eq_true, decide_eq_true_iff] at hk
    exact Finset.mem_insert.2 (hk.imp id mem_toFinset_names)
  have hrest : ∑ k ∈ s.erase category, Ledger.amount (l.insert category cycles) k
      = ∑ k ∈ s.erase category, l.amount k := Finset.sum_congr rfl fun k hk => by
    rw [amount_insert, if_neg (Finset.ne_of_mem_erase hk)]
  rw [hl, hi, ← Finset.add_sum_erase s _ hs, ← Finset.add_sum_erase s _ hs, hrest, amount_insert,
    if_pos rfl]
  ring

lemma total_erase (category : String) :
    Ledger.total (l.erase category) = l.total - l.amount category := by
  have h : Ledger.total (l.erase category) = Ledger.total (l.insert category 0) :=
    total_congr fun k => by rw [amount_erase, amount_insert]
  rw [h, total_insert, add_zero]

lemma total_book (category : String) (cycles : ℚ) :
    (l.book category cycles).total = l.total + cycles := by
  rw [book, total_insert]
  ring

lemma total_deduct (category : String) (cycles : ℚ) :
    (l.deduct category cycles).total = l.total - cycles := by
  rw [deduct, total_insert]
  ring

/-- A list that names every category of a ledger, and none twice, adds up to its total. -/
lemma sum_map_amount {names : List String} (hnames : names.Nodup)
    (h : ∀ k, l.contains k = true → k ∈ names) : (names.map l.amount).sum = l.total := by
  rw [total_eq_sum l fun k hk => List.mem_toFinset.2 (h k hk), List.sum_toFinset _ hnames]

end Totals

/-! ## Means -/

lemma amount_mapValues {α β : Type} [Amount α] [Amount β] (f : α → β) (hzero : f 0 = 0)
    (l : Ledger α) (k : String) : Ledger.amount (l.mapValues f) k = f (l.amount k) := by
  rw [amount, Catalog.getD, Catalog.get?_mapValues, amount, Catalog.getD]
  cases l.get? k with
  | none => exact hzero.symm
  | some cycles => rfl

/-- Booking a list of entries books in every category what is picked for it. -/
lemma amount_foldl_book (entries : List (String × ℚ)) (l : Ledger ℚ) (k : String) :
    (entries.foldl (fun (l : Ledger ℚ) e => l.book e.1 e.2) l).amount k
      = l.amount k + weigh (picking k) entries := by
  induction entries generalizing l with
  | nil => exact (add_zero _).symm
  | cons e rest ih =>
      have hcons : weigh (picking k) (e :: rest)
          = (if e.1 = k then 1 else 0) * e.2 + weigh (picking k) rest := rfl
      rw [List.foldl_cons, ih, amount_book, hcons]
      by_cases hk : e.1 = k
      · rw [if_pos hk, if_pos hk.symm, hk]
        ring
      · rw [if_neg hk, if_neg (Ne.symm hk)]
        ring

lemma weigh_toList (l : Ledger ℚ) (k : String) : weigh (picking k) l.toList = l.amount k :=
  weigh_picking l.nodup_names k

end Ledger

namespace Books

variable (books : Books ℚ)

/-- A core that is not there has nothing in any category. -/
lemma sum_amount_cores (cores : List ℕ) (k : String) :
    ((cores.filterMap (books.cores[·]?)).map (Ledger.amount · k)).sum
      = (cores.map (books.amount · k)).sum := by
  induction cores with
  | nil => rfl
  | cons core rest ih =>
      rw [List.filterMap_cons, List.map_cons, List.sum_cons, ← ih, amount]
      cases books.cores[core]? with
      | none => exact (zero_add _).symm
      | some l => rfl

/-- **The mean ledger holds the means**, of no cores zero. -/
theorem amount_meanLedger (cores : List ℕ) (k : String) :
    (books.meanLedger cores).amount k = (cores.map (books.amount · k)).sum / cores.length := by
  have hsums : (((cores.filterMap (books.cores[·]?)).flatMap Catalog.toList).foldl
      (fun (l : Ledger ℚ) e => l.book e.1 e.2) .empty).amount k
      = (cores.map (books.amount · k)).sum := by
    rw [Ledger.amount_foldl_book, weigh_flatMap, ← books.sum_amount_cores, Ledger.amount_empty,
      zero_add]
    simp only [Ledger.weigh_toList]
  rw [meanLedger]
  split_ifs with hempty
  · rw [List.isEmpty_iff.1 hempty]
    simp
  · rw [Ledger.amount_mapValues _ (zero_div _), hsums]
    rfl

end Books

end CycleAccounting
