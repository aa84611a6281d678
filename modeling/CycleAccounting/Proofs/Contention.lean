import CycleAccounting.Proofs.Units

/-!
# How contention is split

Port counters tell how contention is split between the functional units and nothing else.  This
file says what each of them gives to a unit by its labels alone (`Counter.portion`): its value is
shared equally between them, a label that is there twice counting twice, and a counter with an
unknown label gives nothing.

The category of a unit is overwritten with its part of the contention
(`amount_settledLedger_category`), so what was booked there before does not matter.
**`split_reconciled`** states the proportion for every core of a reconciled run, and that it does
not depend on the unit that the port counters are in.
-/

namespace CycleAccounting

/-! ## What a port counter gives -/

namespace Counter

/-- What the counter gives to a unit: the equal share of each of its labels that is the unit's. -/
def portion (c : Counter ℚ) (core : ℕ) (u : FunctionalUnit) : ℚ :=
  match c.role with
  | .unitDetail labels =>
    if Role.SplitsContention (.unitDetail labels) then
      labels.count u.label * (c.value core / labels.length)
    else 0
  | _ => 0

lemma label_eq_of_ofLabel? {label : String} {u : FunctionalUnit}
    (h : FunctionalUnit.ofLabel? label = some u) : u.label = label := by
  simpa using List.find?_some h

lemma label_injective : Function.Injective FunctionalUnit.label := by
  intro u v h
  have hlabel := FunctionalUnit.ofLabel?_label u
  rw [h, FunctionalUnit.ofLabel?_label] at hlabel
  exact (Option.some.inj hlabel).symm

/-- Known labels are those of their units, one for one. -/
lemma map_label_of_mapM {labels : List String} {units : List FunctionalUnit}
    (h : labels.mapM FunctionalUnit.ofLabel? = some units) :
    units.map FunctionalUnit.label = labels := by
  induction labels generalizing units with
  | nil =>
      obtain rfl : [] = units := by simpa using h
      rfl
  | cons label rest ih =>
      rw [List.mapM_cons] at h
      obtain ⟨u, hu, h⟩ := Option.bind_eq_some_iff.1 h
      obtain ⟨others, hothers, h⟩ := Option.bind_eq_some_iff.1 h
      obtain rfl := Option.some.inj h
      rw [List.map_cons, label_eq_of_ofLabel? hu, ih hothers]

/-- **The shares of a unit are told by the labels.** -/
lemma sum_shares_eq (c : Counter ℚ) (core : ℕ) (u : FunctionalUnit) :
    (c.shares core u).sum = c.portion core u := by
  have hsplits := c.isSome_units?
  cases hunits : c.units? with
  | none =>
      rw [hunits, Option.isSome_none] at hsplits
      rw [shares, hunits, portion]
      cases hrole : c.role with
      | unitDetail labels =>
          rw [hrole] at hsplits
          dsimp only
          rw [if_neg fun hall => Bool.false_ne_true (hsplits.2 hall), List.sum_nil]
      | _ => rfl
  | some units =>
      rw [hunits, Option.isSome_some] at hsplits
      rw [sum_shares_of_units hunits, portion]
      cases hrole : c.role with
      | unitDetail labels =>
          rw [units?, hrole] at hunits
          have hlabels := map_label_of_mapM (Option.filter_eq_some_iff.1 hunits).1
          rw [hrole] at hsplits
          dsimp only
          rw [if_pos (hsplits.1 rfl), ← hlabels, List.length_map,
            List.count_map_of_injective _ _ label_injective]
      | _ =>
          rw [hrole] at hsplits
          exact (hsplits.1 rfl).elim

end Counter

namespace Run

variable (run : Run ℚ) (core : ℕ)

/-- What all port counters give to a unit. -/
def bucket (u : FunctionalUnit) : ℚ := (run.classified.map (·.portion core u)).sum

lemma unitBucket_classified : unitBucket run.classified core = run.bucket core := by
  rw [unitBucket_eq]
  funext u
  simp only [Counter.sum_shares_eq]
  rfl

/-- **The units get all that the port counters give.** -/
theorem sum_bucket : (FunctionalUnit.all.map (run.bucket core)).sum = run.portCycles core := by
  rw [← unitBucket_classified, ← fineContention_eq, fineContention, Amount.sum_eq]

end Run

/-! ## The categories of the units -/

namespace Ledger

/-- Each category is overwritten once. -/
lemma amount_foldl_overwrite (share : FunctionalUnit → ℚ) {units : List FunctionalUnit}
    (h : units.Nodup) {u : FunctionalUnit} (hu : u ∈ units) (l : Ledger ℚ) :
    Ledger.amount (units.foldl (fun l u => l.insert u.category (share u)) l) u.category
      = share u := by
  induction units generalizing l with
  | nil => cases hu
  | cons v rest ih =>
      obtain ⟨hv, hrest⟩ := List.nodup_cons.1 h
      rw [List.foldl_cons]
      rcases List.mem_cons.1 hu with rfl | hu
      · have hothers : ∀ v ∈ rest, u.category ≠ v.category :=
          fun v hmem hsame => hv (category_injective hsame ▸ hmem)
        rw [amount_foldl_overwrite_of_ne share rest _ hothers, amount_insert, if_pos rfl]
      · exact ih hrest hu _

end Ledger

namespace Run

variable (run : Run ℚ) (tables : Tables ℚ) (basis : TimeBasis ℚ) (core : ℕ)

/-- **A unit has its part of the contention**, whatever was reported or attributed under the name of
its category. -/
theorem amount_settledLedger_category (u : FunctionalUnit) :
    (run.settledLedger tables basis core).amount u.category
      = run.contention core / run.portCycles core * run.bucket core u := by
  have hnames : u.category ≠ Category.imbalance ∧ u.category ≠ Category.issue := by
    cases u <;> decide
  rw [settledLedger, Ledger.amount_balance_of_ne _ _ hnames.1, attributedLedger,
    Ledger.amount_attributeDispatchWidth, if_neg hnames.2, if_neg (Ledger.category_ne_base u),
    add_zero, sub_zero, Ledger.attributeUnits_eq,
    Ledger.amount_foldl_overwrite _ (by decide) (FunctionalUnit.mem_all u), unitShare,
    unitBucket_classified]

lemma contains_settledLedger_category (u : FunctionalUnit) :
    (run.settledLedger tables basis core).contains u.category = true := by
  rw [settledLedger, Ledger.contains_balance, contains_attributedLedger]
  exact .inl (.inr (.inr (.inl ⟨u, rfl⟩)))

end Run

/-! ## The unit of the port counters -/

/-- Only contention at single issue ports is in another unit. -/
def UnitChange.ofPort (factor : ℚ) (h : factor ≠ 0) : UnitChange where
  time := 1
  scale := 1
  port := factor
  count := 1
  time_pos := one_pos
  scale_pos := one_pos
  port_ne_zero := h

namespace Run

/-- The run with all port counters multiplied by a factor. -/
def scalePorts (factor : ℚ) (run : Run ℚ) : Run ℚ :=
  { run with
    counters := run.counters.mapNamed fun name values =>
      match Role.ofName name with
      | .unitDetail _ => values.map (factor * ·)
      | _ => values }

variable (run : Run ℚ) (tables : Tables ℚ) (core : ℕ) {factor : ℚ} (hfactor : factor ≠ 0)
include hfactor

/-- Multiplying the port counters is a change of their unit. -/
lemma scalePorts_eq : run.scalePorts factor = run.changeUnits (.ofPort factor hfactor) tables := by
  have hone (values : List ℚ) : values.map ((1 : ℚ) * ·) = values := by simp
  have hstatistics (name : String) :
      ((UnitChange.ofPort factor hfactor).statistics.lookup name).getD 1 = 1 := by
    simp only [UnitChange.statistics, UnitChange.ofPort, Catalog.lookup_cons_eq, List.lookup_nil]
    split_ifs <;> rfl
  have hcycles : (UnitChange.ofPort factor hfactor).cycles = 1 := one_mul 1
  rw [scalePorts, changeUnits]
  congr 1
  refine congrArg (Catalog.mapNamed · run.counters) ?_
  funext name values
  cases Role.ofName name with
  | unitDetail labels => rfl
  | perCycle category => exact (hone values).symm
  | criticalPath => simp [UnitChange.factor, hcycles]
  | detailedBase => simp [UnitChange.factor, hcycles]
  | other => simp [UnitChange.factor, hstatistics]

/-- The contention as a whole stays, and all that splits it is multiplied. -/
lemma split_scalePorts : (run.scalePorts factor).contention core = run.contention core
    ∧ (run.scalePorts factor).portCycles core = factor * run.portCycles core
    ∧ ∀ u, (run.scalePorts factor).bucket core u = factor * run.bucket core u := by
  have hcycles : (UnitChange.ofPort factor hfactor).cycles = 1 := one_mul 1
  rw [run.scalePorts_eq ⟨.empty, 1⟩ hfactor, ← coarseContention_eq, ← coarseContention_eq,
    ← fineContention_eq, ← fineContention_eq, ← unitBucket_classified, ← unitBucket_classified,
    classified_changeUnits, coarseContention_changeUnits, fineContention_changeUnits, hcycles,
    one_mul]
  exact ⟨rfl, rfl, unitBucket_changeUnits _ _ _ core⟩

/-- Whether a run is reconciled does not depend on the unit of its port counters. -/
lemma exists_reconcile_scalePorts {r : Reconciliation ℚ} (h : run.reconcile tables = .ok r) :
    ∃ r', (run.scalePorts factor).reconcile tables = .ok r' := by
  obtain ⟨hinstructions, hbasis, hreported, -, -⟩ := (run.reconcile_eq_ok_iff tables).1 h
  have hfits : (UnitChange.ofPort factor hfactor).FitsTimes run := .inr ⟨rfl, rfl⟩
  rw [run.scalePorts_eq tables hfactor, reconcile_eq, instructions_changeUnits, hinstructions,
    TimeBasis.ofRun_changeUnits tables hfits, hbasis, reported_changeUnits]
  exact ⟨_, bind_eq_ok.2 ⟨_, rfl, bind_eq_ok.2 ⟨_, rfl, if_neg hreported⟩⟩⟩

end Run

/-! ## The split of a reconciled run -/

/-- **How contention is split.**  The buckets of the units add up to what the port counters with
known labels count.  Unless that is zero, each unit has the contention in the proportion of its
bucket, so that all units have all of it; if it is zero, every unit has nothing.  Multiplying the
port counters by a factor changes none of this. -/
theorem split_reconciled {run : Run ℚ} {tables : Tables ℚ} {r : Reconciliation ℚ}
    (h : run.reconcile tables = .ok r) {core : ℕ} (hcore : core < run.ncores) :
    (FunctionalUnit.all.map (run.bucket core)).sum = run.portCycles core
      ∧ ∃ l, r.books.cores[core]? = some l
        ∧ (∀ u : FunctionalUnit, l.contains u.category = true)
        ∧ (run.portCycles core ≠ 0 →
          (∀ u, l.amount u.category * run.portCycles core = run.contention core * run.bucket core u)
            ∧ (FunctionalUnit.all.map (l.amount ·.category)).sum = run.contention core)
        ∧ (run.portCycles core = 0 → ∀ u : FunctionalUnit, l.amount u.category = 0)
        ∧ ∀ factor : ℚ, factor ≠ 0 → ∃ r' l',
          (run.scalePorts factor).reconcile tables = .ok r' ∧ r'.books.cores[core]? = some l'
            ∧ ∀ u : FunctionalUnit, l'.amount u.category = l.amount u.category := by
  have hamount := run.amount_settledLedger_category tables r.basis core
  refine ⟨run.sum_bucket core, _, cores_reconciled h hcore,
    run.contains_settledLedger_category tables r.basis core, ?_, ?_, ?_⟩
  · intro hports
    have hunit : ∀ u : FunctionalUnit,
        (run.settledLedger tables r.basis core).amount u.category * run.portCycles core
          = run.contention core * run.bucket core u := by
      intro u
      rw [hamount]
      field_simp
    refine ⟨hunit, ?_⟩
    simp only [hamount]
    rw [List.sum_map_mul_left, run.sum_bucket core, div_mul_cancel₀ _ hports]
  · intro hports u
    rw [hamount, hports, div_zero, zero_mul]
  · intro factor hfactor
    obtain ⟨r', hr'⟩ := run.exists_reconcile_scalePorts tables hfactor h
    refine ⟨r', _, hr', cores_reconciled hr' hcore, ?_⟩
    intro u
    obtain ⟨hcontention, hports, hbucket⟩ := run.split_scalePorts core hfactor
    rw [Run.amount_settledLedger_category, hamount, hcontention, hports, hbucket,
      div_mul_eq_mul_div, div_mul_eq_mul_div, mul_left_comm, mul_div_mul_left _ _ hfactor]

/-- Two cores.  One port counter has a label twice, another an unknown one; on the second core the
others cancel. -/
def portedRun : Run ℚ where
  ncores := 2
  config := .empty
  counters.toList :=
    [(".cpiBase", [50, 40]), (".cpiFU_Load", [9, 9]),
      ("interval_timer.detailed-cpiBase-FunctionalUnit", [6, 8]),
      ("interval_timer.detailed-cpiBaseFunctionalUnit-Generic+Mystery", [7, 7]),
      ("interval_timer.detailed-cpiBaseFunctionalUnit-Load+Load+Branch", [3, 3]),
      ("interval_timer.detailed-cpiBaseFunctionalUnit-Store", [1, -3]),
      (Stat.cycleCount, [100, 120]), (Stat.instructionCount, [30, 60])]
  counters.sorted := by decide +kernel
  ncores_pos := Nat.two_pos

theorem split_portedRun : ∃ r l l', portedRun.reconcile branchTables = .ok r
    ∧ r.books.cores[0]? = some l ∧ r.books.cores[1]? = some l'
    ∧ portedRun.portCycles 0 = 4 ∧ portedRun.portCycles 1 = 0
    ∧ (∀ u : FunctionalUnit, l.amount u.category * 4 = 6 * portedRun.bucket 0 u)
    ∧ portedRun.bucket 0 .load = 2 ∧ portedRun.bucket 0 .generic = 0
    ∧ (FunctionalUnit.all.map (l.amount ·.category)).sum = 6
    ∧ ∀ u : FunctionalUnit, l'.amount u.category = 0 := by
  -- one computation, so that the names of the counters are read once
  have hcomputed : (portedRun.reconcile branchTables).isOk = true ∧ portedRun.portCycles 0 = 4
      ∧ portedRun.portCycles 1 = 0 ∧ portedRun.contention 0 = 6
      ∧ portedRun.bucket 0 .load = 2 ∧ portedRun.bucket 0 .generic = 0 := by decide +kernel
  obtain ⟨hok, hports, hcancel, hcontention, hload, hgeneric⟩ := hcomputed
  obtain ⟨r, h⟩ : ∃ r, portedRun.reconcile branchTables = .ok r := by
    cases h : portedRun.reconcile branchTables with
    | ok r => exact ⟨r, rfl⟩
    | error e => cases h ▸ hok
  have hfirst : 0 < portedRun.ncores := by decide
  have hsecond : 1 < portedRun.ncores := by decide
  obtain ⟨-, l, hl, -, hsplit, -⟩ := split_reconciled h hfirst
  obtain ⟨-, l', hl', -, -, hnothing, -⟩ := split_reconciled h hsecond
  obtain ⟨hunits, htotal⟩ := hsplit (by rw [hports]; decide)
  rw [hports, hcontention] at hunits
  rw [hcontention] at htotal
  exact ⟨r, l, l', h, hl, hl', hports, hcancel, hunits, hload, hgeneric, htotal, hnothing hcancel⟩

end CycleAccounting
