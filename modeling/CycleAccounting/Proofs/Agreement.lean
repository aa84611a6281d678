import CycleAccounting.Proofs.Grammar
import CycleAccounting.Proofs.Readings

/-!
# Runs that agree

Most of what a run carries has no part in its accounts.  `Tables.Reads` tells from a counter's name
whether its values have, and two runs agree (`Run.Agree`) if they have the same statistics of the
run as a whole and read the same under all such names.  Then they are refused with the same error or
have the same books (**`reconcile_of_agree`**), for any kind of amount.

Hence nothing is changed by a counter that is not read, nor by values past the last core
(`agree_setCounter`).
-/

namespace CycleAccounting

/-- The statistics that are read of a run as a whole. -/
def Stat.runLevel : List String :=
  [instructionCount, elapsedTime, timeToCycles, cycleCount, idleElapsedTime, fastforwardedTime]

/-- Whether reconciliation reads the values of counters with a name: those that are booked, and on
the critical path those that the tables name. -/
def Tables.Reads {α : Type} (tables : Tables α) (name : String) : Prop :=
  (Role.ofName name).IsBooked
    ∨ Role.ofName name = .criticalPath ∧ tables.targets.contains name = true

instance {α : Type} (tables : Tables α) : DecidablePred tables.Reads :=
  fun _ => inferInstanceAs (Decidable (_ ∨ _ ∧ _))

/-- What a reconciliation accounts for, without what it finds wrong with the counters. -/
def Reconciliation.accounts {α : Type} (r : Reconciliation α) :
    Books α × TimeBasis α × List α :=
  (r.books, r.basis, r.instructions)

/-- A name that starts like those of the critical path is no other counter's. -/
lemma Role.ofName_eq_criticalPath {name : String} (h : criticalPathStart <+: name.toList) :
    ofName name = .criticalPath :=
  ofName_eq_iff.2 (.criticalPath h)

namespace Run

variable {α : Type} [Amount α]

/-- Two runs agree on all that reconciliation reads. -/
structure Agree (tables : Tables α) (run run' : Run α) : Prop where
  ncores : run.ncores = run'.ncores
  stats : ∀ stat ∈ Stat.runLevel, run.counter? stat = run'.counter? stat
  readings : ∀ name, tables.Reads name → ∀ core < run.ncores,
    run.reading? core name = run'.reading? core name

namespace Agree

variable {tables : Tables α} {run run' run'' : Run α}

lemma refl (tables : Tables α) (run : Run α) : run.Agree tables run :=
  ⟨rfl, fun _ _ => rfl, fun _ _ _ _ => rfl⟩

lemma trans (h : run.Agree tables run') (h' : run'.Agree tables run'') :
    run.Agree tables run'' where
  ncores := h.ncores.trans h'.ncores
  stats stat hstat := (h.stats stat hstat).trans (h'.stats stat hstat)
  readings name hname core hcore :=
    (h.readings name hname core hcore).trans (h'.readings name hname core (h.ncores ▸ hcore))

section

variable (h : run.Agree tables run')
include h

/-! ## What agreeing runs have in common -/

lemma perCore?_eq {stat : String} (hstat : stat ∈ Stat.runLevel) :
    run.perCore? stat = run'.perCore? stat := by
  rw [perCore?, perCore?, h.stats stat hstat, h.ncores]

lemma instructions_eq : run.instructions = run'.instructions := by
  rw [instructions, instructions, h.perCore?_eq (by decide)]

lemma timeBasis_eq : TimeBasis.ofRun run = TimeBasis.ofRun run' := by
  have hreported : TimeBasis.reported run = TimeBasis.reported run' := by
    rw [TimeBasis.reported, TimeBasis.reported, h.ncores, h.perCore?_eq (by decide),
      h.perCore?_eq (by decide), h.perCore?_eq (by decide)]
  rw [TimeBasis.ofRun, TimeBasis.ofRun, hreported, h.stats _ (by decide)]

/-- The cores of agreeing runs read the same, if the tables name nothing but counters of the
critical path. -/
lemma sameReadings
    (htables : ∀ name ∈ tables.targets.names, Role.criticalPathStart <+: name.toList)
    {core : ℕ} (hcore : core < run.ncores) : run.SameReadings tables core run' core where
  booked name hname := h.readings name (.inl hname) core hcore
  mapped name hname :=
    h.readings name (.inr ⟨Role.ofName_eq_criticalPath (htables name hname),
      (Catalog.mem_names_iff _ _).1 hname⟩) core hcore
  idle := by rw [reading?, reading?, h.stats _ (by decide)]

end

end Agree

/-! ## Counters that may change -/

omit [Amount α] in
/-- The run with other values of one counter, or with one counter more. -/
def setCounter (run : Run α) (name : String) (values : List α) : Run α :=
  { run with counters := run.counters.insert name values }

omit [Amount α] in
lemma counter?_setCounter (run : Run α) (name other : String) (values : List α) :
    (run.setCounter name values).counter? other
      = if other = name then some values else run.counter? other :=
  Catalog.get?_insert run.counters name other values

variable {tables : Tables α}

/-- A counter may get any values that are not read, or that are the ones that were read before. -/
lemma agree_setCounter {run : Run α} {name : String} {values : List α}
    (hstat : name ∉ Stat.runLevel)
    (hread : tables.Reads name → ∀ core < run.ncores,
      run.reading? core name = some (Amount.getAt values core)) :
    run.Agree tables (run.setCounter name values) where
  ncores := rfl
  stats stat hmem := by
    rw [counter?_setCounter, if_neg]
    rintro rfl
    exact hstat hmem
  readings other hother core hcore := by
    rw [reading?, reading?, counter?_setCounter]
    split_ifs with same
    · subst same
      exact hread hother core hcore
    · rfl

/-- Any number of counters may be added that are not read. -/
lemma agree_foldl_setCounter (run : Run α) {ignored : List (String × List α)}
    (h : ∀ b ∈ ignored, b.1 ∉ Stat.runLevel ∧ ¬ tables.Reads b.1) :
    run.Agree tables (ignored.foldl (fun run b => run.setCounter b.1 b.2) run) := by
  induction ignored generalizing run with
  | nil => exact Agree.refl tables run
  | cons b rest ih =>
      obtain ⟨⟨hstat, hread⟩, hrest⟩ := List.forall_mem_cons.1 h
      exact (agree_setCounter hstat fun hname => absurd hname hread).trans (ih _ hrest)

end Run

/-! ## Accounts -/

/-- The accounts of a reconciliation leave the findings out, and nothing else depends on them. -/
lemma Run.accounts_reconcile {α : Type} [Amount α] (run : Run α) (tables : Tables α) :
    (run.reconcile tables).map Reconciliation.accounts = do
      let instructions ← run.instructions
      let basis ← TimeBasis.ofRun run
      if run.reported = ∅ then throw .missingModel
      return (⟨(List.range run.ncores).map (run.settledLedger tables basis)⟩, basis,
        instructions) := by
  rw [reconcile_eq]
  cases run.instructions with
  | error e => rfl
  | ok instructions =>
      cases TimeBasis.ofRun run with
      | error e => rfl
      | ok basis =>
          simp only [bind, Except.bind]
          split_ifs <;> rfl

/-- **Counters that are not read do not interfere.**  Runs that agree are refused with the same
error or have the same books, time basis and instruction counts, whatever else they carry. -/
theorem reconcile_of_agree {α : Type} [Amount α] {tables : Tables α}
    (htables : ∀ name ∈ tables.targets.names, Role.criticalPathStart <+: name.toList)
    {run run' : Run α} (h : run.Agree tables run') :
    (run.reconcile tables).map Reconciliation.accounts
      = (run'.reconcile tables).map Reconciliation.accounts := by
  have hreported := (h.sameReadings htables run.ncores_pos).reported_eq
  have hledgers (basis : TimeBasis α) :
      (List.range run.ncores).map (run.settledLedger tables basis)
        = (List.range run'.ncores).map (run'.settledLedger tables basis) := by
    rw [← h.ncores]
    refine List.map_congr_left ?_
    intro core hcore
    have hcore := h.sameReadings htables (List.mem_range.1 hcore)
    rw [Run.settledLedger, Run.settledLedger, hcore.attributedLedger_congr rfl]
  rw [Run.accounts_reconcile, Run.accounts_reconcile, h.instructions_eq, h.timeBasis_eq, hreported]
  simp only [hledgers]

/-- Tables that name one counter, under the name of the critical path. -/
def storeTables : Tables ℚ := ⟨.ofList [("interval_timer.cpContr_store", "PathStore")], 100⟩

/-- A run with the counter of these tables. -/
def storingRun : Run ℚ where
  ncores := 2
  config := .empty
  counters.toList :=
    [(".cpiBase", [50, 40]), ("interval_timer.cpContr_store", [200, 300]),
      (Stat.cycleCount, [100, 120]), (Stat.instructionCount, [30, 60])]
  counters.sorted := by decide +kernel
  ncores_pos := Nat.two_pos

/-- Counters of every kind that is not read: one that the tables do not name, one of a dispatch
rate, one that serves an unknown unit besides a known one, the time of fast-forwarding, and a
statistic of no use. -/
def noise : List (String × List ℚ) :=
  [("interval_timer.cpContr_port7", [5, 5]),
    ("interval_timer.detailed-cpiBase-DispatchRate-FunctionalUnit", [1, 2]),
    ("interval_timer.detailed-cpiBaseFunctionalUnit-Load+Gpu", [8]),
    ("performance_model.cpiFastforwardTime", [7, 7]), ("dram.reads", [])]

/-- Noise, and a value past the last core. -/
def noisyRun : Run ℚ :=
  (noise.foldl (fun run b => run.setCounter b.1 b.2) storingRun).setCounter ".cpiBase" [50, 40, 30]

lemma agree_noisyRun : storingRun.Agree storeTables noisyRun := by
  have hnoise : ∀ b ∈ noise, b.1 ∉ Stat.runLevel ∧ ¬ storeTables.Reads b.1 := by decide +kernel
  refine (storingRun.agree_foldl_setCounter hnoise).trans (Run.agree_setCounter (by decide) ?_)
  intro _
  decide +kernel

/-- The noise is found, and makes no other difference. -/
theorem accounts_noisyRun :
    (∀ name ∈ storeTables.targets.names, Role.criticalPathStart <+: name.toList)
      ∧ storingRun.Agree storeTables noisyRun
      ∧ ∃ r r', storingRun.reconcile storeTables = .ok r
        ∧ noisyRun.reconcile storeTables = .ok r' ∧ r'.accounts = r.accounts
        ∧ r.diagnostics.length = 0 ∧ r'.diagnostics.length = 2 := by
  have htables : ∀ name ∈ storeTables.targets.names, Role.criticalPathStart <+: name.toList := by
    decide +kernel
  obtain ⟨r, hr⟩ : ∃ r, storingRun.reconcile storeTables = .ok r := ⟨_, rfl⟩
  have haccounts := reconcile_of_agree htables agree_noisyRun
  rw [hr] at haccounts
  cases hr' : noisyRun.reconcile storeTables with
  | error e =>
      rw [hr'] at haccounts
      cases haccounts
  | ok r' =>
      rw [hr'] at haccounts
      obtain ⟨-, -, -, hfound⟩ := Run.reconcile_eq_ok _ _ hr
      obtain ⟨-, -, -, hfound'⟩ := Run.reconcile_eq_ok _ _ hr'
      refine ⟨htables, agree_noisyRun, r, r', hr, rfl, (Except.ok.inj haccounts).symm, ?_, ?_⟩
      · rw [hfound]
        decide +kernel
      · rw [hfound']
        decide +kernel

end CycleAccounting
