import CycleAccounting.Proofs.Reconciliation

/-!
# What a ledger is made from

A core has its own value of every counter, and a ledger is made from nothing else: from the values
of the counters that are booked for every core (`Run.readings`), of those that the tables name, and
of the idle time.  Two cores that read the same there, of one run or of two, have the same ledger up
to its balance, amount by amount and for any kind of amount (**`attributedLedger_congr`**).

Every pass is led back to the list `Run.booked`, which holds what a core reads and no more.  As
catalogs are told by what they find, it is enough to compare readings name by name.
-/

namespace CycleAccounting

/-! ## Counters that are booked -/

namespace Role

/-- Whether counters of the role are booked, whatever the tables name: reported cycles, contention
and stalls without a dispatch rate, and what contention is split by. -/
def IsBooked : Role → Prop
  | .perCycle _ => True
  | .detailedBase functionalUnit dispatchWidth dispatchRate =>
      (functionalUnit = true ∨ dispatchWidth = true) ∧ dispatchRate = false
  | .unitDetail labels => (unitDetail labels).SplitsContention
  | .criticalPath => False
  | .other => False

instance : DecidablePred IsBooked
  | .perCycle _ => inferInstanceAs (Decidable True)
  | .detailedBase .. => inferInstanceAs (Decidable (_ ∧ _))
  | .unitDetail labels => inferInstanceAs (Decidable (unitDetail labels).SplitsContention)
  | .criticalPath => inferInstanceAs (Decidable False)
  | .other => inferInstanceAs (Decidable False)

lemma isBooked_of_splitsContention {role : Role} (h : role.SplitsContention) : role.IsBooked := by
  cases role with
  | unitDetail labels => exact h
  | _ => exact h.elim

end Role

namespace Counter

section

variable {α : Type} {c : Counter α}

lemma isBooked_of_isCoarse (h : c.isCoarse = true) : c.role.IsBooked := by
  rw [isCoarse] at h
  cases hrole : c.role with
  | detailedBase functionalUnit dispatchWidth dispatchRate =>
      rw [hrole, Bool.and_eq_true, Bool.not_eq_true'] at h
      exact ⟨.inl h.1, h.2⟩
  | _ => simp [hrole] at h

lemma isBooked_of_isDispatchWidth (h : c.isDispatchWidth = true) : c.role.IsBooked := by
  rw [Ledger.isDispatchWidth_iff] at h
  rw [h]
  exact ⟨.inr rfl, rfl⟩

end

variable {α : Type} [Amount α]

/-- The counter as one core reads it. -/
def onCore (c : Counter α) (core : ℕ) : Counter α := { c with values := [c.value core] }

variable {c : Counter α} (core : ℕ)

lemma bookPerCycle_of_not_isBooked (h : ¬ c.role.IsBooked) (scale : α) (l : Ledger α) :
    c.bookPerCycle core scale l = l := by
  rw [bookPerCycle]
  cases hrole : c.role with
  | perCycle category =>
      rw [hrole] at h
      exact absurd trivial h
  | _ => rfl

lemma shares_of_not_isBooked (h : ¬ c.role.IsBooked) (u : FunctionalUnit) :
    c.shares core u = [] := by
  have hnone : c.units? = none := by
    rw [← Option.not_isSome_iff_eq_none, isSome_units?]
    exact fun hsplits => h (Role.isBooked_of_splitsContention hsplits)
  rw [shares, hnone]

end Counter

/-! ## Readings -/

namespace Run

variable {α : Type} [Amount α]

section

variable (run : Run α) (core : ℕ)

/-- What a core reads under a name.  Past the end of a list it reads zero, but of a counter that is
not there it reads nothing. -/
def reading? (name : String) : Option α := (run.counter? name).map (Amount.getAt · core)

lemma value_eq (name : String) : run.value name core = (run.reading? core name).getD 0 := by
  rw [value, reading?]
  cases run.counter? name <;> rfl

lemma carries_iff (name : String) :
    run.Carries name ↔ (run.reading? core name).isSome = true := by
  rw [Carries, reading?, Option.isSome_map]

/-- What a core reads of the counters that are booked. -/
def readings : Catalog α :=
  (run.counters.keep fun name => decide (Role.ofName name).IsBooked).mapValues
    (Amount.getAt · core)

lemma get?_readings (name : String) :
    (run.readings core).get? name
      = if (Role.ofName name).IsBooked then run.reading? core name else none := by
  rw [readings, Catalog.get?_mapValues, Catalog.get?_keep]
  by_cases h : (Role.ofName name).IsBooked
  · simp only [h, decide_true, if_true]
    rfl
  · simp only [h, decide_false, if_false, Bool.false_eq_true, Option.map_none]

/-- The counters that are booked, as one core reads them. -/
def booked : List (Counter α) :=
  (run.readings core).toList.map fun b => ⟨b.1, [b.2], .ofName b.1⟩

lemma booked_eq : run.booked core
    = (run.classified.filter fun c => decide c.role.IsBooked).map (·.onCore core) := by
  rw [classified, List.filter_map, List.map_map, booked, readings, Catalog.mapValues, List.map_map]
  rfl

/-- The counters that are booked and have a property of their role. -/
lemma filter_booked (p : Counter α → Bool) (hrole : ∀ c, p (c.onCore core) = p c)
    (hp : ∀ c, p c = true → c.role.IsBooked) :
    (run.booked core).filter p = (run.classified.filter p).map (·.onCore core) := by
  have hcomp : p ∘ (·.onCore core) = p := funext hrole
  rw [booked_eq, List.filter_map, hcomp, List.filter_filter]
  refine congrArg _ (List.filter_congr ?_)
  intro c _
  by_cases h : p c = true
  · simp [h, hp c h]
  · simp [h]

/-- A walk over the counters that passes by those which are not booked. -/
lemma foldl_booked {β : Type} (step : ℕ → β → Counter α → β)
    (hcore : ∀ b c, step 0 b (c.onCore core) = step core b c)
    (hskip : ∀ b c, ¬ c.role.IsBooked → step core b c = b) (b : β) :
    (run.booked core).foldl (step 0) b = run.classified.foldl (step core) b := by
  rw [booked_eq, List.foldl_map, List.foldl_filter]
  congr 1
  funext b c
  by_cases h : c.role.IsBooked
  · simp [h, hcore]
  · simp [h, hskip]

/-! ## The passes, from readings -/

lemma ofPerCycle_booked (scale : α) :
    Ledger.ofPerCycle (run.booked core) 0 scale = Ledger.ofPerCycle run.classified core scale := by
  refine run.foldl_booked core (fun core l c => c.bookPerCycle core scale l) ?_ ?_ _
  · intro l c
    rfl
  · intro l c h
    exact Counter.bookPerCycle_of_not_isBooked core h scale l

lemma coarseContention_booked :
    coarseContention (run.booked core) 0 = coarseContention run.classified core := by
  rw [coarseContention, coarseContention,
    run.filter_booked core _ (fun _ => rfl) fun _ => Counter.isBooked_of_isCoarse, List.map_map]
  rfl

lemma unitBucket_booked :
    unitBucket (run.booked core) 0 = unitBucket run.classified core := by
  funext u
  rw [unitBucket, unitBucket, List.foldl_flatMap, List.foldl_flatMap]
  refine run.foldl_booked core (fun core a c => (c.shares core u).foldl (· + ·) a) ?_ ?_ _
  · intro a c
    rfl
  · intro a c h
    rw [Counter.shares_of_not_isBooked core h]
    rfl

lemma attributeUnits_booked (l : Ledger α) :
    l.attributeUnits (run.booked core) 0 = l.attributeUnits run.classified core := by
  rw [Ledger.attributeUnits, Ledger.attributeUnits, fineContention, fineContention,
    coarseContention_booked, unitBucket_booked]

lemma attributeDispatchWidth_booked (l : Ledger α) :
    l.attributeDispatchWidth (run.booked core) 0
      = l.attributeDispatchWidth run.classified core := by
  rw [Ledger.attributeDispatchWidth, Ledger.attributeDispatchWidth,
    run.filter_booked core _ (fun _ => rfl) fun _ => Counter.isBooked_of_isDispatchWidth,
    List.map_map, List.isEmpty_map]
  rfl

end

/-! ## Cores that read the same -/

/-- A core of a run reads the same as a core of another run, as far as ledgers are made from it. -/
structure SameReadings (tables : Tables α) (run : Run α) (core : ℕ) (run' : Run α) (core' : ℕ) :
    Prop where
  booked (name : String) :
    (Role.ofName name).IsBooked → run.reading? core name = run'.reading? core' name
  mapped : ∀ name ∈ tables.targets.names, run.reading? core name = run'.reading? core' name
  idle : run.reading? core Stat.idleElapsedTime = run'.reading? core' Stat.idleElapsedTime

namespace SameReadings

variable {tables : Tables α} {run run' : Run α} {core core' : ℕ}
  (h : run.SameReadings tables core run' core')
include h

lemma booked_eq : run.booked core = run'.booked core' := by
  have hreadings : run.readings core = run'.readings core' := by
    apply Catalog.ext_get?
    intro name
    rw [get?_readings, get?_readings]
    split_ifs with hname
    · exact h.booked name hname
    · rfl
  rw [Run.booked, Run.booked, hreadings]

lemma ofPerCycle_eq (scale : α) : Ledger.ofPerCycle run.classified core scale
    = Ledger.ofPerCycle run'.classified core' scale := by
  rw [← ofPerCycle_booked, h.booked_eq, ofPerCycle_booked]

lemma reported_eq : run.reported = run'.reported := by
  ext k
  rw [← Ledger.contains_ofPerCycle run core 0, h.ofPerCycle_eq, Ledger.contains_ofPerCycle]

lemma contributions_eq : run.contributions tables core = run'.contributions tables core' := by
  have hnames {b : String × String} (hb : b ∈ tables.targets.toList) :
      run.reading? core b.1 = run'.reading? core' b.1 := h.mapped b.1 (List.mem_map_of_mem hb)
  rw [contributions, contributions]
  have hcarried : tables.targets.toList.filter (fun b => run.Carries b.1)
      = tables.targets.toList.filter fun b => run'.Carries b.1 := by
    refine List.filter_congr ?_
    intro b hb
    simp only [run.carries_iff core, run'.carries_iff core', hnames hb]
  rw [← hcarried]
  refine List.map_congr_left ?_
  intro b hb
  rw [value_eq, value_eq, hnames (List.mem_filter.1 hb).1]

lemma bookStart_eq (scale : α) (l : Ledger α) :
    l.bookStart run core scale = l.bookStart run' core' scale := by
  have hcarried : (run.counter? Stat.idleElapsedTime).isNone
      = (run'.counter? Stat.idleElapsedTime).isNone := by
    have hidle := congrArg Option.isNone h.idle
    rwa [reading?, reading?, Option.isNone_map, Option.isNone_map] at hidle
  rw [Ledger.bookStart, Ledger.bookStart, hcarried, value_eq, value_eq, h.idle]

/-- **Cores that read the same have the same ledger**, before it is balanced, if their scales are
the same too. -/
theorem attributedLedger_congr {basis basis' : TimeBasis α}
    (hscale : Amount.getAt basis.scale core = Amount.getAt basis'.scale core') :
    run.attributedLedger tables basis core = run'.attributedLedger tables basis' core' := by
  have hcorrected : run.correctedLedger basis core = run'.correctedLedger basis' core' := by
    rw [correctedLedger, correctedLedger, hscale, h.ofPerCycle_eq, h.bookStart_eq]
  -- The passes over all counters are turned into passes over the booked ones, which are the same on
  -- both sides, and back.
  rw [attributedLedger, attributedLedger, hcorrected, Ledger.attributeCriticalPath_eq,
    Ledger.attributeCriticalPath_eq, h.contributions_eq, ← attributeUnits_booked,
    ← attributeDispatchWidth_booked, h.booked_eq, attributeUnits_booked,
    attributeDispatchWidth_booked]

end SameReadings

end Run

end CycleAccounting
