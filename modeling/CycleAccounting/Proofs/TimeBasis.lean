import CycleAccounting.Proofs.Report

/-!
# Where the time basis comes from

A run tells its time in one of two ways.  Elapsed times count if their scales are there too
(`Run.ReportsTime`), and cycle counts are looked at only if one of the two is missing, whatever is
wrong with the other one.  Either way, and with time fast-forwarded or not, a time basis has a time
and a scale for every core.
-/

namespace CycleAccounting

/-- Whether a run tells the elapsed times of its cores together with their scales. -/
def Run.ReportsTime {α : Type} (run : Run α) : Prop :=
  run.Carries Stat.elapsedTime ∧ run.Carries Stat.timeToCycles

instance {α : Type} (run : Run α) : Decidable run.ReportsTime :=
  inferInstanceAs (Decidable (_ ∧ _))

namespace Run

variable {α : Type} {run : Run α} {name : String}

lemma perCore?_eq_none (h : ¬ run.Carries name) : run.perCore? name = none := by
  rw [Carries, Option.not_isSome_iff_eq_none] at h
  rw [perCore?, h]
  rfl

lemma carries_of_perCore? {outcome : Except RunError (List α)}
    (h : run.perCore? name = some outcome) : run.Carries name := by
  by_contra hnone
  cases h.symm.trans (perCore?_eq_none hnone)

lemma exists_perCore? (h : run.Carries name) : ∃ outcome, run.perCore? name = some outcome := by
  obtain ⟨values, hvalues⟩ := Option.isSome_iff_exists.1 h
  rw [perCore?, hvalues]
  exact ⟨_, rfl⟩

/-- A statistic of all cores is the part of a long enough list that the cores have. -/
lemma perCore?_eq_ok {values : List α} (h : run.perCore? name = some (.ok values)) :
    ∃ carried, run.counter? name = some carried ∧ run.ncores ≤ carried.length
      ∧ values = carried.take run.ncores := by
  rw [perCore?, Option.map_eq_some_iff] at h
  obtain ⟨carried, hcarried, h⟩ := h
  split_ifs at h with hshort
  exact ⟨carried, hcarried, Nat.not_lt.1 hshort, (Except.ok.inj h).symm⟩

end Run

namespace TimeBasis

variable {α : Type} [Amount α] {run : Run α}

/-- Elapsed times that have scales are the times. -/
lemma reported_of_reportsTime (h : run.ReportsTime) :
    ∃ times scale, run.perCore? Stat.elapsedTime = some times
      ∧ run.perCore? Stat.timeToCycles = some scale
      ∧ reported run = do
          let times ← times
          let scale ← scale
          return ⟨times, scale, Amount.ofNat 1⟩ := by
  obtain ⟨times, htimes⟩ := Run.exists_perCore? h.1
  obtain ⟨scale, hscale⟩ := Run.exists_perCore? h.2
  refine ⟨times, scale, htimes, hscale, ?_⟩
  rw [reported, htimes, hscale]

/-- Where one of the two is missing, cycle counts are the times, in cycles already. -/
lemma reported_of_not_reportsTime (h : ¬ run.ReportsTime) :
    reported run =
      match run.perCore? Stat.cycleCount with
      | some cycles => do
        let cycles ← cycles
        return ⟨cycles, List.replicate run.ncores (Amount.ofNat 1), Amount.ofNat 1⟩
      | none => .error .missingTimeBasis := by
  rw [reported]
  split
  · next htimes hscale =>
    exact absurd ⟨Run.carries_of_perCore? htimes, Run.carries_of_perCore? hscale⟩ h
  · rfl

/-! ## Lengths -/

lemma length_times_reported {basis : TimeBasis α} (h : reported run = .ok basis) :
    basis.times.length = run.ncores := by
  by_cases htime : run.ReportsTime
  · obtain ⟨times, scale, htimes, -, hreported⟩ := reported_of_reportsTime htime
    rw [hreported] at h
    obtain ⟨times, rfl, hrest⟩ := bind_eq_ok.1 h
    obtain ⟨scale, -, hrest⟩ := bind_eq_ok.1 hrest
    obtain rfl := Except.ok.inj hrest
    exact Run.length_perCore? htimes
  · rw [reported_of_not_reportsTime htime] at h
    split at h
    · next hcycles =>
      obtain ⟨cycles, rfl, h⟩ := bind_eq_ok.1 h
      obtain rfl := Except.ok.inj h
      exact Run.length_perCore? hcycles
    · cases h

lemma length_times_skip (basis : TimeBasis α) (skipped : List α) :
    (basis.skip skipped).times.length = basis.times.length := by
  rw [skip]
  split_ifs
  · rfl
  · exact List.length_mapIdx

/-- Every core of a run has its own time. -/
lemma length_times {basis : TimeBasis α} (h : ofRun run = .ok basis) :
    basis.times.length = run.ncores := by
  rw [ofRun, bind_eq_ok] at h
  obtain ⟨unskipped, hreported, h⟩ := h
  rw [← Except.ok.inj h, ← length_times_reported hreported]
  split
  · rw [length_times_skip]
  · rfl

end TimeBasis

end CycleAccounting
