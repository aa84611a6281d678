import CycleAccounting.Proofs.Agreement
import CycleAccounting.Proofs.TimeBasis

/-!
# Why there is no report

There is a report unless something can be objected to, and of several objections the first one is
the error.  `Report.objections` lists what can be objected to, in the order in which it is looked
at: the options by themselves, the options against the run, and the run.  Each objection is a
condition on the options and on which counters a run carries with how many values.

A computation `Answers` to a list of objections if it fails exactly with the first of them
(`FirstOf`).  One computation after another answers to the one list after the other
(`Answers.bind`), which takes the checks of options, the lookups of statistics and the test for
per-cycle counters to **`compute_eq_error_iff`**.
-/

namespace CycleAccounting

/-! ## Answering to objections -/

section FirstOf

variable {ε ε' β γ : Type}

/-- Whether an error is the first of some objections that can be made. -/
def FirstOf : List (ε → Prop) → ε → Prop
  | [], _ => False
  | objection :: rest, e => objection e ∨ (∀ e', ¬ objection e') ∧ FirstOf rest e

/-- Whether none of some objections can be made. -/
def Unobjectionable (objections : List (ε → Prop)) : Prop :=
  ∀ objection ∈ objections, ∀ e, ¬ objection e

lemma unobjectionable_nil : Unobjectionable ([] : List (ε → Prop)) := List.forall_mem_nil _

lemma unobjectionable_cons {objection : ε → Prop} {rest : List (ε → Prop)} :
    Unobjectionable (objection :: rest) ↔ (∀ e, ¬ objection e) ∧ Unobjectionable rest :=
  List.forall_mem_cons

/-- Of objections that can be made one is the first. -/
lemma unobjectionable_iff {objections : List (ε → Prop)} :
    Unobjectionable objections ↔ ∀ e, ¬ FirstOf objections e := by
  induction objections with
  | nil => simp [Unobjectionable, FirstOf]
  | cons objection rest ih =>
      rw [unobjectionable_cons, ih]
      constructor
      · rintro ⟨hnone, hrest⟩ e (he | ⟨-, he⟩)
        · exact hnone e he
        · exact hrest e he
      · intro h
        have hnone : ∀ e, ¬ objection e := fun e he => h e (.inl he)
        exact ⟨hnone, fun e he => h e (.inr ⟨hnone, he⟩)⟩

lemma firstOf_append {objections more : List (ε → Prop)} {e : ε} :
    FirstOf (objections ++ more) e
      ↔ FirstOf objections e ∨ Unobjectionable objections ∧ FirstOf more e := by
  induction objections with
  | nil => simp [FirstOf, Unobjectionable]
  | cons objection rest ih =>
      rw [List.cons_append, FirstOf, ih, FirstOf, unobjectionable_cons]
      tauto

/-- The objection that an error comes from. -/
def ofError (f : ε → ε') (objection : ε → Prop) (e' : ε') : Prop := ∃ e, objection e ∧ f e = e'

lemma firstOf_map_ofError {f : ε → ε'} {objections : List (ε → Prop)} {e' : ε'} :
    FirstOf (objections.map (ofError f)) e' ↔ ∃ e, FirstOf objections e ∧ f e = e' := by
  have hnone (objection : ε → Prop) : (∀ e', ¬ ofError f objection e') ↔ ∀ e, ¬ objection e :=
    ⟨fun h e he => h (f e) ⟨e, he, rfl⟩, fun h _ ⟨e, he, _⟩ => h e he⟩
  induction objections with
  | nil => simp [FirstOf]
  | cons objection rest ih =>
      simp only [List.map_cons, FirstOf, hnone, ih]
      constructor
      · rintro (⟨e, he, rfl⟩ | ⟨hfirst, e, he, rfl⟩)
        · exact ⟨e, .inl he, rfl⟩
        · exact ⟨e, .inr ⟨hfirst, he⟩, rfl⟩
      · rintro ⟨e, he | ⟨hfirst, he⟩, rfl⟩
        · exact .inl ⟨e, he, rfl⟩
        · exact .inr ⟨hfirst, e, he, rfl⟩

/-- A computation fails with the first of some objections, and if there is none it does not. -/
def Answers (objections : List (ε → Prop)) (x : Except ε β) : Prop :=
  ∀ e, x = .error e ↔ FirstOf objections e

namespace Answers

variable {objections more : List (ε → Prop)} {x : Except ε β}

lemma exists_eq_ok_iff (h : Answers objections x) :
    (∃ b, x = .ok b) ↔ Unobjectionable objections := by
  rw [unobjectionable_iff]
  cases x with
  | error e => simpa using ⟨e, (h e).1 rfl⟩
  | ok b =>
      refine iff_of_true ⟨b, rfl⟩ ?_
      intro e he
      cases (h e).2 he

lemma ok (h : Unobjectionable objections) (b : β) : Answers objections (.ok b) := by
  intro e
  exact iff_of_false nofun (unobjectionable_iff.1 h e)

/-- An error is what the only objection to it says. -/
lemma error {objection : ε → Prop} {e : ε} (h : ∀ e', objection e' ↔ e' = e) :
    Answers [objection] (.error e : Except ε β) := by
  intro e'
  rw [Except.error.injEq, FirstOf, h e', eq_comm]
  simp [FirstOf]

/-- Objections to what comes second count if there are none to what comes first. -/
lemma bind {f : β → Except ε γ} (hx : Answers objections x)
    (hf : ∀ b, x = .ok b → Answers more (f b)) : Answers (objections ++ more) (x >>= f) := by
  intro e
  rw [firstOf_append]
  cases x with
  | error e' =>
      have hfirst : FirstOf objections e' := (hx e').1 rfl
      have hsome : ¬ Unobjectionable objections := fun h => unobjectionable_iff.1 h e' hfirst
      rw [← hx e]
      simp [hsome, Bind.bind, Except.bind]
  | ok b =>
      have hnone : Unobjectionable objections := hx.exists_eq_ok_iff.1 ⟨b, rfl⟩
      have hfirst : ¬ FirstOf objections e := unobjectionable_iff.1 hnone e
      rw [or_iff_right hfirst, and_iff_right hnone]
      exact hf b rfl e

lemma mapError (h : Answers objections x) (f : ε → ε') :
    Answers (objections.map (ofError f)) (x.mapError f) := by
  intro e'
  rw [firstOf_map_ofError]
  simp only [← h _]
  cases x <;> simp [Except.mapError]

end Answers

end FirstOf

/-! ## Objections to options -/

namespace Options

variable {α : Type} [Amount α] (options : Options α)

/-- What can be objected to options by themselves. -/
def objections : List (OptionError α → Prop) :=
  [fun e => ∃ fraction, options.minComputeFraction = some fraction
      ∧ (Amount.isFinite fraction = false ∨ Amount.less (Amount.ofNat 1) fraction = true)
      ∧ e = .fractionTooLarge fraction,
    fun e => options.cores = some [] ∧ e = .emptyCoreFilter]

omit [Amount α] in
/-- What can be objected to options in view of the number of cores: the first core of the filter
that is too large. -/
def coreObjections (ncores : ℕ) : List (OptionError α → Prop) :=
  [fun e => ∃ before core after, options.cores = some (before ++ core :: after)
      ∧ (∀ other ∈ before, other < ncores) ∧ ncores ≤ core ∧ e = .coreOutOfRange core ncores]

lemma isFraction_eq_false_iff (fraction : α) : isFraction fraction = false
    ↔ Amount.isFinite fraction = false ∨ Amount.less (Amount.ofNat 1) fraction = true := by
  rw [isFraction, Bool.and_eq_false_iff, Bool.not_eq_false']

lemma answers_validate : Answers options.objections options.validate := by
  intro e
  rw [validate.eq_def, objections]
  cases hleast : options.minComputeFraction with
  | none =>
      by_cases hempty : options.cores = some []
      · simp [FirstOf, hempty, eq_comm (b := e)]
      · simp [FirstOf, hempty]
  | some fraction =>
      simp only [FirstOf, ← isFraction_eq_false_iff]
      cases hfraction : isFraction fraction with
      | false => simp [hfraction, eq_comm (b := e)]
      | true =>
          by_cases hempty : options.cores = some []
          · simp [hempty, hfraction, eq_comm (b := e)]
          · simp [hempty, hfraction]

omit [Amount α] in
/-- The first core that is too large stands behind cores that are not. -/
lemma find?_cores_eq_some_iff (ncores core : ℕ) :
    (options.cores.getD []).find? (ncores ≤ ·) = some core
      ↔ ∃ before after, options.cores = some (before ++ core :: after)
        ∧ (∀ other ∈ before, other < ncores) ∧ ncores ≤ core := by
  rw [List.find?_eq_some_iff_append]
  cases options.cores with
  | none => simp
  | some filter =>
      simp only [Option.getD_some, Option.some.injEq, decide_eq_true_iff, Bool.not_eq_true',
        decide_eq_false_iff_not, not_le]
      constructor
      · rintro ⟨hle, before, after, hfilter, hbefore⟩
        exact ⟨before, after, hfilter, hbefore, hle⟩
      · rintro ⟨before, after, hfilter, hbefore, hle⟩
        exact ⟨hle, before, after, hfilter, hbefore⟩

omit [Amount α] in
lemma answers_validateCores (ncores : ℕ) :
    Answers (options.coreObjections ncores) (options.validateCores ncores) := by
  have hfirst (e : OptionError α) : FirstOf (options.coreObjections ncores) e
      ↔ ∃ core, (options.cores.getD []).find? (ncores ≤ ·) = some core
        ∧ e = .coreOutOfRange core ncores := by
    simp only [coreObjections, FirstOf, and_false, or_false, find?_cores_eq_some_iff]
    constructor
    · rintro ⟨before, core, after, hcores, hbefore, hle, he⟩
      exact ⟨core, ⟨before, after, hcores, hbefore, hle⟩, he⟩
    · rintro ⟨core, ⟨before, after, hcores, hbefore, hle⟩, he⟩
      exact ⟨before, core, after, hcores, hbefore, hle, he⟩
  intro e
  rw [hfirst, validateCores]
  cases (options.cores.getD []).find? (ncores ≤ ·) with
  | none => simp
  | some core => simp [eq_comm (b := e)]

end Options

/-! ## Objections to runs -/

namespace Run

variable {α : Type} (run : Run α)

/-- Whether an error says that a run has too few values of a statistic. -/
def IsShort (stat : String) (e : RunError) : Prop :=
  ∃ carried, (run.counter? stat).map List.length = some carried ∧ carried < run.ncores
    ∧ e = .tooFewValues stat carried run.ncores

/-- What can be objected to the instruction counts of a run. -/
def instructionObjections : List (RunError → Prop) :=
  [fun e => ¬ run.Carries Stat.instructionCount ∧ e = .missingInstructions,
    run.IsShort Stat.instructionCount]

/-- What can be objected to the times of a run.  Elapsed times and scales are looked at if both are
there, and else cycle counts. -/
def timeObjections : List (RunError → Prop) :=
  [fun e => run.ReportsTime ∧ run.IsShort Stat.elapsedTime e,
    fun e => run.ReportsTime ∧ run.IsShort Stat.timeToCycles e,
    fun e => ¬ run.ReportsTime ∧ ¬ run.Carries Stat.cycleCount ∧ e = .missingTimeBasis,
    fun e => ¬ run.ReportsTime ∧ run.IsShort Stat.cycleCount e]

/-- What can be objected to the counters of a run: that none is counted per cycle. -/
def modelObjections : List (RunError → Prop) :=
  [fun e => (∀ name category, run.Carries name → Role.ofName name ≠ .perCycle category)
      ∧ e = .missingModel]

/-- What can be objected to a run. -/
def objections : List (RunError → Prop) :=
  run.instructionObjections ++ (run.timeObjections ++ run.modelObjections)

variable {run}

/-- A statistic that is there is refused if it is short. -/
lemma answers_perCore? {stat : String} {outcome : Except RunError (List α)}
    (h : run.perCore? stat = some outcome) : Answers [run.IsShort stat] outcome := by
  intro e
  obtain ⟨values, hvalues, rfl⟩ := Option.map_eq_some_iff.1 h
  by_cases hshort : values.length < run.ncores
  · simp [FirstOf, IsShort, hvalues, hshort, eq_comm (b := e)]
  · simp [FirstOf, IsShort, hvalues, hshort]

variable (run)

lemma answers_instructions : Answers run.instructionObjections run.instructions := by
  rw [instructions, instructionObjections]
  by_cases hcarried : run.Carries Stat.instructionCount
  · obtain ⟨outcome, houtcome⟩ := exists_perCore? hcarried
    have h := answers_perCore? houtcome
    intro e
    rw [houtcome, Option.getD_some, h e]
    simp [FirstOf, hcarried]
  · intro e
    rw [perCore?_eq_none hcarried, Option.getD_none]
    simp [FirstOf, hcarried, eq_comm (b := e)]

lemma answers_timeBasis [Amount α] : Answers run.timeObjections (TimeBasis.ofRun run) := by
  have hreported : Answers run.timeObjections (TimeBasis.reported run) := by
    by_cases htime : run.ReportsTime
    · obtain ⟨times, scale, htimes, hscale, hreported⟩ :=
        TimeBasis.reported_of_reportsTime htime
      have h : Answers [run.IsShort Stat.elapsedTime, run.IsShort Stat.timeToCycles]
          (TimeBasis.reported run) := by
        rw [hreported]
        refine (answers_perCore? htimes).bind fun times _ => ?_
        exact (answers_perCore? hscale).bind fun scale _ => Answers.ok unobjectionable_nil _
      intro e
      rw [h e]
      simp [timeObjections, FirstOf, htime]
    · intro e
      rw [TimeBasis.reported_of_not_reportsTime htime]
      by_cases hcarried : run.Carries Stat.cycleCount
      · obtain ⟨cycles, hcycles⟩ := exists_perCore? hcarried
        have h : Answers [run.IsShort Stat.cycleCount] (do
            let cycles ← cycles
            return (⟨cycles, List.replicate run.ncores (Amount.ofNat 1), Amount.ofNat 1⟩ :
              TimeBasis α)) :=
          (answers_perCore? hcycles).bind fun cycles _ => Answers.ok unobjectionable_nil _
        rw [hcycles, h e]
        simp [timeObjections, FirstOf, htime, hcarried]
      · rw [perCore?_eq_none hcarried]
        simp [timeObjections, FirstOf, htime, hcarried, eq_comm (b := e)]
  -- Time that was fast-forwarded is taken out of any basis.
  rw [TimeBasis.ofRun, ← List.append_nil run.timeObjections]
  exact hreported.bind fun basis _ => Answers.ok unobjectionable_nil _

/-- A category is reported if a counter that the run carries has its role. -/
lemma reported_eq_empty_iff : run.reported = ∅
    ↔ ∀ name category, run.Carries name → Role.ofName name ≠ .perCycle category := by
  have hclassified (c : Counter α) (hc : c ∈ run.classified) :
      run.Carries c.name ∧ c.role = Role.ofName c.name := by
    obtain ⟨b, hb, rfl⟩ := List.mem_map.1 hc
    exact ⟨(Catalog.mem_names_iff _ _).1 (List.mem_map_of_mem hb), rfl⟩
  rw [Finset.eq_empty_iff_forall_notMem]
  constructor
  · intro hnone name category hname hrole
    obtain ⟨b, hb, rfl⟩ := List.mem_map.1 ((Catalog.mem_names_iff run.counters name).2 hname)
    exact hnone category ((run.mem_reported_iff category).2 ⟨_, List.mem_map_of_mem hb, hrole⟩)
  · intro hnone category hreported
    obtain ⟨c, hc, hrole⟩ := (run.mem_reported_iff category).1 hreported
    obtain ⟨hcarried, hname⟩ := hclassified c hc
    exact hnone c.name category hcarried (hname ▸ hrole)

lemma answers_reconcile [Amount α] (tables : Tables α) :
    Answers run.objections (run.reconcile tables) := by
  rw [reconcile_eq, objections]
  refine run.answers_instructions.bind fun instructions _ => ?_
  refine run.answers_timeBasis.bind fun basis _ => ?_
  rw [modelObjections, ← reported_eq_empty_iff]
  by_cases hreported : run.reported = ∅
  · rw [if_pos hreported]
    refine Answers.error ?_
    intro e
    exact and_iff_right hreported
  · rw [if_neg hreported]
    refine Answers.ok ?_ _
    rw [unobjectionable_cons]
    exact ⟨fun e he => hreported he.1, unobjectionable_nil⟩

/-! ### What cannot be objected to -/

variable {run run' : Run α}

/-- Whether two runs have as many cores, and as many values under each name. -/
structure SameShape (run run' : Run α) : Prop where
  ncores : run.ncores = run'.ncores
  lengths : ∀ name, (run.counter? name).map List.length = (run'.counter? name).map List.length

namespace SameShape

variable (h : run.SameShape run')
include h

lemma carries_iff (name : String) : run.Carries name ↔ run'.Carries name := by
  rw [Carries, Carries, ← Option.isSome_map (f := List.length), h.lengths, Option.isSome_map]

lemma isShort_eq (stat : String) : run.IsShort stat = run'.IsShort stat := by
  funext e
  rw [IsShort, h.lengths, h.ncores, IsShort]

/-- Values have no part in the objections to a run. -/
lemma objections_eq : run.objections = run'.objections := by
  have htime : run.ReportsTime ↔ run'.ReportsTime :=
    and_congr (h.carries_iff _) (h.carries_iff _)
  simp only [objections, instructionObjections, timeObjections, modelObjections, h.carries_iff,
    h.isShort_eq, htime]

end SameShape

/-- Elapsed times have no part in them if their scales are not there. -/
lemma objections_setCounter_elapsedTime (h : ¬ run.Carries Stat.timeToCycles) (times : List α) :
    (run.setCounter Stat.elapsedTime times).objections = run.objections := by
  have hother {name : String} (hname : name ≠ Stat.elapsedTime) :
      (run.setCounter Stat.elapsedTime times).counter? name = run.counter? name := by
    rw [counter?_setCounter, if_neg hname]
  have hcarries {name : String} (hname : name ≠ Stat.elapsedTime) :
      (run.setCounter Stat.elapsedTime times).Carries name ↔ run.Carries name := by
    rw [Carries, hother hname, Carries]
  have hshort {stat : String} (hstat : stat ≠ Stat.elapsedTime) :
      (run.setCounter Stat.elapsedTime times).IsShort stat = run.IsShort stat := by
    funext e
    rw [IsShort, hother hstat, IsShort]
    rfl
  have hinstructions : (run.setCounter Stat.elapsedTime times).instructionObjections
      = run.instructionObjections := by
    rw [instructionObjections, hcarries (by decide), hshort (by decide), instructionObjections]
  have htimes : (run.setCounter Stat.elapsedTime times).timeObjections = run.timeObjections := by
    have htime : ¬ run.ReportsTime := fun hreports => h hreports.2
    have htime' : ¬ (run.setCounter Stat.elapsedTime times).ReportsTime :=
      fun hreports => h ((hcarries (by decide)).1 hreports.2)
    simp only [timeObjections, htime, htime', false_and]
    rw [hcarries (by decide), hshort (by decide)]
  have hmodel : (run.setCounter Stat.elapsedTime times).modelObjections
      = run.modelObjections := by
    have hrole : Role.ofName Stat.elapsedTime = .other := by decide +kernel
    have hcounted : (∀ name category, (run.setCounter Stat.elapsedTime times).Carries name →
          Role.ofName name ≠ .perCycle category)
        ↔ ∀ name category, run.Carries name → Role.ofName name ≠ .perCycle category := by
      refine forall_congr' fun name => forall_congr' fun category => ?_
      by_cases hname : name = Stat.elapsedTime
      · simp [hname, hrole]
      · rw [hcarries hname]
    rw [modelObjections, hcounted, modelObjections]
  rw [objections, hinstructions, htimes, hmodel, objections]

end Run

/-! ## Objections to reports -/

namespace Report

variable {α : Type} [Amount α]

/-- What can be objected to the report of a run, in the order in which it is looked at. -/
def objections (run : Run α) (options : Options α) : List (ReportError α → Prop) :=
  options.objections.map (ofError .options)
    ++ ((options.coreObjections run.ncores).map (ofError .options)
      ++ run.objections.map (ofError .run))

lemma answers_compute (tables : Tables α) (run : Run α) (tree : Tree α) (options : Options α) :
    Answers (objections run options) (compute tables run tree options) := by
  rw [compute, objections]
  refine (options.answers_validate.mapError _).bind fun _ _ => ?_
  refine ((options.answers_validateCores run.ncores).mapError _).bind fun _ _ => ?_
  rw [← List.append_nil (run.objections.map _)]
  exact ((run.answers_reconcile tables).mapError _).bind fun _ _ => Answers.ok unobjectionable_nil _

end Report

/-- **When there is no report, and why.**  The error is the first of what can be objected to, and if
nothing can, there is a report.  So tables, tree and the values of counters have no part in whether
there is one, and elapsed times, however short, have none where their scales are missing. -/
theorem compute_eq_error_iff {α : Type} [Amount α] (run : Run α) (options : Options α) :
    (∀ tables tree e, Report.compute tables run tree options = .error e
        ↔ FirstOf (Report.objections run options) e)
      ∧ (∀ tables tree, (∃ report, Report.compute tables run tree options = .ok report)
        ↔ Unobjectionable (Report.objections run options))
      ∧ (∀ run' : Run α, run.SameShape run' → ∀ tables tables' tree tree' e,
        Report.compute tables run tree options = .error e
          ↔ Report.compute tables' run' tree' options = .error e)
      ∧ (¬ run.Carries Stat.timeToCycles → ∀ times tables tree e,
        Report.compute tables (run.setCounter Stat.elapsedTime times) tree options = .error e
          ↔ Report.compute tables run tree options = .error e) := by
  have hanswers (run : Run α) (tables : Tables α) (tree : Tree α) :=
    Report.answers_compute tables run tree options
  refine ⟨hanswers run, fun tables tree => (hanswers run tables tree).exists_eq_ok_iff, ?_, ?_⟩
  · intro run' hshape tables tables' tree tree' e
    have hobjections : Report.objections run options = Report.objections run' options := by
      rw [Report.objections, hshape.ncores, hshape.objections_eq, Report.objections]
    rw [hanswers run tables tree e, hanswers run' tables' tree' e, hobjections]
  · intro hscale times tables tree e
    have hobjections : Report.objections (run.setCounter Stat.elapsedTime times) options
        = Report.objections run options := by
      rw [Report.objections, Run.objections_setCounter_elapsedTime hscale, Report.objections]
      rfl
    rw [hanswers _ tables tree e, hanswers run tables tree e, hobjections]

/-- The first of two wrong options counts, and the first core that is out of range.  Elapsed times
that are too short are not looked at, nor are the values of a counter. -/
theorem refused_storingRun :
    Report.compute storeTables storingRun contendedTree
        { unfiltered false with minComputeFraction := some 2, cores := some [] }
      = .error (.options (.fractionTooLarge 2))
    ∧ Report.compute storeTables storingRun contendedTree
        { unfiltered false with cores := some [1, 5, 3] }
      = .error (.options (.coreOutOfRange 5 2))
    ∧ ¬ storingRun.Carries Stat.timeToCycles
    ∧ (∃ report, Report.compute storeTables (storingRun.setCounter Stat.elapsedTime [1])
        contendedTree (unfiltered false) = .ok report)
    ∧ storingRun.SameShape (storingRun.setCounter ".cpiBase" [0, -1])
    ∧ ∃ report, Report.compute ⟨.empty, 0⟩ (storingRun.setCounter ".cpiBase" [0, -1])
        ⟨[]⟩ (unfiltered false) = .ok report := by
  have hscale : ¬ storingRun.Carries Stat.timeToCycles := by decide +kernel
  have hshape : storingRun.SameShape (storingRun.setCounter ".cpiBase" [0, -1]) := by
    refine ⟨rfl, ?_⟩
    intro name
    rw [Run.counter?_setCounter]
    split_ifs with hname
    · rw [hname]
      rfl
    · rfl
  obtain ⟨-, -, hvalues, htimes⟩ := compute_eq_error_iff storingRun (unfiltered false)
  obtain ⟨report, hreport⟩ :
      ∃ report, Report.compute storeTables storingRun contendedTree (unfiltered false)
        = .ok report := ⟨_, rfl⟩
  refine ⟨?_, ?_, hscale, ?_, hshape, ?_⟩
  · refine ((compute_eq_error_iff storingRun _).1 storeTables contendedTree _).2 (.inl ?_)
    exact ⟨_, ⟨2, rfl, .inr (by decide +kernel), rfl⟩, rfl⟩
  · refine ((compute_eq_error_iff storingRun _).1 storeTables contendedTree _).2
      (.inr ⟨?_, .inr ⟨?_, .inl ?_⟩⟩)
    · rintro _ ⟨_, ⟨_, hnone, _⟩, _⟩
      cases hnone
    · rintro _ ⟨_, ⟨hempty, _⟩, _⟩
      cases hempty
    · exact ⟨_, ⟨[1], 5, [3], rfl, by decide, by decide, rfl⟩, rfl⟩
  · cases h : Report.compute storeTables (storingRun.setCounter Stat.elapsedTime [1])
        contendedTree (unfiltered false) with
    | ok report => exact ⟨report, rfl⟩
    | error e => cases hreport.symm.trans ((htimes hscale [1] storeTables contendedTree e).1 h)
  · cases h : Report.compute ⟨.empty, 0⟩ (storingRun.setCounter ".cpiBase" [0, -1]) ⟨[]⟩
        (unfiltered false) with
    | ok report => exact ⟨report, rfl⟩
    | error e => cases hreport.symm.trans ((hvalues _ hshape _ _ _ _ e).2 h)

end CycleAccounting
