import CycleAccounting.Program
import CycleAccounting.Proofs.Directory

/-!
# Invocations of the program

An invocation reads three documents and computes a report before it writes anything, and writes at
most once.  What it reads is described without the steps of the program: `Program.Computes` says
which report the documents of a directory give, and `report_yields` that the program finds exactly
this report, or none if there is none, and leaves the directory as it is.

**`clean_history`** follows from this for every run of invocations, each in the directory that the
last one left, also where the documents of one are what another has written.  It holds however
command lines and documents are read (`Readers`), so in particular for what the program does with
them (`history`).
-/

namespace CycleAccounting

/-- The document at a path has a value. -/
def Directory.Reads {β ε : Type} (d : Directory) (parse : String → Except ε β) (path : String)
    (v : β) : Prop :=
  ∃ text, d.read path = .ok text ∧ parse text = .ok v

namespace Program

/-! ## Computations that only read -/

/-- In a directory, which it leaves as it is, a computation gives the values that have a property,
and fails if there is none. -/
def Yields {ε β : Type} (x : ExceptT ε (StateM Directory) β) (d : Directory) (P : β → Prop) :
    Prop :=
  ∃ outcome : Except ε β, x.run.run d = (outcome, d) ∧ ∀ v, outcome = .ok v ↔ P v

section Yields

variable {ε ε' β γ : Type} {d : Directory} {P : β → Prop}

lemma yields_pure (v : β) : Yields (pure v : ExceptT ε (StateM Directory) β) d (v = ·) :=
  ⟨.ok v, rfl, fun _ => by rw [Except.ok.injEq]⟩

lemma yields_throw (e : ε) : Yields (throw e : ExceptT ε (StateM Directory) β) d fun _ => False :=
  ⟨.error e, rfl, by simp⟩

lemma Yields.bind {x : ExceptT ε (StateM Directory) β} {f : β → ExceptT ε (StateM Directory) γ}
    {Q : β → γ → Prop} (hx : Yields x d P) (hf : ∀ v, P v → Yields (f v) d (Q v)) :
    Yields (x >>= f) d fun w => ∃ v, P v ∧ Q v w := by
  obtain ⟨outcome, hrun, hvalue⟩ := hx
  cases outcome with
  | error e =>
      refine ⟨.error e, ?_, ?_⟩
      · rw [ExceptT.run_bind, StateT.run_bind, hrun]
        rfl
      · intro w
        refine iff_of_false nofun ?_
        rintro ⟨v, hv, -⟩
        cases (hvalue v).2 hv
  | ok v =>
      have hv : P v := (hvalue v).1 rfl
      obtain ⟨outcome, hnext, hresult⟩ := hf v hv
      refine ⟨outcome, ?_, ?_⟩
      · rw [ExceptT.run_bind, StateT.run_bind, hrun]
        exact hnext
      · intro w
        rw [hresult w]
        constructor
        · exact fun hw => ⟨v, hv, hw⟩
        · rintro ⟨v', hv', hw⟩
          obtain rfl := Except.ok.inj ((hvalue v').2 hv')
          exact hw

/-- Reading a file changes none. -/
lemma Yields.read {path : String} {f : Except FileFault String → ExceptT ε (StateM Directory) β}
    (h : Yields (f (d.read path)) d P) :
    Yields (ExceptT.lift (Directory.asFiles.read path) >>= f) d P := by
  obtain ⟨outcome, hrun, hvalue⟩ := h
  exact ⟨outcome, hrun, hvalue⟩

/-- Another kind of error makes no difference to the values. -/
lemma Yields.adapt {x : ExceptT ε (StateM Directory) β} (h : Yields x d P) (g : ε → ε') :
    Yields (x.adapt g) d P := by
  obtain ⟨outcome, hrun, hvalue⟩ := h
  refine ⟨outcome.mapError g, ?_, ?_⟩
  · have hmap : (x.adapt g).run = (Except.mapError g <$> x.run) := rfl
    rw [hmap, StateT.run_map, hrun]
    rfl
  · intro v
    rw [← hvalue v]
    cases outcome <;> simp [Except.mapError]

end Yields

/-! ## What an invocation computes -/

/-- The options of an invocation: those in its file, if it names one, under the command line. -/
def HasOptions (readers : Readers) (d : Directory) (line : CommandLine) (o : Options Double) :
    Prop :=
  match line.config with
  | some path => ∃ base, d.Reads readers.options path base ∧ line.options base = o
  | none => line.options .standard = o

/-- The tree of an invocation: the one in its file, simplified if asked for, or a built-in one. -/
def HasTree (readers : Readers) (d : Directory) (line : CommandLine) (o : Options Double)
    (t : Tree Double) : Prop :=
  match line.tree with
  | some path =>
    ∃ own, d.Reads readers.tree path own
      ∧ (if o.simplified then own.simplify .standard else own) = t
  | none => o.treeVariant.tree = t

/-- All documents that a command line names can be read in a directory, and a report of them is
computed. -/
def Computes (readers : Readers) (d : Directory) (line : CommandLine) (r : Report Double) : Prop :=
  ∃ o, HasOptions readers d line o ∧ ∃ t, HasTree readers d line o t
    ∧ ∃ run, d.Reads readers.results line.results run
      ∧ Report.compute .standard run t o = .ok r

variable (readers : Readers) (d : Directory) (line : CommandLine)

lemma load_yields {β ε : Type} (kind : DocumentKind) (parse : String → Except (DocumentError ε) β)
    (path : String) : Yields (load Directory.asFiles kind parse path) d (d.Reads parse path) := by
  refine .read ?_
  unfold Directory.Reads
  cases d.read path with
  | error fault => simpa using yields_throw _
  | ok text =>
      cases hvalue : parse text with
      | error e => simpa [hvalue] using yields_throw _
      | ok v => simpa [hvalue] using yields_pure v

lemma options_yields : Yields (options readers Directory.asFiles line) d
    (HasOptions readers d line) := by
  rw [options]
  unfold HasOptions
  cases line.config with
  | none => exact yields_pure _
  | some path =>
      exact ((load_yields d .options readers.options path).adapt Failure.options).bind
        fun base _ => yields_pure _

lemma tree_yields (o : Options Double) : Yields (tree readers Directory.asFiles line o) d
    (HasTree readers d line o) := by
  rw [tree]
  unfold HasTree
  cases line.tree with
  | none => exact yields_pure _
  | some path =>
      exact ((load_yields d .tree readers.tree path).adapt Failure.tree).bind
        fun own _ => yields_pure _

/-- **An invocation finds the report of its documents**, and touches no file. -/
theorem report_yields : Yields (report readers Directory.asFiles line) d
    (Computes readers d line) := by
  refine (options_yields readers d line).bind ?_
  intro o _
  refine (tree_yields readers d line o).bind ?_
  intro t _
  refine ((load_yields d .results readers.results line.results).adapt Failure.results).bind ?_
  intro run _
  cases hreport : Report.compute .standard run t o with
  | ok r => simpa using yields_pure r
  | error e => simpa using yields_throw _

/-! ## One invocation -/

variable {readers d line}
variable {r : Report Double} {path : String}

lemma run_carryOut_of_not_computes (h : ¬ ∃ r, Computes readers d line r) :
    ∃ messages, (carryOut readers Directory.asFiles line).run d = (⟨1, "", messages⟩, d) := by
  obtain ⟨outcome, hrun, hvalue⟩ := report_yields readers d line
  cases outcome with
  | ok r => exact absurd ⟨r, (hvalue r).1 rfl⟩ h
  | error failure =>
      refine ⟨Failure.text failure.chain, ?_⟩
      rw [carryOut, StateT.run_bind, hrun]
      rfl

lemma run_report (h : Computes readers d line r) :
    (report readers Directory.asFiles line).run.run d = pure (.ok r, d) := by
  obtain ⟨outcome, hrun, hvalue⟩ := report_yields readers d line
  rw [hrun, (hvalue r).2 h]
  rfl

lemma computes_unique {r' : Report Double} (h : Computes readers d line r)
    (h' : Computes readers d line r') : r = r' := by
  obtain ⟨outcome, -, hvalue⟩ := report_yields readers d line
  exact Except.ok.inj (((hvalue r).2 h).symm.trans ((hvalue r').2 h'))

/-- An invocation that is to write no row. -/
lemma run_carryOut_of_computes (h : Computes readers d line r) (hcsv : line.csv = none) :
    (carryOut readers Directory.asFiles line).run d = (⟨0, r.render, warnings r⟩, d) := by
  rw [carryOut, StateT.run_bind, run_report h]
  simp only [hcsv]
  rfl

/-- An invocation that is to write a row shows its report also if it cannot. -/
lemma run_carryOut_of_csv (h : Computes readers d line r) (hcsv : line.csv = some path) :
    (carryOut readers Directory.asFiles line).run d
      = match d.append path (r.csvLines line.jobName (line.has .csvHeader)) with
        | .ok after => (⟨0, r.render, warnings r⟩, after)
        | .error e =>
          (⟨1, r.render, warnings r ++ Failure.text (Failure.csv path e).chain⟩, d) := by
  rw [carryOut, StateT.run_bind, run_report h, pure_bind]
  simp only [hcsv, appendRow]
  rw [StateT.run_bind]
  cases happend : d.append path (r.csvLines line.jobName (line.has .csvHeader)) with
  | ok after =>
      rw [Directory.run_append happend]
      rfl
  | error e =>
      rw [Directory.run_append_of_error happend]
      rfl

/-- The rows of a report are behind what was in a file before: its summary row, under the label
that the command line gives it, and above this a header if the command line asks for one. -/
def Recorded (before : Directory) (line : CommandLine) (path : String) (r : Report Double)
    (after : Directory) : Prop :=
  before.Extends path
    ((if line.has .csvHeader then Csv.headerLine r.names else "")
      ++ Csv.rowLine line.jobName r.summaryRow) after

/-- An invocation with some arguments leaves no half result: in one directory it has this result,
and leaves the other. -/
structure Clean (readers : Readers) (before : Directory) (args : List String) (result : Outcome)
    (after : Directory) : Prop where
  /-- The files are as they were, or one of them has the rows of the report behind it. -/
  files : after = before ∨ ∃ line r path, readers.commandLine args = .ok line
    ∧ line.csv = some path ∧ Computes readers before line r ∧ result.exitCode = 0
    ∧ Recorded before line path r after
  /-- Without a report, whatever the reason, nothing is shown or written. -/
  refused : readers.commandLine args ≠ .error .helpRequested →
    readers.commandLine args ≠ .error .versionRequested →
    (¬ ∃ line r, readers.commandLine args = .ok line ∧ Computes readers before line r) →
    result.exitCode ≠ 0 ∧ result.output = "" ∧ after = before
  /-- A report is shown, and its rows are written if there is a place for them. -/
  accepted : ∀ line r, readers.commandLine args = .ok line → Computes readers before line r →
    (∀ path, line.csv = some path → before.Takes path) →
    result.exitCode = 0 ∧ result.output = r.render
      ∧ ∀ path, line.csv = some path → Recorded before line path r after

section

variable {args : List String} (hargs : readers.commandLine args = .ok line)
include hargs

lemma clean_of_not_computes (h : ¬ ∃ r, Computes readers d line r) (messages : String) :
    Clean readers d args ⟨1, "", messages⟩ d where
  files := .inl rfl
  refused _ _ _ := ⟨Nat.one_ne_zero, rfl, rfl⟩
  accepted line' r hline hr _ := by
    obtain rfl := Except.ok.inj (hargs.symm.trans hline)
    exact absurd ⟨r, hr⟩ h

/-- Where there is a report, nothing is refused, and there is no other report to speak of. -/
lemma clean_of_computes {result : Outcome} {after : Directory} (h : Computes readers d line r)
    (hfiles : after = d
      ∨ result.exitCode = 0 ∧ ∃ path, line.csv = some path ∧ Recorded d line path r after)
    (hshown : (∀ path, line.csv = some path → d.Takes path) →
      result.exitCode = 0 ∧ result.output = r.render
        ∧ ∀ path, line.csv = some path → Recorded d line path r after) :
    Clean readers d args result after where
  files := by
    rcases hfiles with hsame | ⟨hcode, path, hcsv, hrecorded⟩
    · exact .inl hsame
    · exact .inr ⟨line, r, path, hargs, hcsv, h, hcode, hrecorded⟩
  refused _ _ hnone := absurd ⟨line, r, hargs, h⟩ hnone
  accepted line' r' hline hr' := by
    obtain rfl := Except.ok.inj (hargs.symm.trans hline)
    obtain rfl := computes_unique h hr'
    exact hshown

/-- **Carrying out a command line leaves no half result.** -/
theorem clean_carryOut :
    Clean readers d args ((carryOut readers Directory.asFiles line).run d).1
      ((carryOut readers Directory.asFiles line).run d).2 := by
  by_cases hreport : ∃ r, Computes readers d line r
  · obtain ⟨r, hr⟩ := hreport
    cases hcsv : line.csv with
    | none =>
        rw [run_carryOut_of_computes hr hcsv]
        refine clean_of_computes hargs hr (.inl rfl) fun _ => ⟨rfl, rfl, ?_⟩
        intro path hpath
        cases hcsv.symm.trans hpath
    | some path =>
        -- where the file can be, the row gets into it
        have hplace (htakes : ∀ path, line.csv = some path → d.Takes path) :=
          Directory.append_of_takes (htakes path hcsv)
            (r.csvLines line.jobName (line.has .csvHeader))
        rw [run_carryOut_of_csv hr hcsv]
        cases happend : d.append path (r.csvLines line.jobName (line.has .csvHeader)) with
        | ok after =>
            refine clean_of_computes hargs hr ?_ fun htakes => ⟨rfl, rfl, ?_⟩
            · exact (Directory.extends_of_append happend).imp_right
                fun hextends => ⟨rfl, path, hcsv, hextends⟩
            · intro path' hpath
              obtain rfl := Option.some.inj (hcsv.symm.trans hpath)
              obtain ⟨d', happend', hextends⟩ := hplace htakes
              obtain rfl := Except.ok.inj (happend.symm.trans happend')
              exact hextends
        | error e =>
            refine clean_of_computes hargs hr (.inl rfl) fun htakes => ?_
            obtain ⟨d', happend', -⟩ := hplace htakes
            cases happend.symm.trans happend'
  · obtain ⟨messages, hrun⟩ := run_carryOut_of_not_computes hreport
    rw [hrun]
    exact clean_of_not_computes hargs hreport messages

end

lemma run_invokeWith_of_error {args : List String} {e : UsageError}
    (hargs : readers.commandLine args = .error e) :
    ∃ result, (invokeWith readers Directory.asFiles args).run d = (result, d)
      ∧ (e ≠ .helpRequested → e ≠ .versionRequested →
        result.exitCode = 2 ∧ result.output = "") := by
  rw [invokeWith, hargs]
  cases e with
  | helpRequested => exact ⟨_, rfl, nofun⟩
  | versionRequested => exact ⟨_, rfl, nofun⟩
  | _ => exact ⟨_, rfl, fun _ _ => ⟨rfl, rfl⟩⟩

/-- **One invocation leaves no half result.** -/
theorem clean_invokeWith (readers : Readers) (d : Directory) (args : List String) :
    Clean readers d args ((invokeWith readers Directory.asFiles args).run d).1
      ((invokeWith readers Directory.asFiles args).run d).2 := by
  cases hargs : readers.commandLine args with
  | ok line =>
      rw [invokeWith, hargs]
      exact clean_carryOut hargs
  | error e =>
      obtain ⟨result, hrun, hrefused⟩ := run_invokeWith_of_error (d := d) hargs
      rw [hrun]
      refine ⟨.inl rfl, fun hhelp hversion _ => ?_, fun line r hline => ?_⟩
      · rw [hargs] at hhelp hversion
        obtain ⟨hcode, houtput⟩ := hrefused (ne_of_apply_ne _ hhelp) (ne_of_apply_ne _ hversion)
        exact ⟨hcode.trans_ne (by decide), houtput, rfl⟩
      · cases hargs.symm.trans hline

/-! ## Runs of invocations -/

/-- Of invocations one after the other, each in the directory that the last one left, none leaves a
half result. -/
inductive CleanRuns (readers : Readers) :
    Directory → List (List String) → List (Outcome × Directory) → Prop
  | done (d : Directory) : CleanRuns readers d [] []
  | next {before after : Directory} {args : List String} {rest : List (List String)}
    {result : Outcome} {results : List (Outcome × Directory)} :
    Clean readers before args result after → CleanRuns readers after rest results →
    CleanRuns readers before (args :: rest) ((result, after) :: results)

lemma cleanRuns_historyWith (readers : Readers) (d : Directory) (arguments : List (List String)) :
    CleanRuns readers d arguments (historyWith readers d arguments) := by
  induction arguments generalizing d with
  | nil => exact .done d
  | cons args rest ih => exact .next (clean_invokeWith readers d args) (ih _)

/-- What was in a file stays in it, in front of anything that an invocation adds. -/
lemma Clean.exists_holds {before after : Directory} {args : List String} {result : Outcome}
    {text : String} (h : Clean readers before args result after) (hbefore : before.Holds path text) :
    ∃ added, after.Holds path (text ++ added) := by
  rcases h.files with rfl | ⟨line, r, other, -, -, -, -, hrecorded⟩
  · refine ⟨"", ?_⟩
    rw [String.append_empty]
    exact hbefore
  · obtain ⟨added, hafter, -⟩ := Directory.holds_of_extends_at hbefore hrecorded
    exact ⟨added, hafter⟩

lemma CleanRuns.exists_holds {before : Directory} {arguments : List (List String)}
    {results : List (Outcome × Directory)} {text : String}
    (h : CleanRuns readers before arguments results) (hbefore : before.Holds path text) :
    ∀ result ∈ results, ∃ added, result.2.Holds path (text ++ added) := by
  induction h generalizing text with
  | done d => simp
  | next hclean _ ih =>
      obtain ⟨first, hfirst⟩ := hclean.exists_holds hbefore
      rw [List.forall_mem_cons]
      refine ⟨⟨first, hfirst⟩, ?_⟩
      intro result hresult
      obtain ⟨more, hmore⟩ := ih hfirst result hresult
      rw [String.append_assoc] at hmore
      exact ⟨first ++ more, hmore⟩

/-- **No invocation leaves a half result**, in any directory, after any others and however command
lines and documents are read.  Whatever invocations there are, a file that was there before the
first of them begins with what it held then. -/
theorem clean_history (readers : Readers) (d : Directory) (arguments : List (List String)) :
    CleanRuns readers d arguments (historyWith readers d arguments)
      ∧ ∀ path text, d.Holds path text → ∀ result ∈ historyWith readers d arguments,
        ∃ added, result.2.Holds path (text ++ added) := by
  have hclean := cleanRuns_historyWith readers d arguments
  exact ⟨hclean, fun _ _ => hclean.exists_holds⟩

/-- One core, with a value of every counter that a report cannot do without. -/
def steadyRun : Run Double where
  ncores := 1
  config := .empty
  counters.toList :=
    [(".cpiBase", [Amount.ofNat 60]), (Stat.cycleCount, [Amount.ofNat 100]),
      (Stat.instructionCount, [Amount.ofNat 50])]
  counters.sorted := by decide +kernel
  ncores_pos := Nat.one_pos

/-- A tree of two leaves, both of which it shows. -/
def steadyTree : Tree Double :=
  ⟨[.leaf "base" 0 (.category Category.base), .leaf "end" 0 (.category Category.imbalance)]⟩

/-- All documents are read from the file that the rows are written to, which is in a folder. -/
def circularLine (flags : List Setting) : CommandLine where
  results := "out/rows.csv"
  tree := some "out/rows.csv"
  config := some "out/rows.csv"
  csv := some "out/rows.csv"
  jobName := "job"
  cores := none
  minCompute := none
  flags := flags

/-- Every text is read as the same documents, and any argument asks for a header. -/
def circularReaders : Readers where
  commandLine args := .ok (circularLine (if args = [] then [] else [.csvHeader]))
  options _ := .ok .standard
  tree _ := .ok steadyTree
  results _ := .ok steadyRun

/-- A directory with a line in the file for the rows. -/
def rowlessDirectory : Directory :=
  ⟨(Catalog.empty.insert "out/" .empty).insert "out/rows.csv" "earlier\n".toUTF8, 1⟩

lemma exists_report_steadyRun : ∃ r, Report.compute .standard steadyRun steadyTree .standard = .ok r
    ∧ Csv.headerLine r.names = "name,base,end\n"
    ∧ Csv.rowLine "job" r.summaryRow = "job,0.600000,0.400000\n" := by
  have hlines : (Report.compute .standard steadyRun steadyTree .standard).toOption.map
        (fun r => (Csv.headerLine r.names, Csv.rowLine "job" r.summaryRow))
      = some ("name,base,end\n", "job,0.600000,0.400000\n") := by
    decide +kernel
  obtain ⟨r, hr, hlines⟩ := exists_ok_of_toOption hlines
  exact ⟨r, hr, Prod.mk.inj hlines⟩

/-- Each of two invocations reads what is in the file of the rows before it adds its own. -/
theorem clean_circularReaders :
    ∃ (r : Report Double) (result result' : Outcome) (d d' : Directory),
      Report.compute .standard steadyRun steadyTree .standard = .ok r
        ∧ rowlessDirectory.Holds "out/rows.csv" "earlier\n"
        ∧ historyWith circularReaders rowlessDirectory [["--csv-header"], []]
          = [(result, d), (result', d')]
        ∧ result.exitCode = 0 ∧ result.output = r.render
        ∧ d.read "out/rows.csv" = .ok "earlier\nname,base,end\njob,0.600000,0.400000\n"
        ∧ result'.exitCode = 0 ∧ result'.output = r.render
        ∧ d'.read "out/rows.csv"
          = .ok "earlier\nname,base,end\njob,0.600000,0.400000\njob,0.600000,0.400000\n"
        ∧ ∃ added, d'.Holds "out/rows.csv" ("earlier\n" ++ added) := by
  obtain ⟨r, hr, hheader, hrow⟩ := exists_report_steadyRun
  -- whatever rows the file has, it can be read, and more can be appended to it
  have hcomputes {d : Directory} {text : String} (h : d.Holds "out/rows.csv" text)
      (flags : List Setting) (hflags : flags = [] ∨ flags = [.csvHeader]) :
      Computes circularReaders d (circularLine flags) r := by
    have hread := Directory.read_of_holds h
    refine ⟨.standard, ⟨.standard, ⟨text, hread, rfl⟩, ?_⟩, steadyTree,
      ⟨steadyTree, ⟨text, hread, rfl⟩, rfl⟩, steadyRun, ⟨text, hread, rfl⟩, hr⟩
    rcases hflags with rfl | rfl <;> rfl
  have htakes {d : Directory} {text : String} (h : d.Holds "out/rows.csv" text)
      (flags : List Setting) (path : String) (hpath : (circularLine flags).csv = some path) :
      d.Takes path := by
    obtain rfl := Option.some.inj hpath
    exact Directory.takes_of_holds h
  have hbefore : rowlessDirectory.Holds "out/rows.csv" "earlier\n" :=
    ⟨.inside (.above 0) "out", "rows.csv", rfl, rfl⟩
  obtain ⟨hclean, hkeeps⟩ := clean_history circularReaders rowlessDirectory [["--csv-header"], []]
  have hkept := hkeeps _ _ hbefore
  generalize historyWith circularReaders rowlessDirectory [["--csv-header"], []] = results
    at hclean hkept
  cases hclean with
  | @next _ d _ _ _ _ hfirst hrest =>
      cases hrest with
      | @next _ d' _ _ result' _ hsecond hnone =>
          cases hnone
          obtain ⟨hcode, houtput, hrecorded⟩ :=
            hfirst.accepted _ r rfl (hcomputes hbefore _ (.inr rfl)) (htakes hbefore _)
          have hbetween : d.Holds "out/rows.csv"
              ("earlier\n" ++ (Csv.headerLine r.names ++ Csv.rowLine "job" r.summaryRow)) :=
            Directory.holds_of_extends hbefore (hrecorded _ rfl)
          obtain ⟨hcode', houtput', hrecorded'⟩ :=
            hsecond.accepted _ r rfl (hcomputes hbetween _ (.inl rfl)) (htakes hbetween _)
          have hafter : d'.Holds "out/rows.csv"
              ("earlier\n" ++ (Csv.headerLine r.names ++ Csv.rowLine "job" r.summaryRow)
                ++ ("" ++ Csv.rowLine "job" r.summaryRow)) :=
            Directory.holds_of_extends hbetween (hrecorded' _ rfl)
          have hlast : ∃ added, d'.Holds "out/rows.csv" ("earlier\n" ++ added) :=
            hkept (result', d') (List.mem_cons_of_mem _ List.mem_cons_self)
          rw [hheader, hrow] at hbetween hafter
          exact ⟨r, _, _, d, d', hr, hbefore, rfl, hcode, houtput,
            Directory.read_of_holds hbetween, hcode', houtput', Directory.read_of_holds hafter,
            hlast⟩

end Program

end CycleAccounting
