import Mathlib.Data.Multiset.Sort
import MmapChunker.Workers.EndToEnd
import MmapChunker.Workers.Validator

/-!
The cases of the worker proof (`examples/jsonl_multi_file_worker_proof.py`).

`run_case` has an oracle read the sources one by one. It runs the planner a number of times
and wants the same bytes each time, checks the rows against the sources, runs the workers as
often, and compares what they count with the oracle.

The planner here is any planner: `validate_plan` alone stands between its output and the
workers. `runCase_accepts_iff` says that this is enough: the comparison with the oracle
never fails. `runCase_planner` says what is left to fail with the planner of this
repository.
-/

namespace WorkerProof

open Machine Python Workers
open Cli (SourceRange)

/-! ### Source -/

/-- The lines `checksum` digests. -/
def checksumText (keys : Multiset (Int × Int)) : String :=
  String.join (((keys.dedup.map toLex).sort (· ≤ ·)).map fun key =>
    s!"{(ofLex key).1}:{(ofLex key).2}:{keys.count (ofLex key)}\n")

/-- `checksum`. `sha256` is the hexadecimal digest of a text. -/
def checksum (sha256 : String → String) (keys : Multiset (Int × Int)) : String :=
  sha256 (checksumText keys)

/-- What the loops of `expected_oracle` have seen. -/
structure Expected where
  expectedKeys : Multiset (Int × Int)
  recordCount : Nat
  valueSum : Int

/-- One record in the loops of `expected_oracle`. -/
def expectRecord (sourceIndex : Nat) (expected : Expected) (record : JsonlRecord) :
    Except PyException Expected :=
  if ((sourceIndex : Int), record.id) ∈ expected.expectedKeys then
    .error (assertionError s!"duplicate fixture record key: ({sourceIndex}, {record.id})")
  else
    .ok ⟨((sourceIndex : Int), record.id) ::ₘ expected.expectedKeys, expected.recordCount + 1,
      expected.valueSum + record.value⟩

/-- One source in the loops of `expected_oracle`. -/
def expectSource (loads : JsonLoads) (delimiter : UInt8) (expected : Expected)
    (source : List UInt8 × Nat) : Except PyException Expected := do
  let records ← decodeRecords loads source.1 delimiter
  records.foldlM (expectRecord source.2) expected

/-- `expected_oracle`. -/
def expectedOracle (env : Environment) (loads : JsonLoads) (sha256 : String → String)
    (paths : List String) (delimiter : UInt8) : Except PyException Oracle := do
  let sourceData ← paths.mapM env.openBinary
  let expected ← sourceData.zipIdx.foldlM (expectSource loads delimiter) ⟨0, 0, 0⟩
  return ⟨sourceData, sourceData.map List.length, expected.expectedKeys, expected.recordCount,
    expected.valueSum, (sourceData.map List.length).sum, checksum sha256 expected.expectedKeys⟩

/-- `Scenario`. -/
structure Scenario where
  name : String
  paths : List String
  delimiter : UInt8

/-- `invoke_planner`. -/
def invokePlanner (planner : Planner) (paths : List String) (parts : Int) (delimiter : UInt8) :
    Except PyException (List UInt8) :=
  match planner.launch (plannerArguments paths parts delimiter) with
  | .timeoutExpired =>
      .error ⟨.other "TimeoutError", "planner timed out after 120.0s: " ++ planner.cli⟩
  | .osError text =>
      .error (runtimeError ("could not execute planner " ++ planner.cli ++ ": " ++ text))
  | .completed process =>
      if process.returncode ≠ 0 then
        .error (runtimeError (s!"planner failed: status={process.returncode} stderr=" ++
          planner.stderrText process.stderr))
      else if process.stderr ≠ [] then
        .error (assertionError ("planner wrote unexpected stderr: " ++
          planner.reprBytes process.stderr))
      else .ok process.stdout

/-- `first_plan`, `rows` and `plan_checks`, which are set together. -/
structure FirstPlan where
  output : List UInt8
  rows : List RangeRow
  checks : PlanChecks

/-- One iteration of the loop of `run_case`. -/
def planAgain (oracle : Oracle) (scenario : Scenario) (requestedWorkers : Int)
    (first : Option FirstPlan) (planner : Planner) : Except PyException (Option FirstPlan) := do
  let output ← invokePlanner planner scenario.paths requestedWorkers scenario.delimiter
  match first with
  | none =>
      let rows ← parsePlan output
      let checks ← validatePlan rows oracle scenario.delimiter
      return some ⟨output, rows, checks⟩
  | some plan =>
      if output ≠ plan.output then
        throw (assertionError "repeated planner output was not byte-identical")
      return some plan

/-- `str(value)`, of a `bool`. -/
def boolText (value : Bool) : String := if value then "True" else "False"

/-- One iteration of the loop over the worker runs in `run_case`. -/
def checkRun (sha256 : String → String) (oracle : Oracle) (result : Tally) :
    Except PyException Unit :=
  let exactOnce : Bool := result.observedKeys = oracle.expectedKeys
  let checksumOk : Bool := checksum sha256 result.observedKeys = oracle.checksum
  if !exactOnce || !checksumOk then
    .error (assertionError ("worker oracle mismatch: exact_once=" ++ boolText exactOnce ++
      " checksum_ok=" ++ boolText checksumOk))
  else if result.recordCount ≠ oracle.recordCount then
    .error (assertionError "worker record count differs from independent oracle")
  else if result.valueSum ≠ oracle.valueSum then
    .error (assertionError "worker numeric aggregate differs from independent oracle")
  else if result.processedBytes ≠ oracle.totalBytes then
    .error (assertionError "worker processed-byte total differs from source coverage")
  else .ok ()

/-- What `run_case` returns, without the times and the ratios. -/
structure CaseResult where
  scenario : String
  sourceFiles : Nat
  recordCount : Nat
  totalBytes : Nat
  requestedWorkers : Int
  actualWorkers : Nat
  rangesTotal : Nat
  rangesPerWorker : List Nat
  bytesPerWorker : List Int
  minWorkerBytes : Int
  maxWorkerBytes : Int
  determinism : Bool
  coverageOk : Bool
  boundaryOk : Bool
  exactOnce : Bool
  checksumOk : Bool
  checksum : String
  numericAggregate : Int
  totalProcessedBytes : Nat
  delimiter : UInt8

/-- The dictionary at the end of `run_case`. -/
def caseResult (scenario : Scenario) (requestedWorkers : Int) (oracle : Oracle)
    (checks : PlanChecks) : CaseResult where
  scenario := scenario.name
  sourceFiles := scenario.paths.length
  recordCount := oracle.recordCount
  totalBytes := oracle.totalBytes
  requestedWorkers := requestedWorkers
  actualWorkers := checks.actualWorkers
  rangesTotal := checks.rangesTotal
  rangesPerWorker := checks.rangesPerWorker
  bytesPerWorker := checks.bytesPerWorker
  minWorkerBytes := checks.bytesPerWorker.min?.getD 0
  maxWorkerBytes := checks.bytesPerWorker.max?.getD 0
  determinism := true
  coverageOk := checks.coverageOk
  boundaryOk := checks.boundaryOk
  exactOnce := true
  checksumOk := true
  checksum := oracle.checksum
  numericAggregate := oracle.valueSum
  totalProcessedBytes := oracle.totalBytes
  delimiter := scenario.delimiter

/-- `run_case`. Each repetition has its planner process and the order in which the tasks of
its workers complete. -/
def runCase (env : Environment) (loads : JsonLoads) (sha256 : String → String)
    (scenario : Scenario) (requestedWorkers : Int) (repeats : List (Planner × List Nat)) :
    Except PyException CaseResult := do
  let oracle ← expectedOracle env loads sha256 scenario.paths scenario.delimiter
  let first ← (repeats.map Prod.fst).foldlM (planAgain oracle scenario requestedWorkers) none
  match first with
  | none => throw (assertionError "")
  | some plan =>
      let workerRuns ← (repeats.map Prod.snd).mapM fun completed =>
        executeWorkers (workerMain env loads) "120.0" completed scenario.paths plan.rows
          scenario.delimiter
      workerRuns.forM (checkRun sha256 oracle)
      return caseResult scenario requestedWorkers oracle plan.checks

/-! ### The oracle -/

section Oracle

variable {env : Environment} {loads : JsonLoads} {sha256 : String → String}
  {paths : List String} {contents : List (List UInt8)} {delimiter : UInt8}

/-- What has been seen, with a tally more. -/
def Expected.add (expected : Expected) (tally : Tally) : Expected :=
  ⟨expected.expectedKeys + tally.observedKeys, expected.recordCount + tally.recordCount,
    expected.valueSum + tally.valueSum⟩

/-- The oracle of a tally. -/
def oracleOf (sha256 : String → String) (contents : List (List UInt8)) (tally : Tally) : Oracle :=
  ⟨contents, contents.map List.length, tally.observedKeys, tally.recordCount, tally.valueSum,
    (contents.map List.length).sum, checksum sha256 tally.observedKeys⟩

/-- The loop over the records of a source wants new keys. -/
theorem foldlM_expectRecord_iff {source : Nat} {data : List UInt8} {records : List JsonlRecord}
    {expected next : Expected} (nodup : expected.expectedKeys.Nodup) :
    records.foldlM (expectRecord source) expected = .ok next ↔
      (expected.expectedKeys + (recordsTally source data records).observedKeys).Nodup ∧
        next = expected.add (recordsTally source data records) := by
  induction records generalizing expected with
  | nil =>
      have same : expected.add (recordsTally source data []) = expected := by
        cases expected
        simp [Expected.add, recordsTally, Tally.recordCount]
      rw [same]
      constructor
      · intro eq
        cases eq
        exact ⟨by simpa [recordsTally] using nodup, rfl⟩
      · rintro ⟨-, rfl⟩
        rfl
  | cons record records ih =>
      have keys : expected.expectedKeys + (recordsTally source data (record :: records)).observedKeys =
          ((source : Int), record.id) ::ₘ expected.expectedKeys +
            (recordsTally source data records).observedKeys := by
        simp [recordsTally, ← Multiset.cons_coe]
      rw [List.foldlM_cons, expectRecord, keys]
      by_cases old : ((source : Int), record.id) ∈ expected.expectedKeys
      · rw [if_pos old]
        constructor
        · intro eq
          cases eq
        · rintro ⟨all, -⟩
          rw [Multiset.cons_add, Multiset.nodup_cons] at all
          exact absurd (Multiset.mem_add.mpr (.inl old)) all.1
      · rw [if_neg old]
        refine (ih (Multiset.nodup_cons.mpr ⟨old, nodup⟩)).trans (and_congr Iff.rfl ?_)
        have same : Expected.add ⟨((source : Int), record.id) ::ₘ expected.expectedKeys,
            expected.recordCount + 1, expected.valueSum + record.value⟩
            (recordsTally source data records) =
            expected.add (recordsTally source data (record :: records)) := by
          unfold Expected.add
          rw [keys]
          simp only [recordsTally, Tally.recordCount, List.map_cons, List.sum_cons,
            Multiset.coe_card, List.length_cons, List.length_map, Expected.mk.injEq, true_and]
          constructor
          · omega
          · omega
        rw [same]

/-- The loop over the sources comes to their tally, if it has no key twice. -/
theorem foldlM_expectSource_iff {sources : List (List UInt8 × Nat)} {expected next : Expected}
    (nodup : expected.expectedKeys.Nodup) :
    sources.foldlM (expectSource loads delimiter) expected = .ok next ↔
      ∃ tally : Tally,
        (sources.map fun source => dataTally loads delimiter source.2 source.1).sum = tally ∧
        (expected.expectedKeys + tally.observedKeys).Nodup ∧ next = expected.add tally := by
  induction sources generalizing expected with
  | nil =>
      have same : expected.add 0 = expected := by
        cases expected
        simp [Expected.add, Tally.recordCount]
      constructor
      · intro eq
        cases eq
        exact ⟨0, rfl, by simpa using nodup, same.symm⟩
      · rintro ⟨tally, eq, -, rfl⟩
        cases WithTop.coe_injective eq
        exact congrArg _ same.symm
  | cons source sources ih =>
      obtain ⟨data, k⟩ := source
      have sum : ∀ tally : WithTop Tally,
          (((data, k) :: sources).map fun source =>
            dataTally loads delimiter source.2 source.1).sum = tally ↔
          dataTally loads delimiter k data +
            (sources.map fun source => dataTally loads delimiter source.2 source.1).sum = tally := by
        intro tally
        rw [List.map_cons, List.sum_cons]
      rw [List.foldlM_cons, expectSource]
      simp only [sum]
      unfold dataTally
      cases decoded : decodeRecords loads data delimiter with
      | error e =>
          constructor
          · intro eq
            cases eq
          · rintro ⟨tally, eq, -⟩
            rw [WithTop.top_add] at eq
            cases eq
      | ok records =>
          have add_add : ∀ a b : Tally, (expected.add a).add b = expected.add (a + b) := by
            intro a b
            simp [Expected.add, Tally.recordCount, add_assoc]
          change (records.foldlM (expectRecord k) expected >>= _) = _ ↔ _
          dsimp only
          by_cases new : (expected.expectedKeys + (recordsTally k data records).observedKeys).Nodup
          · rw [(foldlM_expectRecord_iff nodup).mpr ⟨new, rfl⟩]
            refine (ih new).trans ?_
            constructor
            · rintro ⟨rest, eq, nodupRest, rfl⟩
              refine ⟨recordsTally k data records + rest, ?_, ?_, add_add _ _⟩
              · rw [WithTop.coe_add, ← eq]
                rfl
              · rw [Tally.observedKeys_add, ← add_assoc]
                exact nodupRest
            · rintro ⟨tally, eq, nodupAll, rfl⟩
              rw [WithTop.add_eq_coe] at eq
              obtain ⟨here, rest, eqHere, eqRest, rfl⟩ := eq
              cases WithTop.coe_injective eqHere
              refine ⟨rest, eqRest.symm, ?_, (add_add _ _).symm⟩
              rw [Tally.observedKeys_add, ← add_assoc] at nodupAll
              exact nodupAll
          · constructor
            · intro eq
              cases ran : records.foldlM (expectRecord k) expected with
              | error e =>
                  rw [ran] at eq
                  cases eq
              | ok middle =>
                  obtain ⟨again, -⟩ := (foldlM_expectRecord_iff nodup).mp ran
                  exact absurd again new
            · rintro ⟨tally, eq, nodupAll, -⟩
              rw [WithTop.add_eq_coe] at eq
              obtain ⟨here, rest, eqHere, -, rfl⟩ := eq
              cases WithTop.coe_injective eqHere
              rw [Tally.observedKeys_add, ← add_assoc] at nodupAll
              exact absurd (Multiset.nodup_of_le (Multiset.le_add_right _ _) nodupAll) new

/-- Sources that can be read are read. -/
theorem mapM_eq_ok {α β ε : Type} {f : α → Except ε β} {xs : List α} {ys : List β}
    (eq : xs.map f = ys.map .ok) : xs.mapM f = .ok ys := by
  induction xs generalizing ys with
  | nil =>
      obtain rfl := List.map_eq_nil_iff.mp eq.symm
      rfl
  | cons x xs ih =>
      cases ys with
      | nil => cases eq
      | cons y ys =>
          rw [List.map_cons, List.map_cons, List.cons.injEq] at eq
          rw [List.mapM_cons, eq.1, ih eq.2]
          rfl

/-- **What the oracle expects**: the tally of the sources, if it has no key twice. -/
theorem expectedOracle_ok_iff (readable : Readable env paths contents) {oracle : Oracle} :
    expectedOracle env loads sha256 paths delimiter = .ok oracle ↔
      ∃ tally : Tally, sourcesTally loads delimiter contents = tally ∧
        tally.observedKeys.Nodup ∧ oracle = oracleOf sha256 contents tally := by
  have start : ∀ next, contents.zipIdx.foldlM (expectSource loads delimiter) ⟨0, 0, 0⟩ = .ok next ↔
      ∃ tally : Tally, sourcesTally loads delimiter contents = tally ∧
        (0 + tally.observedKeys).Nodup ∧ next = Expected.add ⟨0, 0, 0⟩ tally :=
    fun next => foldlM_expectSource_iff Multiset.nodup_zero
  have add_zero_ : ∀ tally : Tally, Expected.add ⟨0, 0, 0⟩ tally =
      ⟨tally.observedKeys, tally.recordCount, tally.valueSum⟩ := by
    intro tally
    simp [Expected.add]
  simp only [add_zero_, zero_add] at start
  rw [expectedOracle, mapM_eq_ok readable.opens]
  change (contents.zipIdx.foldlM (expectSource loads delimiter) ⟨0, 0, 0⟩ >>= _) = _ ↔ _
  constructor
  · intro eq
    cases ran : contents.zipIdx.foldlM (expectSource loads delimiter) ⟨0, 0, 0⟩ with
    | error e =>
        rw [ran] at eq
        cases eq
    | ok next =>
        rw [ran] at eq
        cases eq
        obtain ⟨tally, sum, nodup, rfl⟩ := (start next).mp ran
        exact ⟨tally, sum, nodup, rfl⟩
  · rintro ⟨tally, sum, nodup, rfl⟩
    rw [(start _).mpr ⟨tally, sum, nodup, rfl⟩]
    rfl

end Oracle

/-! ### The case -/

section Case

variable {env : Environment} {loads : JsonLoads} {sha256 : String → String}
  {scenario : Scenario} {contents : List (List UInt8)} {parts : Int} {oracle : Oracle}

/-- After the first plan the planner has to print it again. -/
theorem planAgain_some_iff {planners : List Planner} {plan : FirstPlan} {last : Option FirstPlan} :
    planners.foldlM (planAgain oracle scenario parts) (some plan) = .ok last ↔
      last = some plan ∧ ∀ planner ∈ planners,
        invokePlanner planner scenario.paths parts scenario.delimiter = .ok plan.output := by
  induction planners with
  | nil =>
      constructor
      · intro eq
        cases eq
        exact ⟨rfl, fun planner mem => (nomatch mem)⟩
      · rintro ⟨rfl, -⟩
        rfl
  | cons planner planners ih =>
      rw [List.foldlM_cons, List.forall_mem_cons, planAgain]
      cases printed : invokePlanner planner scenario.paths parts scenario.delimiter with
      | error e =>
          exact ⟨fun eq => (nomatch eq), fun both => (nomatch both.2.1)⟩
      | ok output =>
          change ((if output ≠ plan.output then _ else _) >>= _) = _ ↔ _
          by_cases same : output = plan.output
          · subst same
            rw [if_neg (not_not.mpr rfl)]
            refine ih.trans (and_congr Iff.rfl ?_)
            exact ⟨fun rest => ⟨rfl, rest⟩, fun both => both.2⟩
          · rw [if_pos same]
            constructor
            · intro eq
              cases eq
            · rintro ⟨-, eq, -⟩
              cases eq
              exact absurd rfl same

/-- The first plan is parsed and checked. -/
theorem planAgain_first_iff {planner : Planner} {last : Option FirstPlan} :
    planAgain oracle scenario parts none planner = .ok last ↔
      ∃ plan, last = some plan ∧
        invokePlanner planner scenario.paths parts scenario.delimiter = .ok plan.output ∧
        parsePlan plan.output = .ok plan.rows ∧
        validatePlan plan.rows oracle scenario.delimiter = .ok plan.checks := by
  rw [planAgain]
  constructor
  · intro eq
    cases printed : invokePlanner planner scenario.paths parts scenario.delimiter with
    | error e =>
        rw [printed] at eq
        cases eq
    | ok output =>
        rw [printed] at eq
        change (parsePlan output >>= _) = _ at eq
        cases parsed : parsePlan output with
        | error e =>
            rw [parsed] at eq
            cases eq
        | ok rows =>
            rw [parsed] at eq
            change (validatePlan rows oracle scenario.delimiter >>= _) = _ at eq
            cases valid : validatePlan rows oracle scenario.delimiter with
            | error e =>
                rw [valid] at eq
                cases eq
            | ok checks =>
                rw [valid] at eq
                cases eq
                exact ⟨⟨output, rows, checks⟩, rfl, rfl, parsed, valid⟩
  · rintro ⟨plan, rfl, printed, parsed, valid⟩
    rw [printed]
    change (parsePlan plan.output >>= _) = _
    rw [parsed]
    change (validatePlan plan.rows oracle scenario.delimiter >>= _) = _
    rw [valid]
    rfl

/-- **What the planner must print**: a plan that is accepted, each time the same. -/
theorem planAgain_none_iff {planners : List Planner} (ne : planners ≠ [])
    {last : Option FirstPlan} :
    planners.foldlM (planAgain oracle scenario parts) none = .ok last ↔
      ∃ plan, last = some plan ∧
        (∀ planner ∈ planners,
          invokePlanner planner scenario.paths parts scenario.delimiter = .ok plan.output) ∧
        parsePlan plan.output = .ok plan.rows ∧
        validatePlan plan.rows oracle scenario.delimiter = .ok plan.checks := by
  obtain ⟨planner, planners, rfl⟩ := List.exists_cons_of_ne_nil ne
  rw [List.foldlM_cons]
  constructor
  · intro eq
    cases first : planAgain oracle scenario parts none planner with
    | error e =>
        rw [first] at eq
        cases eq
    | ok middle =>
        rw [first] at eq
        obtain ⟨plan, rfl, printed, parsed, valid⟩ := planAgain_first_iff.mp first
        obtain ⟨rfl, again⟩ := planAgain_some_iff.mp eq
        exact ⟨plan, rfl, List.forall_mem_cons.mpr ⟨printed, again⟩, parsed, valid⟩
  · rintro ⟨plan, rfl, all, parsed, valid⟩
    obtain ⟨printed, again⟩ := List.forall_mem_cons.mp all
    rw [planAgain_first_iff.mpr ⟨plan, rfl, printed, parsed, valid⟩]
    exact planAgain_some_iff.mpr ⟨rfl, again⟩

/-- Runs that all come to the same. -/
theorem mapM_same_iff {α β ε : Type} {f : α → Except ε β} {p : α → Prop} {b : β} {xs : List α}
    {ys : List β} (one : ∀ x y, f x = .ok y ↔ p x ∧ y = b) :
    xs.mapM f = .ok ys ↔ (∀ x ∈ xs, p x) ∧ ys = xs.map fun _ => b := by
  induction xs generalizing ys with
  | nil =>
      constructor
      · intro eq
        cases eq
        exact ⟨fun x mem => (nomatch mem), rfl⟩
      · rintro ⟨-, rfl⟩
        rfl
  | cons x xs ih =>
      rw [List.mapM_cons, List.forall_mem_cons]
      cases here : f x with
      | error e =>
          constructor
          · intro eq
            cases eq
          · rintro ⟨⟨px, -⟩, -⟩
            rw [(one x b).mpr ⟨px, rfl⟩] at here
            cases here
      | ok y =>
          obtain ⟨px, rfl⟩ := (one x y).mp here
          change (xs.mapM f >>= _) = _ ↔ _
          constructor
          · intro eq
            cases rest : xs.mapM f with
            | error e =>
                rw [rest] at eq
                cases eq
            | ok tail =>
                rw [rest] at eq
                cases eq
                obtain ⟨all, rfl⟩ := ih.mp rest
                exact ⟨⟨px, all⟩, rfl⟩
          · rintro ⟨⟨-, all⟩, rfl⟩
            rw [ih.mpr ⟨all, rfl⟩]
            rfl

/-- The workers of an accepted table come to the tally of the sources, if they complete. -/
theorem executeWorkers_table {table : List (Nat × SourceRange)} {paths : List String}
    {delimiter : UInt8} (ok : TableOk contents delimiter table)
    (readable : Readable env paths contents) {tally : Tally}
    (sources : sourcesTally loads delimiter contents = tally) (completed : List Nat)
    (result : Tally) :
    executeWorkers (workerMain env loads) "120.0" completed paths (table.map toRangeRow) delimiter =
        .ok result ↔
      (∀ i < (groupRowsByWorker (table.map toRangeRow)).length, i ∈ completed) ∧ result = tally := by
  have sum : ((table.map toRangeRow).map (rowTally env loads paths delimiter)).sum = tally :=
    (ok.sum_rows readable).trans sources
  by_cases all : ∀ i < (groupRowsByWorker (table.map toRangeRow)).length, i ∈ completed
  · obtain ⟨counted, ran, eq⟩ := executeWorkers_ok "120.0" all
      (fun top => WithTop.coe_ne_top (sum.symm.trans top))
    cases WithTop.coe_injective (sum.symm.trans eq)
    rw [ran]
    constructor
    · intro eq
      cases eq
      exact ⟨all, rfl⟩
    · rintro ⟨-, rfl⟩
      rfl
  · rw [executeWorkers_timeout "120.0" all]
    exact ⟨fun eq => (nomatch eq), fun both => absurd both.1 all⟩

/-- The comparison with the oracle passes. -/
theorem checkRun_oracleOf {tally : Tally} {delimiter : UInt8}
    (sources : sourcesTally loads delimiter contents = tally) :
    checkRun sha256 (oracleOf sha256 contents tally) tally = .ok () := by
  have bytes := processedBytes_eq sources
  simp [checkRun, oracleOf, bytes]

/-- A table whose workers see each record once is accepted. -/
theorem validatePlan_table {table : List (Nat × SourceRange)} {delimiter : UInt8}
    (ok : TableOk contents delimiter table) (tally : Tally) :
    ∃ checks, validatePlan (table.map toRangeRow) (oracleOf sha256 contents tally) delimiter =
      .ok checks :=
  ⟨_, validatePlan_ok_iff.mpr ⟨rfl, ⟨table, rfl, ok⟩, rfl⟩⟩

/-- **What a case needs to pass.** -/
theorem runCase_ok_iff (readable : Readable env scenario.paths contents)
    {repeats : List (Planner × List Nat)} (ne : repeats ≠ []) {result : CaseResult} :
    runCase env loads sha256 scenario parts repeats = .ok result ↔
      ∃ (tally : Tally) (table : List (Nat × SourceRange)) (plan : FirstPlan),
        sourcesTally loads scenario.delimiter contents = tally ∧ tally.observedKeys.Nodup ∧
        (∀ again ∈ repeats,
          invokePlanner again.1 scenario.paths parts scenario.delimiter = .ok plan.output) ∧
        parsePlan plan.output = .ok plan.rows ∧ plan.rows = table.map toRangeRow ∧
        TableOk contents scenario.delimiter table ∧
        validatePlan plan.rows (oracleOf sha256 contents tally) scenario.delimiter =
          .ok plan.checks ∧
        (∀ again ∈ repeats, ∀ i < (groupRowsByWorker plan.rows).length, i ∈ again.2) ∧
        result = caseResult scenario parts (oracleOf sha256 contents tally) plan.checks := by
  have nePlanners : repeats.map Prod.fst ≠ [] := mt List.map_eq_nil_iff.mp ne
  have runs : ∀ {tally : Tally} {table : List (Nat × SourceRange)},
      sourcesTally loads scenario.delimiter contents = tally →
      TableOk contents scenario.delimiter table → ∀ {results : List Tally},
      (repeats.map Prod.snd).mapM (fun completed =>
        executeWorkers (workerMain env loads) "120.0" completed scenario.paths
          (table.map toRangeRow) scenario.delimiter) = .ok results ↔
        (∀ completed ∈ repeats.map Prod.snd,
          ∀ i < (groupRowsByWorker (table.map toRangeRow)).length, i ∈ completed) ∧
        results = (repeats.map Prod.snd).map fun _ => tally :=
    fun sources ok _ => mapM_same_iff (executeWorkers_table ok readable sources)
  have compared : ∀ {tally : Tally},
      sourcesTally loads scenario.delimiter contents = tally →
      ((repeats.map Prod.snd).map fun _ => tally).forM
        (checkRun sha256 (oracleOf sha256 contents tally)) = .ok () := by
    intro tally sources
    rw [forM_ok_iff]
    intro result mem
    obtain ⟨_, -, rfl⟩ := List.mem_map.mp mem
    exact checkRun_oracleOf sources
  constructor
  · intro eq
    unfold runCase at eq
    cases expected : expectedOracle env loads sha256 scenario.paths scenario.delimiter with
    | error e =>
        rw [expected] at eq
        cases eq
    | ok oracle =>
        rw [expected] at eq
        obtain ⟨tally, sources, nodup, rfl⟩ := (expectedOracle_ok_iff readable).mp expected
        change ((repeats.map Prod.fst).foldlM
          (planAgain (oracleOf sha256 contents tally) scenario parts) none >>= _) = _ at eq
        cases planned : (repeats.map Prod.fst).foldlM
            (planAgain (oracleOf sha256 contents tally) scenario parts) none with
        | error e =>
            rw [planned] at eq
            cases eq
        | ok first =>
            rw [planned] at eq
            obtain ⟨plan, rfl, printed, parsed, valid⟩ := (planAgain_none_iff nePlanners).mp planned
            obtain ⟨-, ⟨table, rows, ok⟩, -⟩ := validatePlan_ok_iff.mp valid
            change ((repeats.map Prod.snd).mapM (fun completed =>
              executeWorkers (workerMain env loads) "120.0" completed scenario.paths plan.rows
                scenario.delimiter) >>= _) = _ at eq
            rw [rows] at eq
            cases ran : (repeats.map Prod.snd).mapM fun completed =>
                executeWorkers (workerMain env loads) "120.0" completed scenario.paths
                  (table.map toRangeRow) scenario.delimiter with
            | error e =>
                rw [ran] at eq
                cases eq
            | ok results =>
                rw [ran] at eq
                obtain ⟨all, rfl⟩ := (runs sources ok).mp ran
                change (((repeats.map Prod.snd).map fun _ => tally).forM
                  (checkRun sha256 (oracleOf sha256 contents tally)) >>= _) = _ at eq
                rw [compared sources] at eq
                cases eq
                exact ⟨tally, table, plan, sources, nodup,
                  fun again mem => printed _ (List.mem_map_of_mem mem), parsed, rows, ok, valid,
                  fun again mem => rows ▸ all _ (List.mem_map_of_mem mem), rfl⟩
  · rintro ⟨tally, table, plan, sources, nodup, printed, parsed, rows, ok, valid, all, rfl⟩
    have printedMap : ∀ planner ∈ repeats.map Prod.fst,
        invokePlanner planner scenario.paths parts scenario.delimiter = .ok plan.output := by
      intro planner mem
      obtain ⟨again, memAgain, rfl⟩ := List.mem_map.mp mem
      exact printed again memAgain
    have allMap : ∀ completed ∈ repeats.map Prod.snd,
        ∀ i < (groupRowsByWorker (table.map toRangeRow)).length, i ∈ completed := by
      intro completed mem
      obtain ⟨again, memAgain, rfl⟩ := List.mem_map.mp mem
      exact rows ▸ all again memAgain
    rw [runCase, (expectedOracle_ok_iff readable).mpr ⟨tally, sources, nodup, rfl⟩]
    change ((repeats.map Prod.fst).foldlM
      (planAgain (oracleOf sha256 contents tally) scenario parts) none >>= _) = _
    rw [(planAgain_none_iff nePlanners).mpr ⟨plan, rfl, printedMap, parsed, valid⟩]
    change ((repeats.map Prod.snd).mapM (fun completed =>
      executeWorkers (workerMain env loads) "120.0" completed scenario.paths plan.rows
        scenario.delimiter) >>= _) = _
    rw [rows, (runs sources ok).mpr ⟨allMap, rfl⟩]
    change (((repeats.map Prod.snd).map fun _ => tally).forM
      (checkRun sha256 (oracleOf sha256 contents tally)) >>= _) = _
    rw [compared sources]
    rfl

/-- The planner of this repository prints its plan. -/
theorem invokePlanner_prints {ω : Type} {process : Command.Process ω} {content : String → Slice}
    {paths : List String} (files : SourceFiles process env content paths) {parts : Nat}
    (pos : 1 ≤ parts) (le : parts ≤ usizeMax) (delimiter : UInt8) {planner : Planner}
    (launches : ∃ s, ∀ arguments,
      planner.launch arguments = .completed (process.main .pipe arguments s)) :
    invokePlanner planner paths parts delimiter =
      .ok (Command.writeAssignments (planOf content paths parts delimiter)) := by
  obtain ⟨s, completes⟩ := launches
  rw [invokePlanner, completes, main_plannerArguments files pos le]
  rfl

end Case

/-- What a case reports of the plan. -/
def CaseResult.checks (result : CaseResult) : PlanChecks :=
  ⟨result.rangesTotal, result.rangesPerWorker, result.bytesPerWorker, result.actualWorkers,
    result.coverageOk, result.boundaryOk⟩

/-- What a case reports is what the sources hold, and how the table lays them out. -/
structure CaseReports (sha256 : String → String) (contents : List (List UInt8)) (tally : Tally)
    (table : List (Nat × SourceRange)) (result : CaseResult) : Prop where
  recordCount : result.recordCount = tally.recordCount
  numericAggregate : result.numericAggregate = tally.valueSum
  checksum : result.checksum = WorkerProof.checksum sha256 tally.observedKeys
  totalBytes : result.totalBytes = (contents.map List.length).sum
  totalProcessedBytes : result.totalProcessedBytes = (contents.map List.length).sum
  plan : Reports table (contents.map List.length).sum result.checks

/-- **The case passes on any accepted plan.** Whatever prints the plan: once the validator
accepts it, all workers complete and the fixture has no record twice, the case passes. So
the workers count what the oracle expects, and the comparison never fails. What is then
reported is what the sources hold. -/
theorem runCase_accepts_iff (env : Environment) (loads : JsonLoads) (sha256 : String → String)
    (scenario : Scenario) (contents : List (List UInt8))
    (readable : Readable env scenario.paths contents) (requestedWorkers : Int)
    (repeats : List (Planner × List Nat)) (ne : repeats ≠ []) :
    ((∃ result, runCase env loads sha256 scenario requestedWorkers repeats = .ok result) ↔
      (∃ tally : Tally, sourcesTally loads scenario.delimiter contents = tally ∧
        tally.observedKeys.Nodup) ∧
      ∃ output table,
        (∀ again ∈ repeats, invokePlanner again.1 scenario.paths requestedWorkers
          scenario.delimiter = .ok output) ∧
        parsePlan output = .ok (table.map toRangeRow) ∧
        TableOk contents scenario.delimiter table ∧
        ∀ again ∈ repeats,
          ∀ i < (groupRowsByWorker (table.map toRangeRow)).length, i ∈ again.2) ∧
    ∀ result, runCase env loads sha256 scenario requestedWorkers repeats = .ok result →
      ∃ (tally : Tally) (output : List UInt8) (table : List (Nat × SourceRange)),
        sourcesTally loads scenario.delimiter contents = tally ∧
        (∀ again ∈ repeats, invokePlanner again.1 scenario.paths requestedWorkers
          scenario.delimiter = .ok output) ∧
        parsePlan output = .ok (table.map toRangeRow) ∧
        CaseReports sha256 contents tally table result := by
  constructor
  · constructor
    · rintro ⟨result, passed⟩
      obtain ⟨tally, table, plan, sources, nodup, printed, parsed, rows, ok, -, all, -⟩ :=
        (runCase_ok_iff readable ne).mp passed
      exact ⟨⟨tally, sources, nodup⟩, plan.output, table, printed, rows ▸ parsed, ok, rows ▸ all⟩
    · rintro ⟨⟨tally, sources, nodup⟩, output, table, printed, parsed, ok, all⟩
      obtain ⟨checks, valid⟩ := validatePlan_table ok tally
      exact ⟨_, (runCase_ok_iff readable ne).mpr
        ⟨tally, table, ⟨output, table.map toRangeRow, checks⟩, sources, nodup, printed, parsed,
          rfl, ok, valid, all, rfl⟩⟩
  · intro result passed
    obtain ⟨tally, table, plan, sources, -, printed, parsed, rows, ok, valid, -, rfl⟩ :=
      (runCase_ok_iff readable ne).mp passed
    obtain ⟨-, -, eq⟩ := validatePlan_ok_iff.mp valid
    rw [rows] at parsed eq
    refine ⟨tally, plan.output, table, sources, printed, parsed, rfl, rfl, rfl, rfl, rfl, ?_⟩
    have reports : Reports table (contents.map List.length).sum plan.checks :=
      eq ▸ planChecks_reports ok rfl
    exact reports

/-- Two repetitions on two files pass, with the workers completing in both orders. -/
theorem runCase_accepts_iff_jsonl :
    ∃ result, runCase jsonlEnvironment loadsRecord id ⟨"uniform", ["a", "b"], 10⟩ (2 : Nat)
        [(jsonlPlanner, [0, 1]), (jsonlPlanner, [1, 0])] = .ok result ∧
      result.recordCount = 2 ∧ result.numericAggregate = 4 ∧ result.totalBytes = 38 ∧
      result.checksum = checksum id {(0, 1), (1, 1)} ∧ result.bytesPerWorker.sum = 38 := by
  have files := jsonl_sourceFiles
  obtain ⟨passes, reported⟩ := runCase_accepts_iff jsonlEnvironment loadsRecord id
    ⟨"uniform", ["a", "b"], 10⟩ [jsonlFile.bytes, jsonlFile.bytes] files.readable (2 : Nat)
    [(jsonlPlanner, [0, 1]), (jsonlPlanner, [1, 0])] (List.cons_ne_nil _ _)
  have printed : invokePlanner jsonlPlanner ["a", "b"] (2 : Nat) 10 = .ok
      (Command.writeAssignments (planOf (fun _ => jsonlFile) ["a", "b"] 2 10)) := by
    exact invokePlanner_prints files (by decide) (by decide) 10 ⟨_, fun _ => rfl⟩
  have few : (groupRowsByWorker (rowsOfPlan
      (planOf (fun _ => jsonlFile) ["a", "b"] 2 10))).length ≤ 2 :=
    length_planOf_le (by decide)
  have ok := tableOk_of_contract
    (planOf_contract (by decide : 1 ≤ 2) : Cli.LogicalContract (["a", "b"].map fun _ => jsonlFile)
      2 [10] (planOf (fun _ => jsonlFile) ["a", "b"] 2 10))
  have all : ∀ again ∈ [(jsonlPlanner, [0, 1]), (jsonlPlanner, [1, 0])], ∀ i < 2, i ∈ again.2 := by
    decide
  obtain ⟨result, passed⟩ := passes.mpr ⟨⟨_, sourcesTally_jsonl, by decide⟩, _, _,
    List.forall_mem_cons.mpr ⟨printed, List.forall_mem_singleton.mpr printed⟩,
    parsePlan_planOf files (by decide) (by decide), ok,
    fun again mem i lt => all again mem i (lt.trans_le few)⟩
  obtain ⟨tally, output, table, sources, -, -, reports⟩ := reported result passed
  obtain rfl := WithTop.coe_injective (sources.symm.trans sourcesTally_jsonl)
  exact ⟨result, passed, reports.recordCount, reports.numericAggregate, reports.totalBytes,
    reports.checksum, reports.plan.bytes_sum⟩

end WorkerProof
