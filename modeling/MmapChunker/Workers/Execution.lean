import Mathlib.Algebra.BigOperators.Group.Finset.Basic
import Mathlib.Algebra.Order.Monoid.Unbundled.WithTop
import MmapChunker.Workers.Consumer

/-!
What the workers add up to (`examples/jsonl_multi_file_workers.py`).

A row is worth the tally of its range, or `⊤` if the range cannot be read or holds a record
that is refused; then so is every sum with it. `worth_runTask` says that a worker comes to
the sum over its rows, and `mapAsync_eq` that the pool puts the results in the order of the
tasks.

`execute_workers_result` says what the parent makes of the workers, whatever the order in
which they complete.
-/

namespace Workers

open Machine Python

/-! ### Tallies -/

namespace Tally

@[ext] theorem ext' {a b : Tally} (value : a.valueSum = b.valueSum)
    (bytes : a.processedBytes = b.processedBytes) (keys : a.observedKeys = b.observedKeys) :
    a = b := by
  cases a
  cases b
  cases value
  cases bytes
  cases keys
  rfl

instance : Add Tally := ⟨plus⟩

instance : Zero Tally := ⟨⟨0, 0, 0⟩⟩

@[simp] theorem valueSum_add (a b : Tally) : (a + b).valueSum = a.valueSum + b.valueSum := rfl

@[simp] theorem processedBytes_add (a b : Tally) :
    (a + b).processedBytes = a.processedBytes + b.processedBytes := rfl

@[simp] theorem observedKeys_add (a b : Tally) :
    (a + b).observedKeys = a.observedKeys + b.observedKeys := rfl

@[simp] theorem valueSum_zero : (0 : Tally).valueSum = 0 := rfl

@[simp] theorem processedBytes_zero : (0 : Tally).processedBytes = 0 := rfl

@[simp] theorem observedKeys_zero : (0 : Tally).observedKeys = 0 := rfl

instance : AddCommMonoid Tally where
  add_assoc a b c := Tally.ext' (add_assoc _ _ _) (add_assoc _ _ _) (add_assoc _ _ _)
  zero_add a := Tally.ext' (zero_add _) (zero_add _) (zero_add _)
  add_zero a := Tally.ext' (add_zero _) (add_zero _) (add_zero _)
  add_comm a b := Tally.ext' (add_comm _ _) (add_comm _ _) (add_comm _ _)
  nsmul := nsmulRec

end Tally

/-- The tally of the records in `data`, which comes from the source with index `source`. -/
def recordsTally (source : Int) (data : List UInt8) (records : List JsonlRecord) : Tally :=
  ⟨(records.map JsonlRecord.value).sum, data.length,
    (records.map fun record => (source, record.id) : List (Int × Int))⟩

/-- The tally of data, if its records are accepted. -/
def dataTally (loads : JsonLoads) (delimiter : UInt8) (source : Int) (data : List UInt8) :
    WithTop Tally :=
  match decodeRecords loads data delimiter with
  | .error _ => ⊤
  | .ok records => (recordsTally source data records : Tally)

/-- The file of a source, if it can be opened. -/
def sourceFile (env : Environment) (paths : List String) (sourceIndex : Int) :
    Option SourceHandle :=
  (tupleItem paths sourceIndex).toOption.bind fun path =>
    (env.openBinary path).toOption.map fun file => ⟨file, env.maxOffset path⟩

/-- The bytes of a row, if they are all there. -/
def rowData (env : Environment) (paths : List String) (row : RangeRow) : Option (List UInt8) :=
  (sourceFile env paths row.sourceIndex).bind fun handle =>
    (seek handle.maxOffset row.start).toOption.bind fun offset =>
      (readBytes handle.file offset row.length).toOption.filter fun data =>
        (data.length : Int) = row.length

/-- What a row is worth. -/
def rowTally (env : Environment) (loads : JsonLoads) (paths : List String) (delimiter : UInt8)
    (row : RangeRow) : WithTop Tally :=
  match rowData env paths row with
  | none => ⊤
  | some data => dataTally loads delimiter row.sourceIndex data

/-- What a computation is worth. -/
def worth : Except PyException Tally → WithTop Tally
  | .ok tally => tally
  | .error _ => ⊤

/-! ### One worker -/

section Worker

variable {env : Environment} {loads : JsonLoads} {task : WorkerTask}
  {handles : List (Int × SourceHandle)}

/-- The loop over the records of a row adds their tally. -/
theorem foldl_records (source : Int) (records : List JsonlRecord) (tally : Tally) :
    records.foldl
        (fun tally record =>
          { tally with
            observedKeys := (source, record.id) ::ₘ tally.observedKeys
            valueSum := tally.valueSum + record.value }) tally =
      tally + ⟨(records.map JsonlRecord.value).sum, 0,
        (records.map fun record => (source, record.id) : List (Int × Int))⟩ := by
  induction records generalizing tally with
  | nil => exact (add_zero tally).symm
  | cons record records ih =>
      rw [List.foldl_cons, ih]
      apply Tally.ext'
      · simp [add_assoc]
      · simp
      · simp [← Multiset.cons_coe]

theorem openSource_toOption (sourceIndex : Int) :
    (openSource env task sourceIndex).toOption =
      (sourceFile env task.sourcePaths sourceIndex).map (sourceIndex, ·) := by
  unfold openSource sourceFile
  cases tupleItem task.sourcePaths sourceIndex with
  | error e => rfl
  | ok path =>
      cases opens : env.openBinary path with
      | ok file => simp [opens, bind, Except.bind, Except.toOption, pure, Except.pure]
      | error e =>
          by_cases os : isOSError e.type = true
          · simp [opens, os, bind, Except.bind, Except.toOption, throw, throwThe,
              MonadExceptOf.throw]
          · simp [opens, os, bind, Except.bind, Except.toOption, throw, throwThe,
              MonadExceptOf.throw]

/-- A row is worth what processing it adds. -/
theorem worth_processRow {handle : SourceHandle} (tally : Tally) (row : RangeRow)
    (opened : sourceFile env task.sourcePaths row.sourceIndex = some handle)
    (found : handles.lookup row.sourceIndex = some handle) :
    worth (processRow loads task handles tally row) =
      tally + rowTally env loads task.sourcePaths task.delimiter row := by
  rw [rowTally, rowData, opened, Option.bind_some, processRow, handleOf, found]
  change worth (seek handle.maxOffset row.start >>= _) = _
  cases seek handle.maxOffset row.start with
  | error e => exact (WithTop.add_top _).symm
  | ok offset =>
      change worth (readBytes handle.file offset row.length >>= _) = _
      simp only [Except.toOption, Option.bind_some]
      cases readBytes handle.file offset row.length with
      | error e => exact (WithTop.add_top _).symm
      | ok data =>
          rw [Option.filter_some]
          by_cases whole : (data.length : Int) = row.length
          · rw [if_pos (decide_eq_true whole)]
            change worth (if (data.length : Int) ≠ row.length then _ else _) = tally + dataTally _ _ _ _
            rw [if_neg (not_not.mpr whole)]
            unfold dataTally
            change worth (match decodeRecords loads data task.delimiter with
              | .error e => _
              | .ok records => _) = _
            cases decodeRecords loads data task.delimiter with
            | error e =>
                dsimp only
                split
                · exact (WithTop.add_top _).symm
                · exact (WithTop.add_top _).symm
            | ok records =>
                dsimp only
                rw [foldl_records, ← WithTop.coe_add]
                refine congrArg _ (Tally.ext' rfl ?_ rfl)
                simp
          · rw [if_neg (by simpa using whole)]
            change worth (if (data.length : Int) ≠ row.length then _ else _) = _
            rw [if_pos whole]
            exact (WithTop.add_top _).symm

/-- Sources that open are all there, each under its index. -/
theorem lookup_of_mapM {indices : List Int} {file : Int → Option SourceHandle}
    (opened : (indices.mapM fun i => (file i).map (i, ·)) = some handles) :
    ∀ i ∈ indices, ∃ handle, file i = some handle ∧ handles.lookup i = some handle := by
  induction indices generalizing handles with
  | nil => simp
  | cons i indices ih =>
      rw [List.mapM_cons] at opened
      cases here : file i with
      | none =>
          rw [here] at opened
          cases opened
      | some handle =>
          rw [here] at opened
          cases rest : indices.mapM fun i => (file i).map (i, ·) with
          | none =>
              rw [rest] at opened
              cases opened
          | some tail =>
              rw [rest] at opened
              cases opened
              intro j mem
              rw [Dict.lookup_cons]
              by_cases eq : j = i
              · subst eq
                exact ⟨handle, here, if_pos rfl⟩
              · rw [if_neg eq]
                exact ih rest j ((List.mem_cons.mp mem).resolve_left eq)

/-- What does not return somewhere does not return. -/
theorem exists_of_mapM_eq_none {α β : Type} {f : α → Option β} {xs : List α}
    (none_ : xs.mapM f = none) : ∃ x ∈ xs, f x = none := by
  induction xs with
  | nil => cases none_
  | cons x xs ih =>
      rw [List.mapM_cons] at none_
      cases here : f x with
      | none => exact ⟨x, List.mem_cons_self, here⟩
      | some b =>
          rw [here] at none_
          cases rest : xs.mapM f with
          | none =>
              obtain ⟨y, mem, eq⟩ := ih rest
              exact ⟨y, List.mem_cons_of_mem x mem, eq⟩
          | some bs =>
              rw [rest] at none_
              cases none_

theorem toOption_mapM {α β ε : Type} (f : α → Except ε β) (xs : List α) :
    (xs.mapM f).toOption = xs.mapM fun x => (f x).toOption := by
  induction xs with
  | nil => rfl
  | cons x xs ih =>
      rw [List.mapM_cons, List.mapM_cons, ← ih]
      cases f x with
      | error e => rfl
      | ok b => cases xs.mapM f <;> rfl

/-- One `⊤` makes a sum `⊤`. -/
theorem sum_eq_top {α : Type} {f : α → WithTop Tally} {xs : List α} {x : α} (mem : x ∈ xs)
    (top : f x = ⊤) : (xs.map f).sum = ⊤ := by
  induction xs with
  | nil => cases mem
  | cons y ys ih =>
      rw [List.map_cons, List.sum_cons]
      rcases List.mem_cons.mp mem with rfl | mem
      · rw [top, WithTop.top_add]
      · rw [ih mem, WithTop.add_top]

theorem exists_top {α : Type} {f : α → WithTop Tally} {xs : List α}
    (top : (xs.map f).sum = ⊤) : ∃ x ∈ xs, f x = ⊤ := by
  induction xs with
  | nil => cases top
  | cons x xs ih =>
      rw [List.map_cons, List.sum_cons, WithTop.add_eq_top] at top
      rcases top with here | rest
      · exact ⟨x, List.mem_cons_self, here⟩
      · obtain ⟨y, mem, eq⟩ := ih rest
        exact ⟨y, List.mem_cons_of_mem x mem, eq⟩

/-- The loop over the rows of a worker. -/
theorem worth_foldlM {rows : List RangeRow} (tally : Tally)
    (opened : ∀ row ∈ rows, ∃ handle,
      sourceFile env task.sourcePaths row.sourceIndex = some handle ∧
      handles.lookup row.sourceIndex = some handle) :
    worth (rows.foldlM (processRow loads task handles) tally) =
      tally + (rows.map (rowTally env loads task.sourcePaths task.delimiter)).sum := by
  induction rows generalizing tally with
  | nil => exact (add_zero _).symm
  | cons row rows ih =>
      obtain ⟨⟨handle, opens, found⟩, rest⟩ := List.forall_mem_cons.mp opened
      have here : worth (processRow loads task handles tally row) = _ :=
        worth_processRow tally row opens found
      rw [List.foldlM_cons, List.map_cons, List.sum_cons, ← add_assoc, ← here]
      cases processRow loads task handles tally row with
      | error e => exact (WithTop.top_add _).symm
      | ok next => exact ih next rest

/-- **A worker comes to the sum over its rows.** -/
theorem worth_runTask (env : Environment) (loads : JsonLoads) (task : WorkerTask) :
    worth (runTask env loads task) =
      (task.rows.map (rowTally env loads task.sourcePaths task.delimiter)).sum := by
  have indices : ∀ row ∈ task.rows, row.sourceIndex ∈
      (task.rows.map RangeRow.sourceIndex).dedup.mergeSort (· ≤ ·) := by
    intro row mem
    rw [List.mem_mergeSort, List.mem_dedup]
    exact List.mem_map_of_mem mem
  have opens := toOption_mapM (openSource env task)
    ((task.rows.map RangeRow.sourceIndex).dedup.mergeSort (· ≤ ·))
  simp only [openSource_toOption] at opens
  rw [runTask]
  cases opened : ((task.rows.map RangeRow.sourceIndex).dedup.mergeSort (· ≤ ·)).mapM
      (openSource env task) with
  | error e =>
      rw [opened] at opens
      obtain ⟨i, mem, none⟩ := exists_of_mapM_eq_none opens.symm
      rw [List.mem_mergeSort, List.mem_dedup, List.mem_map] at mem
      obtain ⟨row, memRow, rfl⟩ := mem
      have missing := Option.map_eq_none_iff.mp none
      refine (sum_eq_top memRow ?_).symm
      rw [rowTally, rowData, missing]
      rfl
  | ok handles =>
      rw [opened] at opens
      have found := lookup_of_mapM opens.symm
      refine (worth_foldlM ⟨0, 0, 0⟩ fun row mem => found _ (indices row mem)).trans ?_
      exact zero_add _

end Worker

/-! ### The pool -/

section Pool

variable {target : WorkerTask → WorkerResult} {tasks : List WorkerTask} {completed : List Nat}

/-- A slot holds its result once its task has completed. -/
theorem slots_eq (target : WorkerTask → WorkerResult) (tasks : List WorkerTask)
    (completed : List Nat) :
    completed.foldl (completeTask target tasks) (tasks.map fun _ => none) =
      tasks.mapIdx fun i task => if i ∈ completed then some (target task) else none := by
  induction completed using List.reverseRecOn with
  | nil =>
      apply List.ext_getElem
      · simp
      · simp
  | append_singleton completed index ih =>
      rw [List.foldl_append, ih, List.foldl_cons, List.foldl_nil, completeTask]
      cases here : tasks[index]? with
      | none =>
          have out := List.getElem?_eq_none_iff.mp here
          apply List.ext_getElem
          · simp
          · intro i lt _
            rw [List.length_mapIdx] at lt
            have ne : ¬i = index := by omega
            simp [ne]
      | some task =>
          obtain ⟨_, eq⟩ := List.getElem?_eq_some_iff.mp here
          apply List.ext_getElem
          · simp
          · intro i lt _
            by_cases same : index = i
            · subst same
              simp [eq]
            · have ne : ¬i = index := fun eq' => same eq'.symm
              simp [same, ne]

/-- An empty slot makes the pool wait. -/
theorem mapM_id_eq_none {α : Type} {slots : List (Option α)} (empty : none ∈ slots) :
    slots.mapM id = none := by
  induction slots with
  | nil => cases empty
  | cons slot slots ih =>
      rw [List.mapM_cons]
      cases slot with
      | none => rfl
      | some a =>
          have rest := (List.mem_cons.mp empty).resolve_left (by simp)
          rw [ih rest]
          rfl

/-- The results are in the order of the tasks, if all have completed. -/
theorem mapAsync_eq (target : WorkerTask → WorkerResult) (tasks : List WorkerTask)
    (completed : List Nat) : mapAsync target tasks completed =
      if ∀ i < tasks.length, i ∈ completed then some (tasks.map target) else none := by
  rw [mapAsync, slots_eq]
  split
  · rename_i all
    have done : (tasks.mapIdx fun i task =>
        if i ∈ completed then some (target task) else none) = (tasks.map target).map some := by
      apply List.ext_getElem
      · simp
      · intro i lt _
        rw [List.length_mapIdx] at lt
        simp [all i lt]
    rw [done, List.mapM_map]
    simpa using List.mapM_pure (m := Option) (f := id) (l := tasks.map target)
  · rename_i some_
    push Not at some_
    obtain ⟨i, lt, missing⟩ := some_
    apply mapM_id_eq_none
    rw [List.mem_mapIdx]
    exact ⟨i, lt, if_neg missing⟩

end Pool

/-! ### The parent -/

section Parent

variable {env : Environment} {loads : JsonLoads} {paths : List String} {rows : List RangeRow}
  {delimiter : UInt8}

/-- The task of a worker. -/
def taskOf (paths : List String) (rows : List RangeRow) (delimiter : UInt8) (worker : Int) :
    WorkerTask :=
  ⟨worker, paths, rows.filter fun row => row.workerIndex = worker, delimiter⟩

/-- Each worker has its rows. -/
theorem workerTasks_eq : workerTasks paths rows delimiter =
    ((Dict.keys (groupRowsByWorker rows)).mergeSort (· ≤ ·)).map
      (taskOf paths rows delimiter) := by
  rw [workerTasks]
  apply List.map_congr_left
  intro worker mem
  rw [List.mem_mergeSort] at mem
  have found : (groupRowsByWorker rows).lookup worker = _ := Dict.lookup_group mem
  rw [found]
  rfl

theorem mem_workerTasks {task : WorkerTask} (mem : task ∈ workerTasks paths rows delimiter) :
    ∃ worker, task = taskOf paths rows delimiter worker := by
  rw [workerTasks_eq, List.mem_map] at mem
  obtain ⟨worker, -, rfl⟩ := mem
  exact ⟨worker, rfl⟩

/-- Every row is in the task of its worker. -/
theorem taskOf_mem {row : RangeRow} (mem : row ∈ rows) :
    taskOf paths rows delimiter row.workerIndex ∈ workerTasks paths rows delimiter := by
  rw [workerTasks_eq]
  apply List.mem_map_of_mem
  rw [List.mem_mergeSort]
  exact Dict.mem_keys_collect.mpr ⟨row, mem, rfl⟩

theorem length_workerTasks :
    (workerTasks paths rows delimiter).length = (groupRowsByWorker rows).length := by
  rw [workerTasks_eq, List.length_map, List.length_mergeSort, Dict.keys, List.length_map]

theorem groupRowsByWorker_isEmpty : (groupRowsByWorker rows).isEmpty = rows.isEmpty := by
  cases rows with
  | nil => rfl
  | cons row rows =>
      have mem : row.workerIndex ∈ Dict.keys (groupRowsByWorker (row :: rows)) :=
        Dict.mem_keys_collect.mpr ⟨row, List.mem_cons_self, rfl⟩
      cases here : groupRowsByWorker (row :: rows) with
      | nil =>
          rw [here] at mem
          cases mem
      | cons _ _ => rfl

/-- The workers together come to the sum over all rows. -/
theorem sum_workerTasks {M : Type} [AddCommMonoid M] (f : RangeRow → M) :
    ((workerTasks paths rows delimiter).map fun task => (task.rows.map f).sum).sum =
      (rows.map f).sum := by
  have keys := List.mergeSort_perm (Dict.keys (groupRowsByWorker rows)) (· ≤ ·)
  have values := Dict.sum_lookup_keys (d := groupRowsByWorker rows) Dict.nodup_keys_collect
    fun group => ((group.getD []).map f).sum
  rw [workerTasks, List.map_map, ((keys.map _).sum_eq)]
  exact values.trans (Dict.sum_group f)

/-- Each row is handed to one worker, once. -/
theorem rows_workerTasks :
    ((workerTasks paths rows delimiter).flatMap WorkerTask.rows).Perm rows := by
  have singles : ∀ some_ : List RangeRow,
      (some_.map fun row => ({row} : Multiset RangeRow)).sum = some_ := by
    intro some_
    induction some_ with
    | nil => rfl
    | cons row some_ ih =>
        rw [List.map_cons, List.sum_cons, ih, Multiset.singleton_add, Multiset.cons_coe]
  have joined : ∀ tasks : List WorkerTask,
      (tasks.map fun task => (task.rows : Multiset RangeRow)).sum =
        tasks.flatMap WorkerTask.rows := by
    intro tasks
    induction tasks with
    | nil => rfl
    | cons task tasks ih =>
        rw [List.map_cons, List.sum_cons, ih, List.flatMap_cons, Multiset.coe_add]
  have once : ((workerTasks paths rows delimiter).map fun task =>
      (task.rows.map fun row => ({row} : Multiset RangeRow)).sum).sum = _ :=
    sum_workerTasks fun row => ({row} : Multiset RangeRow)
  simp only [singles, joined] at once
  exact Multiset.coe_eq_coe.mp once

/-- A worker that fails is one whose rows come to `⊤`. -/
theorem failure_workerMain (env : Environment) (loads : JsonLoads) (task : WorkerTask) :
    ((workerMain env loads task).failure? = none ↔ worth (runTask env loads task) ≠ ⊤) ∧
      ∀ worker error, (workerMain env loads task).failure? = some (worker, error) →
        worker = task.workerIndex ∧ ∃ e, runTask env loads task = .error e ∧
          error = exceptionName e.type ++ ": " ++ e.message := by
  unfold workerMain
  cases runTask env loads task with
  | error e =>
      refine ⟨⟨fun eq => (nomatch eq), fun ne => absurd rfl ne⟩, ?_⟩
      intro worker error eq
      cases eq
      exact ⟨rfl, e, rfl, rfl⟩
  | ok tally =>
      refine ⟨⟨fun _ => WithTop.coe_ne_top, fun _ => rfl⟩, ?_⟩
      intro worker error eq
      cases eq

/-- What is added up is what the workers come to. -/
theorem foldl_tallies {tasks : List WorkerTask}
    (fine : ∀ task ∈ tasks, worth (runTask env loads task) ≠ ⊤) (start : Tally) :
    ((((tasks.map (workerMain env loads)).filterMap WorkerResult.tally?).foldl Tally.plus start :
      Tally) : WithTop Tally) =
      start + (tasks.map fun task => worth (runTask env loads task)).sum := by
  induction tasks generalizing start with
  | nil => exact (add_zero _).symm
  | cons task tasks ih =>
      obtain ⟨here, rest⟩ := List.forall_mem_cons.mp fine
      rw [List.map_cons, List.map_cons, List.sum_cons]
      cases ran : runTask env loads task with
      | error e =>
          rw [ran] at here
          exact absurd rfl here
      | ok tally =>
          have result : (workerMain env loads task).tally? = some tally := by
            rw [workerMain, ran]
            rfl
          rw [List.filterMap_cons_some result, List.foldl_cons, ← add_assoc]
          exact ih rest (start.plus tally)

/-- The failure that is reported is one of those there are, of the least worker. -/
theorem least_failure {failures : List (Int × String)} {worker : Int} {error : String}
    {rest : List (Int × String)}
    (sorted : failures.mergeSort (fun a b => a.1 ≤ b.1) = (worker, error) :: rest) :
    (worker, error) ∈ failures ∧ ∀ failure ∈ failures, worker ≤ failure.1 := by
  have perm := List.mergeSort_perm failures fun a b => a.1 ≤ b.1
  have ordered := @List.pairwise_mergeSort _ (fun a b : Int × String => decide (a.1 ≤ b.1))
    (fun a b c ab bc => decide_eq_true ((of_decide_eq_true ab).trans (of_decide_eq_true bc)))
    (fun a b => by simpa using le_total a.1 b.1) failures
  rw [sorted] at perm ordered
  refine ⟨perm.mem_iff.mp List.mem_cons_self, fun failure mem => ?_⟩
  rcases List.mem_cons.mp (perm.mem_iff.mpr mem) with rfl | later
  · exact le_rfl
  · exact of_decide_eq_true ((List.pairwise_cons.mp ordered).1 failure later)

/-- What the task of a worker comes to. -/
theorem worth_taskOf (worker : Int) :
    worth (runTask env loads (taskOf paths rows delimiter worker)) =
      ((rows.filter fun row => row.workerIndex = worker).map
        (rowTally env loads paths delimiter)).sum :=
  worth_runTask env loads _

theorem sum_worth_workerTasks :
    ((workerTasks paths rows delimiter).map fun task => worth (runTask env loads task)).sum =
      (rows.map (rowTally env loads paths delimiter)).sum := by
  have tasks : ((workerTasks paths rows delimiter).map fun task =>
      (task.rows.map (rowTally env loads paths delimiter)).sum).sum =
      (rows.map (rowTally env loads paths delimiter)).sum := sum_workerTasks _
  rw [← tasks]
  congr 1
  apply List.map_congr_left
  intro task mem
  obtain ⟨worker, rfl⟩ := mem_workerTasks mem
  exact worth_runTask env loads _

/-- Once all tasks have completed the parent looks for failures. -/
theorem executeWorkers_eq (timeoutText : String) {completed : List Nat} (ne : rows ≠ [])
    (all : ∀ i < (groupRowsByWorker rows).length, i ∈ completed) :
    executeWorkers (workerMain env loads) timeoutText completed paths rows delimiter =
      match (((workerTasks paths rows delimiter).map (workerMain env loads)).filterMap
          WorkerResult.failure?).mergeSort (·.1 ≤ ·.1) with
      | (worker, error) :: _ =>
          .error (runtimeError (s!"worker phase failed: worker={worker} error=" ++ error))
      | [] => .ok ((((workerTasks paths rows delimiter).map (workerMain env loads)).filterMap
          WorkerResult.tally?).foldl Tally.plus ⟨0, 0, 0⟩) := by
  have some_ : ¬(groupRowsByWorker rows).isEmpty = true := by
    rw [groupRowsByWorker_isEmpty]
    simpa using ne
  have done : ∀ i < (workerTasks paths rows delimiter).length, i ∈ completed := by
    rw [length_workerTasks]
    exact all
  rw [executeWorkers, if_neg some_]
  dsimp only
  rewrite [mapAsync_eq, if_pos done]
  rfl

/-- A task that does not complete makes the parent give up. -/
theorem executeWorkers_timeout {target : WorkerTask → WorkerResult} (timeoutText : String)
    {completed : List Nat} (some_ : ¬∀ i < (groupRowsByWorker rows).length, i ∈ completed) :
    executeWorkers target timeoutText completed paths rows delimiter =
      .error ⟨.other "TimeoutError", "worker phase timed out after " ++ timeoutText ++
        "s; workers=" ++ listText ((Dict.keys (groupRowsByWorker rows)).mergeSort (· ≤ ·))⟩ := by
  have ne : ¬(groupRowsByWorker rows).isEmpty = true := by
    intro empty
    rw [List.isEmpty_iff.mp empty] at some_
    exact some_ fun i lt => absurd lt (Nat.not_lt_zero i)
  have waiting : ¬∀ i < (workerTasks paths rows delimiter).length, i ∈ completed := by
    rw [length_workerTasks]
    exact some_
  have workers : (workerTasks paths rows delimiter).map WorkerTask.workerIndex =
      (Dict.keys (groupRowsByWorker rows)).mergeSort (· ≤ ·) := by
    rw [workerTasks_eq, List.map_map]
    exact List.map_id _
  rw [executeWorkers, if_neg ne]
  dsimp only
  rw [mapAsync_eq, if_neg waiting, workers]

/-- Rows that can all be counted are counted. -/
theorem executeWorkers_ok (timeoutText : String) {completed : List Nat}
    (all : ∀ i < (groupRowsByWorker rows).length, i ∈ completed)
    (fine : (rows.map (rowTally env loads paths delimiter)).sum ≠ ⊤) :
    ∃ tally : Tally,
      executeWorkers (workerMain env loads) timeoutText completed paths rows delimiter =
        .ok tally ∧ (rows.map (rowTally env loads paths delimiter)).sum = tally := by
  by_cases ne : rows = []
  · subst ne
    exact ⟨0, rfl, rfl⟩
  have tasksFine : ∀ task ∈ workerTasks paths rows delimiter,
      worth (runTask env loads task) ≠ ⊤ := by
    intro task mem top
    refine fine ?_
    rw [← sum_worth_workerTasks]
    exact sum_eq_top mem top
  have none_ : ((workerTasks paths rows delimiter).map (workerMain env loads)).filterMap
      WorkerResult.failure? = [] := by
    rw [List.filterMap_eq_nil_iff]
    rintro result mem
    obtain ⟨task, memTask, rfl⟩ := List.mem_map.mp mem
    exact (failure_workerMain env loads task).1.mpr (tasksFine task memTask)
  have counted := foldl_tallies tasksFine ⟨0, 0, 0⟩
  rw [sum_worth_workerTasks] at counted
  refine ⟨_, ?_, (counted.trans (zero_add _)).symm⟩
  rw [executeWorkers_eq timeoutText ne all, none_, List.mergeSort_nil]

/-- A row that cannot be counted fails the parent. -/
theorem executeWorkers_failed (timeoutText : String) {completed : List Nat}
    (all : ∀ i < (groupRowsByWorker rows).length, i ∈ completed)
    (top : (rows.map (rowTally env loads paths delimiter)).sum = ⊤) :
    ∃ worker e, runTask env loads (taskOf paths rows delimiter worker) = .error e ∧
      executeWorkers (workerMain env loads) timeoutText completed paths rows delimiter =
        .error (runtimeError (s!"worker phase failed: worker={worker} error=" ++
          (exceptionName e.type ++ ": " ++ e.message))) ∧
      (∃ row ∈ rows, row.workerIndex = worker ∧ rowTally env loads paths delimiter row = ⊤) ∧
      ∀ row ∈ rows, rowTally env loads paths delimiter row = ⊤ → worker ≤ row.workerIndex := by
  have fails : ∀ row ∈ rows, rowTally env loads paths delimiter row = ⊤ →
      ∃ error, (row.workerIndex, error) ∈ ((workerTasks paths rows delimiter).map
        (workerMain env loads)).filterMap WorkerResult.failure? := by
    intro row mem top
    have worthTop : worth (runTask env loads (taskOf paths rows delimiter row.workerIndex)) = ⊤ := by
      rw [worth_taskOf]
      exact sum_eq_top (List.mem_filter.mpr ⟨mem, decide_eq_true rfl⟩) top
    obtain ⟨fine, index⟩ := failure_workerMain env loads
      (taskOf paths rows delimiter row.workerIndex)
    cases failed : (workerMain env loads (taskOf paths rows delimiter row.workerIndex)).failure? with
    | none => exact absurd worthTop (fine.mp failed)
    | some failure =>
        obtain ⟨worker, error⟩ := failure
        obtain rfl := (index worker error failed).1
        exact ⟨error, List.mem_filterMap.mpr
          ⟨_, List.mem_map_of_mem (taskOf_mem mem), failed⟩⟩
  obtain ⟨row, memRow, topRow⟩ := exists_top top
  have ne : rows ≠ [] := List.ne_nil_of_mem memRow
  obtain ⟨error, memFailure⟩ := fails row memRow topRow
  rw [executeWorkers_eq timeoutText ne all]
  cases sorted : (((workerTasks paths rows delimiter).map (workerMain env loads)).filterMap
      WorkerResult.failure?).mergeSort (·.1 ≤ ·.1) with
  | nil =>
      have perm := List.mergeSort_perm (((workerTasks paths rows delimiter).map
        (workerMain env loads)).filterMap WorkerResult.failure?) (·.1 ≤ ·.1)
      rw [sorted] at perm
      rw [perm.symm.eq_nil] at memFailure
      cases memFailure
  | cons failure rest =>
      obtain ⟨worker, text⟩ := failure
      obtain ⟨mem, least⟩ := least_failure sorted
      obtain ⟨result, memResult, failed⟩ := List.mem_filterMap.mp mem
      obtain ⟨task, memTask, rfl⟩ := List.mem_map.mp memResult
      obtain ⟨w, rfl⟩ := mem_workerTasks memTask
      obtain ⟨rfl, e, raised, rfl⟩ := (failure_workerMain env loads _).2 worker text failed
      refine ⟨_, e, raised, rfl, ?_, fun row mem top => ?_⟩
      · have topTask : worth (runTask env loads (taskOf paths rows delimiter worker)) = ⊤ := by
          rw [raised]
          rfl
        rw [worth_taskOf] at topTask
        obtain ⟨row, mem, topRow⟩ := exists_top topTask
        obtain ⟨memRow, here⟩ := List.mem_filter.mp mem
        exact ⟨row, memRow, of_decide_eq_true here, topRow⟩
      · obtain ⟨error, memFailure⟩ := fails row mem top
        exact least _ memFailure

end Parent

end Workers
