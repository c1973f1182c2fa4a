/-
  Jobs and their snapshots. A snapshot is succeeded exactly when its data row was written by
  the transaction that wrote it (`matches_of_run`, in every run). A failed job should leave
  its snapshot failed; the handler sees to that for a failed introspection only. Every other
  exception (a lookup, the decryption of the DSN, the redaction of the error message, a
  commit) fails the job and leaves the snapshot as it is. This file proves that those are the
  only exceptions (`consistent_of_handled_run`).
-/
import PgErdCloud.Jobs.Lifecycle

namespace PgErdCloud.Jobs

open Lib

/-! ## Snapshots and their data -/

/-- A snapshot is succeeded exactly when its data row has the same `xmin`, and no row was
    written by a transaction to come. -/
structure DataMatches (db : Db) : Prop where
  snapshotTx : ∀ id snapshot, db.snapshots.get? id = some snapshot → snapshot.xmin < db.nextTx
  dataTx : ∀ id data, db.snapshotData.get? id = some data → data.xmin < db.nextTx
  succeeded_iff : ∀ id snapshot, db.snapshots.get? id = some snapshot →
    (snapshot.status = .succeeded ↔
      ∃ data, db.snapshotData.get? id = some data ∧ data.xmin = snapshot.xmin)

/-- Transactions that write neither table. -/
theorem DataMatches.of_eq {db db' : Db} (h : DataMatches db) (hs : db'.snapshots = db.snapshots)
    (hd : db'.snapshotData = db.snapshotData) (htx : db.nextTx ≤ db'.nextTx) :
    DataMatches db' where
  snapshotTx id snapshot hget := (h.snapshotTx id snapshot (hs ▸ hget)).trans_le htx
  dataTx id data hget := (h.dataTx id data (hd ▸ hget)).trans_le htx
  succeeded_iff id snapshot hget := by
    rw [hd]
    exact h.succeeded_iff id snapshot (hs ▸ hget)

/-- Transactions that write one snapshot, and do not set it to succeeded. -/
theorem DataMatches.write {db db' : Db} (h : DataMatches db) {id : Uuid}
    {snapshot : SchemaSnapshot} (hs : db'.snapshots = db.snapshots.set id snapshot)
    (hd : db'.snapshotData = db.snapshotData) (htx : db'.nextTx = db.nextTx + 1)
    (hxmin : snapshot.xmin = db.nextTx) (hstatus : snapshot.status ≠ .succeeded) :
    DataMatches db' where
  snapshotTx id' snapshot' hget := by
    rw [hs, Dict.get?_set] at hget
    by_cases heq : id' = id
    · rw [if_pos heq, Option.some.injEq] at hget
      rw [← hget, htx, hxmin]
      exact Nat.lt_succ_self _
    · rw [if_neg heq] at hget
      exact htx ▸ Nat.lt_succ_of_lt (h.snapshotTx id' snapshot' hget)
  dataTx id' data hget := htx ▸ Nat.lt_succ_of_lt (h.dataTx id' data (hd ▸ hget))
  succeeded_iff id' snapshot' hget := by
    rw [hd]
    rw [hs, Dict.get?_set] at hget
    by_cases heq : id' = id
    · rw [if_pos heq, Option.some.injEq] at hget
      subst hget
      refine iff_of_false hstatus ?_
      -- the data row is older than this transaction
      rintro ⟨data, hdata, hx⟩
      exact absurd (hx.trans hxmin) (h.dataTx id' data hdata).ne
    · rw [if_neg heq] at hget
      exact h.succeeded_iff id' snapshot' hget

/-- The transaction that writes a succeeded snapshot together with its data. -/
theorem DataMatches.write_both {db db' : Db} (h : DataMatches db) {id : Uuid}
    {snapshot : SchemaSnapshot} {data : SchemaSnapshotData}
    (hs : db'.snapshots = db.snapshots.set id snapshot)
    (hd : db'.snapshotData = db.snapshotData.set id data) (htx : db'.nextTx = db.nextTx + 1)
    (hsx : snapshot.xmin = db.nextTx) (hdx : data.xmin = db.nextTx)
    (hstatus : snapshot.status = .succeeded) : DataMatches db' where
  snapshotTx id' snapshot' hget := by
    rw [hs, Dict.get?_set] at hget
    by_cases heq : id' = id
    · rw [if_pos heq, Option.some.injEq] at hget
      rw [← hget, htx, hsx]
      exact Nat.lt_succ_self _
    · rw [if_neg heq] at hget
      exact htx ▸ Nat.lt_succ_of_lt (h.snapshotTx id' snapshot' hget)
  dataTx id' data' hget := by
    rw [hd, Dict.get?_set] at hget
    by_cases heq : id' = id
    · rw [if_pos heq, Option.some.injEq] at hget
      rw [← hget, htx, hdx]
      exact Nat.lt_succ_self _
    · rw [if_neg heq] at hget
      exact htx ▸ Nat.lt_succ_of_lt (h.dataTx id' data' hget)
  succeeded_iff id' snapshot' hget := by
    rw [hs, Dict.get?_set] at hget
    rw [hd]
    by_cases heq : id' = id
    · rw [if_pos heq, Option.some.injEq] at hget
      subst hget heq
      exact iff_of_true hstatus ⟨data, Dict.get?_set_self _ _ _, hdx.trans hsx.symm⟩
    · rw [if_neg heq] at hget
      rw [Dict.get?_set_ne _ _ heq]
      exact h.succeeded_iff id' snapshot' hget

/-- The data of a snapshot is deleted with it, and only then. -/
theorem DataMatches.deleteSnapshots {db : Db} (h : DataMatches db)
    (doomed : Uuid → SchemaSnapshot → Bool) : DataMatches (deleteSnapshots db doomed) where
  snapshotTx id snapshot hget := by
    simp only [Jobs.deleteSnapshots, Dict.get?_filter, Option.filter_eq_some_iff] at hget
    exact Nat.lt_succ_of_lt (h.snapshotTx id snapshot hget.1)
  dataTx id data hget := by
    simp only [Jobs.deleteSnapshots, Dict.get?_filter, Option.filter_eq_some_iff] at hget
    exact Nat.lt_succ_of_lt (h.dataTx id data hget.1)
  succeeded_iff id snapshot hget := by
    simp only [Jobs.deleteSnapshots, Dict.get?_filter, Option.filter_eq_some_iff] at hget ⊢
    rw [h.succeeded_iff id snapshot hget.1]
    simp only [hget.1, Option.any_some, hget.2, and_true]

/-! ## What the handler's transactions do -/

/-- What a committed first transaction has met and done. -/
theorem startSnapshot_eq_ok {db db' : Db} {id : Uuid} {fault : Option Fault}
    (h : startSnapshot db id fault = .ok db') :
    ∃ snapshot, db.snapshots.get? id = some snapshot ∧
      db' = { db.advance with
        snapshots := db.snapshots.set id { snapshot with
          status := .running
          startedAt := some db.now
          xmin := db.nextTx } } := by
  unfold startSnapshot at h
  split at h
  · cases h
  · cases h
  · rename_i snapshot _ hget
    split at h
    · split at h <;> cases h
      exact ⟨snapshot, hget, rfl⟩
    · cases h

theorem finishSnapshot_eq_ok {db db' : Db} {id : Uuid} {data : String} {fault : Option Fault}
    (h : finishSnapshot db id data fault = .ok db') :
    ∃ snapshot, db.snapshots.get? id = some snapshot ∧
      db' = { db.advance with
        snapshots := db.snapshots.set id { snapshot with
          status := .succeeded
          finishedAt := some db.now
          errorMessage := none
          xmin := db.nextTx }
        snapshotData := db.snapshotData.set id
          (upsertSnapshotData (db.snapshotData.get? id) data db.now db.nextTx) } := by
  unfold finishSnapshot at h
  split at h <;> cases h
  rename_i snapshot hget
  exact ⟨snapshot, hget, rfl⟩

/-- The transaction after a failed introspection leaves the database as it is or sets the
    snapshot to failed. -/
theorem failSnapshot_cases (db : Db) (id : Uuid) (e : String) (fault : Option Fault) :
    ((failSnapshot db id e fault).1 = db ∧
        (fault = none → db.snapshots.get? id = none)) ∨
      ∃ snapshot, db.snapshots.get? id = some snapshot ∧
        (failSnapshot db id e fault).1 = { db.advance with
          snapshots := db.snapshots.set id { snapshot with
            status := .failed
            errorMessage := some e
            finishedAt := some db.now
            xmin := db.nextTx } } := by
  unfold failSnapshot
  split
  · exact .inl ⟨rfl, by simp⟩
  · exact .inl ⟨rfl, by simp⟩
  · rename_i hget
    exact .inl ⟨rfl, fun _ => hget⟩
  · exact .inl ⟨rfl, by simp⟩
  · rename_i snapshot hget
    exact .inr ⟨snapshot, hget, rfl⟩

/-- The first transaction raises without a fault only when the snapshot does not exist. -/
theorem snapshot_none_of_start_error {db : Db} {id : Uuid} {fault : Option Fault} {e : String}
    (hok : ((db.snapshots.get? id).all fun snapshot =>
      fault.isNone && decide (snapshot.dbConnectionUuid ∈ db.connections)) = true)
    (h : startSnapshot db id fault = .error e) : db.snapshots.get? id = none := by
  cases hget : db.snapshots.get? id with
  | none => rfl
  | some snapshot =>
      rw [hget, Option.all_some, Bool.and_eq_true, Option.isNone_iff_eq_none,
        decide_eq_true_eq] at hok
      obtain ⟨rfl, hconn⟩ := hok
      simp [startSnapshot, hget, hconn] at h

/-- So does the last transaction. -/
theorem snapshot_none_of_finish_error {db : Db} {id : Uuid} {data e : String}
    {fault : Option Fault}
    (hok : ((db.snapshots.get? id).isNone || fault.isNone) = true)
    (h : finishSnapshot db id data fault = .error e) : db.snapshots.get? id = none := by
  cases hget : db.snapshots.get? id with
  | none => rfl
  | some snapshot =>
      rw [hget, Option.isNone_some, Bool.false_or, Option.isNone_iff_eq_none] at hok
      subst hok
      simp [finishSnapshot, hget] at h

theorem upsertSnapshotData_xmin (existing : Option SchemaSnapshotData) (data : String) (now : Time)
    (tx : TxId) : (upsertSnapshotData existing data now tx).xmin = tx := by
  cases existing <;> rfl

theorem DataMatches.workerStep {s t : State} {w : WorkerId} {pc : Pc} {move : Move}
    (hs : DataMatches s.db) (h : workerStep s w pc move = some t) : DataMatches t.db := by
  fun_cases Jobs.workerStep s w pc move
  all_goals simp only [Jobs.workerStep, *, ↓reduceIte, Option.some.injEq, reduceCtorEq] at h
  all_goals subst h
  case case7 | case18 => exact hs.of_eq rfl rfl (Nat.le_succ _)
  case case11 hx =>
    obtain ⟨snapshot, -, rfl⟩ := startSnapshot_eq_ok hx
    exact hs.write rfl rfl rfl rfl (by simp)
  case case15 id job e fault db e' hx =>
    rcases failSnapshot_cases s.db job.schemaSnapshotUuid e fault with ⟨he, -⟩ | ⟨snapshot, -, he⟩
    · rw [hx] at he
      subst he
      exact hs
    · rw [hx] at he
      subst he
      exact hs.write rfl rfl rfl rfl (by simp)
  case case16 hx =>
    obtain ⟨snapshot, -, rfl⟩ := finishSnapshot_eq_ok hx
    exact hs.write_both rfl rfl rfl rfl (upsertSnapshotData_xmin _ _ _ _) rfl
  all_goals exact hs.of_eq rfl rfl (Nat.le_refl _)

theorem dataMatches_step (s : State) (a : Action) (t : State) (hs : DataMatches s.db)
    (h : step s a = some t) : DataMatches t.db := by
  cases a with
  | start w =>
      simp only [step] at h
      split at h <;> cases h
      exact hs
  | stop w =>
      simp only [step] at h
      split at h <;> cases h
      cases hpc : s.workers w <;> exact hs.of_eq rfl rfl (Nat.le_refl _)
  | work w move => exact hs.workerStep h
  | tick | drift | addConnection =>
      cases h
      exact hs.of_eq rfl rfl (Nat.le_refl _)
  | createSnapshot snapshotId jobId conn =>
      simp only [step, Option.map_eq_some_iff] at h
      obtain ⟨db, hdb, rfl⟩ := h
      unfold createSnapshot at hdb
      split at hdb <;> cases hdb
      exact hs.write rfl rfl rfl rfl (by simp)
  | deleteConnection conn =>
      cases h
      have hdel := hs.deleteSnapshots fun _ snapshot => snapshot.dbConnectionUuid = conn
      exact hdel.of_eq rfl rfl (Nat.le_refl _)
  | deleteSnapshot id =>
      cases h
      exact hs.deleteSnapshots _

theorem dataMatches_initial : DataMatches State.initial.db where
  snapshotTx _ _ h := absurd h (by simp [State.initial, Db.initial])
  dataTx _ _ h := absurd h (by simp [State.initial, Db.initial])
  succeeded_iff _ _ h := absurd h (by simp [State.initial, Db.initial])

/-- **After every run, a snapshot is succeeded exactly when the transaction that wrote it
    wrote its data row.** -/
theorem matches_of_run {actions : List Action} {s : State}
    (h : run step State.initial actions = some s) : DataMatches s.db :=
  @run_invariant State Action step (fun s => DataMatches s.db) dataMatches_step _ _ _
    dataMatches_initial h

/-! ## Failed jobs -/

/-- The snapshot is failed, or does not exist. -/
def Closed (db : Db) (snapshotId : Uuid) : Prop :=
  ∀ snapshot, db.snapshots.get? snapshotId = some snapshot → snapshot.status = .failed

/-- A failed job leaves no existing snapshot in another status than failed. -/
def FailedJobsClosed (s : State) : Prop :=
  ∀ id job, s.db.jobs.get? id = some job → job.status = .failed →
    Closed s.db job.schemaSnapshotUuid

/-- The exceptions a move may meet so that the job and its snapshot stay consistent: none
    while the snapshot exists, except that of a failed introspection, and that of recording
    the failure of the job. -/
def handledMove (db : Db) : Pc → Move → Bool
  | .preparing _ job, .prepare fault =>
      (db.snapshots.get? job.schemaSnapshotUuid).all fun snapshot =>
        fault.isNone && decide (snapshot.dbConnectionUuid ∈ db.connections)
  | .failing _ job _, .fail fault | .saving _ job _, .save fault
  | .recording _ job .succeeded, .record fault =>
      (db.snapshots.get? job.schemaSnapshotUuid).isNone || fault.isNone
  | _, _ => true

/-- The step does not enter the path of exceptions that nothing handles. -/
def handled (s : State) : Action → Bool
  | .work w move => handledMove s.db (s.workers w) move
  | _ => true

/-- The job has failed, or its worker is about to record that. -/
def Failing (s : State) (id : Uuid) (job : JobQueue) : Prop :=
  (s.db.jobs.get? id = some job ∧ job.status = .failed) ∨
    ∃ w e, s.workers w = .recording id job (.failed e)

/-- What holds in every state of a run whose exceptions are all handled. -/
structure Consistent (s : State) : Prop where
  orderly : Orderly s
  typed : ∀ id job, s.db.jobs.get? id = some job → job.jobType = "snapshot"
  /-- Each snapshot has one job. -/
  distinct : ∀ id id' job job', s.db.jobs.get? id = some job → s.db.jobs.get? id' = some job' →
    job.schemaSnapshotUuid = job'.schemaSnapshotUuid → id = id'
  closed : ∀ id job, Failing s id job → Closed s.db job.schemaSnapshotUuid

theorem closed_of_none {db : Db} {snapshotId : Uuid} (h : db.snapshots.get? snapshotId = none) :
    Closed db snapshotId := by
  intro snapshot hget
  exact absurd (h.symm.trans hget) (by simp)

theorem Closed.of_eq {db db' : Db} {snapshotId : Uuid} (h : Closed db snapshotId)
    (hs : db'.snapshots.get? snapshotId = db.snapshots.get? snapshotId) : Closed db' snapshotId :=
  fun snapshot hget => h snapshot (hs ▸ hget)

theorem Closed.deleteSnapshots {db : Db} {snapshotId : Uuid} (h : Closed db snapshotId)
    (doomed : Uuid → SchemaSnapshot → Bool) : Closed (deleteSnapshots db doomed) snapshotId := by
  intro snapshot hget
  simp only [Jobs.deleteSnapshots, Dict.get?_filter, Option.filter_eq_some_iff] at hget
  exact h snapshot hget.1

/-- A failing job is a row of the table. -/
theorem Failing.row {s : State} {id : Uuid} {job : JobQueue} (hs : Orderly s)
    (h : Failing s id job) : s.db.jobs.get? id = some job := by
  rcases h with ⟨hjob, -⟩ | ⟨w, e, hpc⟩
  · exact hjob
  · exact (hs.row_of_holding (by rw [hpc]; rfl)).1

/-- While a worker processes a job before recording, the job is not failing. -/
theorem Failing.ne_of_holding {s : State} {w : WorkerId} {id id' : Uuid} {job job' : JobQueue}
    (hs : Orderly s) (hc : (s.workers w).claim = .holding id job)
    (hpc : ∀ job' e, s.workers w ≠ .recording id job' (.failed e)) (h : Failing s id' job') :
    id' ≠ id := by
  rintro rfl
  rcases h with ⟨hjob, hfailed⟩ | ⟨w', e, hpc'⟩
  · have hrow := hs.row_of_holding hc
    rw [hjob, Option.some.injEq] at hrow
    rw [hrow.1, hrow.2] at hfailed
    exact absurd hfailed (by decide)
  · have hw : w' = w := hs.holder_unique hc (by rw [hpc']; rfl)
    exact hpc job' e (hw ▸ hpc')

/-- The rows keep their types and payloads in every step. -/
theorem typed_distinct_step {s t : State} {a : Action} (hs : Consistent s)
    (h : step s a = some t) :
    (∀ id job, t.db.jobs.get? id = some job → job.jobType = "snapshot") ∧
      ∀ id id' job job', t.db.jobs.get? id = some job → t.db.jobs.get? id' = some job' →
        job.schemaSnapshotUuid = job'.schemaSnapshotUuid → id = id' := by
  have hrow := @Orderly.row_of_effect s t
  have he := effect_of_step h
  constructor
  · intro id job hjob
    rcases hrow hs.orderly he hjob with ⟨row, hget, htype, -⟩ | ⟨-, htype, -⟩
    · exact htype ▸ hs.typed id row hget
    · exact htype
  · intro id id' job job' hjob hjob' heq
    rcases hrow hs.orderly he hjob with ⟨row, hget, -, hsid⟩ | ⟨-, -, hfresh, hone⟩ <;>
      rcases hrow hs.orderly he hjob' with ⟨row', hget', -, hsid'⟩ | ⟨hnew', -, hfresh', -⟩
    · exact hs.distinct id id' row row' hget hget' (by rw [hsid, hsid', heq])
    · exact absurd (hsid.trans heq) (hfresh' id row hget)
    · exact absurd (hsid'.trans heq.symm) (hfresh id' row' hget')
    · exact (hone id' job' hjob' hnew').symm

/-- A step that leaves the snapshots as they are, and after which no job fails that did not
    fail before. -/
theorem Consistent.closed_of_failing {s t : State} {id : Uuid} {job : JobQueue}
    (hs : Consistent s) (hf : Failing s id job)
    (hsnap : t.db.snapshots.get? job.schemaSnapshotUuid =
      s.db.snapshots.get? job.schemaSnapshotUuid) : Closed t.db job.schemaSnapshotUuid :=
  (hs.closed id job hf).of_eq hsnap

/-- After a move of `w` a job fails that failed before, or the one whose failure `w` is about
    to record. -/
theorem failing_of_move (s : State) {t : State} {w : WorkerId} {pc : Pc} {id : Uuid}
    {job : JobQueue} (h : Failing t id job) (hjobs : t.db.jobs = s.db.jobs)
    (hworkers : t.workers = Function.update s.workers w pc) :
    Failing s id job ∨ ∃ e, pc = .recording id job (.failed e) := by
  rcases h with ⟨hjob, hfailed⟩ | ⟨w', e, hpc⟩
  · exact .inl (.inl ⟨hjobs ▸ hjob, hfailed⟩)
  · rw [hworkers] at hpc
    by_cases h : w' = w
    · rw [h, Function.update_self] at hpc
      exact .inr ⟨e, hpc⟩
    · rw [Function.update_of_ne h] at hpc
      exact .inl (.inr ⟨w', e, hpc⟩)

/-- The snapshot of a failing job is not that of a job in process. -/
theorem Consistent.snapshot_ne {s : State} {w : WorkerId} {id id' : Uuid} {job job' : JobQueue}
    (hs : Consistent s) (hc : (s.workers w).claim = .holding id job)
    (hpc : ∀ job' e, s.workers w ≠ .recording id job' (.failed e)) (hf : Failing s id' job') :
    job'.schemaSnapshotUuid ≠ job.schemaSnapshotUuid := by
  intro heq
  have hrow := (hs.orderly.row_of_holding hc).1
  exact hf.ne_of_holding hs.orderly hc hpc
    (hs.distinct id' id job' job (hf.row hs.orderly) hrow heq)

theorem closed_workerStep {s t : State} {w : WorkerId} {pc : Pc} {move : Move} {id : Uuid}
    {job : JobQueue} (hs : Consistent s) (hok : handledMove s.db pc move = true)
    (hpc : s.workers w = pc) (h : workerStep s w pc move = some t) (hf : Failing t id job) :
    Closed t.db job.schemaSnapshotUuid := by
  fun_cases workerStep s w pc move
  all_goals simp only [workerStep, *, ↓reduceIte, Option.some.injEq, reduceCtorEq] at h
  all_goals subst h
  case case7 found marked =>
    -- the claimed job is running now
    obtain ⟨p, hp⟩ := hs.orderly found
    obtain rfl := hp.of_marked (congrArg Pc.claim hpc)
    have hrunning : marked.status = .running := by
      cases hp with
      | locked _ row now _ _ _ _ hclaim =>
          rw [hpc, Pc.claim, Claim.marked.injEq] at hclaim
          rw [hclaim.2]
          rfl
    rcases hf with ⟨hjob, hfailed⟩ | ⟨w', e, hpc'⟩
    · simp only [State.goto_db, State.withDb_db, commitClaim, Dict.get?_set] at hjob
      by_cases hid : id = found
      · rw [if_pos hid, Option.some.injEq] at hjob
        rw [← hjob, hrunning] at hfailed
        exact absurd hfailed (by decide)
      · rw [if_neg hid] at hjob
        exact hs.closed_of_failing (.inl ⟨hjob, hfailed⟩) rfl
    · rw [State.goto_workers] at hpc'
      by_cases hw : w' = w
      · rw [hw, Function.update_self] at hpc'
        cases hpc'
      · rw [Function.update_of_ne hw] at hpc'
        exact hs.closed_of_failing (.inr ⟨w', e, hpc'⟩) rfl
  case case10 found row htype =>
    have hrow := (hs.orderly.row_of_holding (congrArg Pc.claim hpc)).1
    exact absurd (hs.typed found row hrow) (by simpa [handlers] using htype)
  case case11 found row fault db hx =>
    obtain ⟨snapshot, hget, rfl⟩ := startSnapshot_eq_ok hx
    rcases failing_of_move s hf rfl rfl with hf | ⟨e, he⟩
    · have hne := hs.snapshot_ne (congrArg Pc.claim hpc) (by simp [hpc]) hf
      exact hs.closed_of_failing hf (Dict.get?_set_ne _ _ hne)
    · cases he
  case case12 found row fault e hx =>
    rcases failing_of_move s hf rfl rfl with hf | ⟨e', he⟩
    · exact hs.closed_of_failing hf rfl
    · cases he
      exact closed_of_none (snapshot_none_of_start_error hok hx)
  case case15 found row e fault db e' hx =>
    have hdb : (failSnapshot s.db row.schemaSnapshotUuid e fault).1 = db := by rw [hx]
    have hjobs := (failSnapshot_frame s.db row.schemaSnapshotUuid e fault).1
    rw [hdb] at hjobs
    have hcases := failSnapshot_cases s.db row.schemaSnapshotUuid e fault
    rw [hdb] at hcases
    rcases failing_of_move s hf hjobs rfl with hbefore | ⟨e'', he⟩
    · have hne := hs.snapshot_ne (congrArg Pc.claim hpc) (by simp [hpc]) hbefore
      rcases hcases with ⟨rfl, -⟩ | ⟨snapshot, -, rfl⟩
      · exact hs.closed_of_failing hbefore rfl
      · exact hs.closed_of_failing hbefore (Dict.get?_set_ne _ _ hne)
    · cases he
      rcases hcases with ⟨rfl, hnone⟩ | ⟨snapshot, -, rfl⟩
      · rw [handledMove, Bool.or_eq_true, Option.isNone_iff_eq_none,
          Option.isNone_iff_eq_none] at hok
        exact closed_of_none (hok.elim (fun hget => hget) hnone)
      · intro snapshot' hget
        rw [State.goto_db, State.withDb_db, Dict.get?_set_self, Option.some.injEq] at hget
        rw [← hget]
  case case16 found row data fault db hx =>
    obtain ⟨snapshot, hget, rfl⟩ := finishSnapshot_eq_ok hx
    rcases failing_of_move s hf rfl rfl with hf | ⟨e, he⟩
    · have hne := hs.snapshot_ne (congrArg Pc.claim hpc) (by simp [hpc]) hf
      exact hs.closed_of_failing hf (Dict.get?_set_ne _ _ hne)
    · cases he
  case case17 found row data fault e hx =>
    rcases failing_of_move s hf rfl rfl with hf | ⟨e', he⟩
    · exact hs.closed_of_failing hf rfl
    · cases he
      exact closed_of_none (snapshot_none_of_finish_error hok hx)
  case case18 found row outcome =>
    rcases hf with ⟨hjob, hfailed⟩ | ⟨w', e, hpc'⟩
    · simp only [State.goto_db, State.withDb_db, recordOutcome, Dict.get?_modify] at hjob
      by_cases hid : id = found
      · rw [if_pos hid, Option.map_eq_some_iff] at hjob
        obtain ⟨row', hrow', rfl⟩ := hjob
        have hrow := (hs.orderly.row_of_holding (congrArg Pc.claim hpc)).1
        rw [hrow', Option.some.injEq] at hrow
        subst hrow
        cases outcome with
        | succeeded => cases hfailed
        | failed e => exact (hs.closed found row' (.inr ⟨w, e, hpc⟩)).of_eq rfl
      · rw [if_neg hid] at hjob
        exact hs.closed_of_failing (.inl ⟨hjob, hfailed⟩) rfl
    · rw [State.goto_workers] at hpc'
      by_cases hw : w' = w
      · rw [hw, Function.update_self] at hpc'
        cases hpc'
      · rw [Function.update_of_ne hw] at hpc'
        exact hs.closed_of_failing (.inr ⟨w', e, hpc'⟩) rfl
  case case19 found row fault =>
    rcases failing_of_move s hf rfl rfl with hf | ⟨e', he⟩
    · exact hs.closed_of_failing hf rfl
    · cases he
      rw [handledMove, Option.isNone_some, Bool.or_false, Option.isNone_iff_eq_none] at hok
      exact closed_of_none hok
  all_goals
    rcases failing_of_move s hf rfl rfl with hf | ⟨e, he⟩
    · exact hs.closed_of_failing hf rfl
    · cases he

/-- Every handled step keeps the consistency. -/
theorem consistent_step (s : State) (a : Action) (t : State) (hs : Consistent s)
    (hok : handled s a = true) (h : step s a = some t) : Consistent t := by
  have hrows := typed_distinct_step hs h
  refine ⟨orderly_step s a t hs.orderly h, hrows.1, hrows.2, ?_⟩
  intro id job hf
  cases a with
  | work w move => exact closed_workerStep hs hok rfl h hf
  | start w =>
      simp only [step] at h
      split at h <;> cases h
      rcases failing_of_move s hf rfl rfl with hf | ⟨e, he⟩
      · exact hs.closed_of_failing hf rfl
      · cases he
  | stop w =>
      simp only [step] at h
      split at h <;> cases h
      have hdb : (rollback s.db (s.workers w)).jobs = s.db.jobs ∧
          (rollback s.db (s.workers w)).snapshots = s.db.snapshots := by
        cases s.workers w <;> exact ⟨rfl, rfl⟩
      rcases failing_of_move s hf hdb.1 rfl with hf | ⟨e, he⟩
      · exact hs.closed_of_failing hf (by rw [State.goto_db, State.withDb_db, hdb.2])
      · cases he
  | tick | drift | addConnection =>
      cases h
      exact hs.closed_of_failing hf rfl
  | deleteConnection conn =>
      cases h
      have hbefore : Failing s id job := hf
      exact ((hs.closed id job hbefore).deleteSnapshots _).of_eq rfl
  | deleteSnapshot snapshotId =>
      cases h
      have hbefore : Failing s id job := hf
      exact (hs.closed id job hbefore).deleteSnapshots _
  | createSnapshot snapshotId jobId conn =>
      simp only [step, Option.map_eq_some_iff] at h
      obtain ⟨db, hdb, rfl⟩ := h
      unfold createSnapshot at hdb
      split at hdb <;> cases hdb
      rename_i hnew
      -- the new job is queued, and the jobs before it have other snapshots
      have hbefore : Failing s id job := by
        rcases hf with ⟨hjob, hfailed⟩ | hrec
        · rw [State.withDb_db, Dict.get?_set] at hjob
          by_cases hid : id = jobId
          · rw [if_pos hid, Option.some.injEq] at hjob
            subst hjob
            cases hfailed
          · rw [if_neg hid] at hjob
            exact .inl ⟨hjob, hfailed⟩
        · exact .inr hrec
      have hrow := Dict.mem_items_iff.mpr (hbefore.row hs.orderly)
      exact hs.closed_of_failing hbefore (Dict.get?_set_ne _ _ (hnew.2.2.1 (id, job) hrow))

theorem consistent_initial : Consistent State.initial where
  orderly := orderly_initial
  typed _ _ h := absurd h (by simp [State.initial, Db.initial])
  distinct _ _ _ _ h := absurd h (by simp [State.initial, Db.initial])
  closed _ _ h := by
    rcases h with ⟨h, -⟩ | ⟨w, e, h⟩
    · exact absurd h (by simp [State.initial, Db.initial])
    · exact absurd h (by simp [State.initial])

/-- A failed job leaves its snapshot failed, and a snapshot is succeeded exactly when the
    transaction that wrote it wrote its data row. -/
def JobSnapshotConsistent (s : State) : Prop :=
  FailedJobsClosed s ∧
    ∀ id snapshot, s.db.snapshots.get? id = some snapshot →
      (snapshot.status = .succeeded ↔
        ∃ data, s.db.snapshotData.get? id = some data ∧ data.xmin = snapshot.xmin)

/-- **Consistency.** In every state reached by a run all of whose exceptions are handled, jobs
    and snapshots are consistent. -/
theorem consistent_of_handled_run {actions : List Action} {s : State}
    (h : run step State.initial actions = some s)
    (hall : EveryStep step (fun s a => handled s a = true) State.initial actions) :
    JobSnapshotConsistent s := by
  have hs := run_invariant_of_everyStep consistent_step consistent_initial hall h
  exact ⟨fun id job hjob hfailed => hs.closed id job (.inl ⟨hjob, hfailed⟩),
    (matches_of_run h).succeeded_iff⟩

/-- A worker takes the one job there is up to the handler's first transaction. -/
def upToHandler : List Action :=
  [.addConnection 7, .createSnapshot 1 2 7, .start 0, .work 0 (.pop true),
    .work 0 .claimById, .work 0 .commit, .work 0 .dispatch]

/-- The introspection fails, and the snapshot and the job are failed. -/
def introspectionFails : List Action :=
  upToHandler ++ [.work 0 (.prepare none), .work 0 (.introspect (.error "connection refused")),
    .work 0 (.fail none), .work 0 (.record none)]

/-- `consistent_of_handled_run` for a failed introspection. -/
theorem consistent_of_handled_run_at_introspectionFails :
    ∃ s, run step State.initial introspectionFails = some s ∧ JobSnapshotConsistent s := by
  obtain ⟨s, hs⟩ : ∃ s, run step State.initial introspectionFails = some s :=
    Option.isSome_iff_exists.mp (by decide)
  exact ⟨s, hs, consistent_of_handled_run hs (everyStep_of_checkSteps (by decide))⟩

/-- The DSN cannot be decrypted: the job is failed, and the snapshot stays queued. -/
def decryptionFails : List Action :=
  upToHandler ++ [.work 0 (.prepare (some (.decrypt "InvalidTag"))), .work 0 (.record none)]

theorem not_consistent_of_every_run :
    ¬ ∀ actions s, run step State.initial actions = some s → JobSnapshotConsistent s := by
  intro hall
  obtain ⟨s, hs⟩ : ∃ s, run step State.initial decryptionFails = some s :=
    Option.isSome_iff_exists.mp (by decide)
  have hjobs : (run step State.initial decryptionFails).bind (fun s => s.db.jobs.get? 2) =
      some ⟨"snapshot", .failed, 1, 0, 1, some "InvalidTag", some 0, some 0⟩ := by decide
  have hsnapshots : (run step State.initial decryptionFails).bind
      (fun s => s.db.snapshots.get? 1) = some ⟨7, .queued, none, none, none, 0⟩ := by decide
  rw [hs, Option.bind_some] at hjobs hsnapshots
  have hfailed := (hall decryptionFails s hs).1 2 _ hjobs rfl _ hsnapshots
  exact absurd hfailed (by decide)

end PgErdCloud.Jobs
