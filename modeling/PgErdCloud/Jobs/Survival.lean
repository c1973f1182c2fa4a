/-
  How exceptions travel through the worker loop (`run_worker_forever` and `claim_one_job` of
  app/jobs/worker.py, `pop_due_job_signal` of app/jobs/valkey_queue.py).

  One worker, await by await. An await returns, or raises: an `Exception` of the Valkey client,
  of the database driver or of the ORM, or the `CancelledError` of the task, which is not an
  `Exception`. What an await inside an `async with` block raises is what leaves the block, the
  rollback included. The answers are arbitrary, so the rows they come from are left out here;
  `worker_simulated` ties the loop to the one that has them.

  `stopped_only_cancelled_iff` is about every run of one worker: it is stopped by a cancellation
  only, exactly when no step raises where nothing catches.
-/
import PgErdCloud.Jobs.Worker

namespace PgErdCloud.Jobs

open Lib

namespace Survival

/-! ## States -/

/-- What an await raises. -/
inductive Raised
  | exception (text : String)
  | cancelled
  deriving DecidableEq

/-- What the script returns: a member that is a UUID, bytes that are none, or bytes that
    `decode("utf-8")` rejects. -/
inductive Reply
  | nil
  | uuid (id : Uuid)
  | notUuid
  | notUtf8
  deriving DecidableEq

/-- Where the loop is, between two of its awaits. -/
inductive Pc
  /-- Before `_client()`. -/
  | opening
  | evaluating
  /-- In the `finally`, with the reply, or `none` when the task was cancelled. -/
  | closing (reply : Option Reply)
  | claimingById (signal : Uuid)
  | loadingById (id : Uuid)
  /-- Before the fallback query. -/
  | claiming
  | loading (id : Uuid)
  /-- At the end of the claim transaction. -/
  | committing (job : Option JobQueue)
  | sleeping
  /-- No handler has the job's type. -/
  | recordingUnknown (job : JobQueue)
  | handling (job : JobQueue)
  | recordingSuccess (job : JobQueue)
  | publishingSuccess (job : JobQueue)
  /-- In the `except` branch. -/
  | recordingFailure (job : JobQueue) (lastError : String)
  | publishingFailure (job : JobQueue)
  /-- At the end of the session. -/
  | leaving
  | stopped (raised : Raised)
  deriving DecidableEq

/-- Where an iteration begins. `valkey` is `valkey_queue_enabled()`. -/
def top (valkey : Bool) : Pc := if valkey then .opening else .claiming

/-! ## Steps -/

/-- The answer to an await. -/
inductive Event
  | openClient (answer : Except Raised Unit)
  | evalScript (answer : Except Raised Reply)
  | closeClient (answer : Except Raised Unit)
  | selectById (answer : Except Raised (Option Uuid))
  | selectDue (answer : Except Raised (Option Uuid))
  /-- `session.get`, and the clock reading of `_mark_job_running` -/
  | getJob (answer : Except Raised (Option JobQueue)) (now : Time)
  | commitClaim (answer : Except Raised Unit)
  | sleep (cancelled : Bool)
  | handle (answer : Except Raised Unit)
  /-- The transaction that settles the job. -/
  | record (answer : Except Raised Unit)
  /-- `_publish_job_metrics`, with the reading of its arguments from the job -/
  | publish (answer : Except String Unit)
  | closeSession (answer : Except Raised Unit)

/-- An await outside of a `try`. -/
def await {α : Type} (answer : Except Raised α) (next : α → Pc) : Pc :=
  match answer with
  | .ok value => next value
  | .error raised => .stopped raised

/-- An await inside of `try … except Exception`. -/
def tryAwait {α : Type} (answer : Except Raised α) (next : α → Pc) (caught : String → Pc) :
    Pc :=
  match answer with
  | .ok value => next value
  | .error (.exception text) => caught text
  | .error .cancelled => .stopped .cancelled

/-- What `pop_due_job_signal` does with the reply. -/
def afterClose : Option Reply → Pc
  | none => .stopped .cancelled
  | some .nil | some .notUuid => .claiming
  | some (.uuid signal) => .claimingById signal
  | some .notUtf8 => .stopped (.exception "UnicodeDecodeError")

/-- The lookup of the handler. -/
def dispatch : Option JobQueue → Pc
  | none => .sleeping
  | some job => if job.jobType ∈ handlers then .handling job else .recordingUnknown job

/-- One await of the loop; `none` when the loop is not there. -/
def step (valkey : Bool) : Pc → Event → Option Pc
  | .opening, .openClient answer =>
      some (tryAwait answer (fun _ => .evaluating) fun _ => .claiming)
  | .evaluating, .evalScript answer =>
      match answer with
      | .ok reply => some (.closing (some reply))
      | .error (.exception _) => some (.closing (some .nil))
      | .error .cancelled => some (.closing none)
  | .closing reply, .closeClient answer => some (await answer fun _ => afterClose reply)
  | .claimingById _, .selectById answer =>
      some (await answer fun found => found.elim .claiming .loadingById)
  | .loadingById _, .getJob answer now =>
      some (await answer fun found =>
        found.elim .claiming fun job => .committing (some (markJobRunning job now)))
  | .claiming, .selectDue answer =>
      some (await answer fun found => found.elim (.committing none) .loading)
  | .loading _, .getJob answer now =>
      some (await answer fun found => .committing (found.map fun job => markJobRunning job now))
  | .committing job, .commitClaim answer => some (await answer fun _ => dispatch job)
  | .sleeping, .sleep cancelled => some (if cancelled then .stopped .cancelled else .leaving)
  | .recordingUnknown _, .record answer => some (await answer fun _ => .leaving)
  | .handling job, .handle answer =>
      some (tryAwait answer (fun _ => .recordingSuccess job) (.recordingFailure job))
  | .recordingSuccess job, .record answer =>
      some (tryAwait answer (fun _ => .publishingSuccess job) (.recordingFailure job))
  | .publishingSuccess job, .publish answer =>
      match answer with
      | .ok _ => some .leaving
      | .error text => some (.recordingFailure job text)
  | .recordingFailure job _, .record answer =>
      some (await answer fun _ => .publishingFailure job)
  | .publishingFailure _, .publish answer =>
      match answer with
      | .ok _ => some .leaving
      | .error text => some (.stopped (.exception text))
  | .leaving, .closeSession answer => some (await answer fun _ => top valkey)
  | _, _ => none

/-! ## Exceptions that are not caught -/

/-- An `Exception`, which the loop catches, and not a cancellation. -/
def isException {α : Type} : Except Raised α → Bool
  | .error (.exception _) => true
  | _ => false

/-- An exception that no `except` clause of the loop covers: in the `finally` of the pop and
    in the decoding of its reply, in the claim and its commit, in the transaction that settles
    a job of an unknown type or a failed one, in the metrics of a failed one, and at the end of
    the session. -/
def escapes : Pc → Event → Bool
  | .closing (some .notUtf8), .closeClient (.ok _) => true
  | .closing _, .closeClient answer => isException answer
  | .claimingById _, .selectById answer => isException answer
  | .loadingById _, .getJob answer _ => isException answer
  | .claiming, .selectDue answer => isException answer
  | .loading _, .getJob answer _ => isException answer
  | .committing _, .commitClaim answer => isException answer
  | .recordingUnknown _, .record answer => isException answer
  | .recordingFailure _ _, .record answer => isException answer
  | .publishingFailure _, .publish (.error _) => true
  | .leaving, .closeSession answer => isException answer
  | _, _ => false

/-- The loop has ended with an exception. -/
def Pc.died : Pc → Bool
  | .stopped (.exception _) => true
  | _ => false

theorem died_await {α : Type} (answer : Except Raised α) {next : α → Pc}
    (hnext : ∀ value, (next value).died = false) :
    (await answer next).died = isException answer := by
  cases answer with
  | ok value => exact hnext value
  | error raised => cases raised <;> rfl

theorem died_tryAwait {α : Type} (answer : Except Raised α) {next : α → Pc} {caught : String → Pc}
    (hnext : ∀ value, (next value).died = false) (hcaught : ∀ text, (caught text).died = false) :
    (tryAwait answer next caught).died = false := by
  cases answer with
  | ok value => exact hnext value
  | error raised =>
      cases raised with
      | exception text => exact hcaught text
      | cancelled => rfl

theorem died_top (valkey : Bool) : (top valkey).died = false := by
  cases valkey <;> rfl

theorem died_dispatch (job : Option JobQueue) : (dispatch job).died = false := by
  cases job with
  | none => rfl
  | some job =>
      rw [dispatch]
      split_ifs <;> rfl

theorem died_closing (reply : Option Reply) (answer : Except Raised Unit) :
    (await answer fun _ => afterClose reply).died =
      escapes (.closing reply) (.closeClient answer) := by
  cases answer with
  | error raised => cases raised <;> rcases reply with _ | _ | _ | _ | _ <;> rfl
  | ok value => rcases reply with _ | _ | _ | _ | _ <;> rfl

/-- An await ends the loop with an exception exactly when it raises one that is not caught. -/
theorem died_step {valkey : Bool} {pc pc' : Pc} {event : Event}
    (h : step valkey pc event = some pc') : pc'.died = escapes pc event := by
  cases pc with
  | opening =>
      cases event with
      | openClient answer =>
          exact Option.some.inj h ▸ died_tryAwait answer (fun _ => rfl) fun _ => rfl
      | _ => exact absurd h (by simp [step])
  | evaluating =>
      cases event with
      | evalScript answer => rcases answer with (_ | _) | _ <;> exact Option.some.inj h ▸ rfl
      | _ => exact absurd h (by simp [step])
  | closing reply =>
      cases event with
      | closeClient answer => exact Option.some.inj h ▸ died_closing reply answer
      | _ => exact absurd h (by simp [step])
  | claimingById signal =>
      cases event with
      | selectById answer =>
          exact Option.some.inj h ▸ died_await answer fun found => by cases found <;> rfl
      | _ => exact absurd h (by simp [step])
  | loadingById id =>
      cases event with
      | getJob answer now =>
          exact Option.some.inj h ▸ died_await answer fun found => by cases found <;> rfl
      | _ => exact absurd h (by simp [step])
  | claiming =>
      cases event with
      | selectDue answer =>
          exact Option.some.inj h ▸ died_await answer fun found => by cases found <;> rfl
      | _ => exact absurd h (by simp [step])
  | loading id =>
      cases event with
      | getJob answer now => exact Option.some.inj h ▸ died_await answer fun _ => rfl
      | _ => exact absurd h (by simp [step])
  | committing job =>
      cases event with
      | commitClaim answer =>
          exact Option.some.inj h ▸ died_await answer fun _ => died_dispatch job
      | _ => exact absurd h (by simp [step])
  | sleeping =>
      cases event with
      | sleep cancelled => cases cancelled <;> exact Option.some.inj h ▸ rfl
      | _ => exact absurd h (by simp [step])
  | recordingUnknown job =>
      cases event with
      | record answer => exact Option.some.inj h ▸ died_await answer fun _ => rfl
      | _ => exact absurd h (by simp [step])
  | handling job =>
      cases event with
      | handle answer =>
          exact Option.some.inj h ▸ died_tryAwait answer (fun _ => rfl) fun _ => rfl
      | _ => exact absurd h (by simp [step])
  | recordingSuccess job =>
      cases event with
      | record answer =>
          exact Option.some.inj h ▸ died_tryAwait answer (fun _ => rfl) fun _ => rfl
      | _ => exact absurd h (by simp [step])
  | publishingSuccess job =>
      cases event with
      | publish answer => cases answer <;> exact Option.some.inj h ▸ rfl
      | _ => exact absurd h (by simp [step])
  | recordingFailure job lastError =>
      cases event with
      | record answer => exact Option.some.inj h ▸ died_await answer fun _ => rfl
      | _ => exact absurd h (by simp [step])
  | publishingFailure job =>
      cases event with
      | publish answer => cases answer <;> exact Option.some.inj h ▸ rfl
      | _ => exact absurd h (by simp [step])
  | leaving =>
      cases event with
      | closeSession answer =>
          exact Option.some.inj h ▸ died_await answer fun _ => died_top valkey
      | _ => exact absurd h (by simp [step])
  | stopped raised => exact absurd h (by simp [step])

/-! ## Runs -/

/-- There is nothing after the end of the loop. -/
theorem died_run {valkey : Bool} {pc pc' : Pc} {events : List Event}
    (h : run (step valkey) pc events = some pc') (hd : pc.died = true) : pc'.died = true := by
  have hkeep : ∀ pc event pc', pc.died = true → step valkey pc event = some pc' →
      pc'.died = true := by
    intro pc event pc' hpc hstep
    cases pc with
    | stopped raised => exact absurd hstep (by simp [step])
    | _ => exact absurd hpc (by simp [Pc.died])
  exact run_invariant hkeep hd h

/-- A worker that is not stopped waits for an answer, whichever comes. -/
theorem exists_step (valkey : Bool) {pc : Pc} (h : ∀ raised, pc ≠ .stopped raised) :
    ∃ event pc', step valkey pc event = some pc' := by
  cases pc with
  | opening => exact ⟨.openClient (.ok ()), _, rfl⟩
  | evaluating => exact ⟨.evalScript (.ok .nil), _, rfl⟩
  | closing reply => exact ⟨.closeClient (.ok ()), _, rfl⟩
  | claimingById signal => exact ⟨.selectById (.ok none), _, rfl⟩
  | loadingById id => exact ⟨.getJob (.ok none) 0, _, rfl⟩
  | claiming => exact ⟨.selectDue (.ok none), _, rfl⟩
  | loading id => exact ⟨.getJob (.ok none) 0, _, rfl⟩
  | committing job => exact ⟨.commitClaim (.ok ()), _, rfl⟩
  | sleeping => exact ⟨.sleep false, _, rfl⟩
  | recordingUnknown job => exact ⟨.record (.ok ()), _, rfl⟩
  | handling job => exact ⟨.handle (.ok ()), _, rfl⟩
  | recordingSuccess job => exact ⟨.record (.ok ()), _, rfl⟩
  | publishingSuccess job => exact ⟨.publish (.ok ()), _, rfl⟩
  | recordingFailure job lastError => exact ⟨.record (.ok ()), _, rfl⟩
  | publishingFailure job => exact ⟨.publish (.ok ()), _, rfl⟩
  | leaving => exact ⟨.closeSession (.ok ()), _, rfl⟩
  | stopped raised => exact absurd rfl (h raised)

/-- **The worker loop ends by nothing but the cancellation of its task exactly when no await
    of the run raises an exception that is not caught.** -/
theorem stopped_only_cancelled_iff {valkey : Bool} {events : List Event} {pc : Pc}
    (h : run (step valkey) (top valkey) events = some pc) :
    (∀ raised, pc = .stopped raised → raised = .cancelled) ↔
      EveryStep (step valkey) (fun pc event => escapes pc event = false) (top valkey) events := by
  have hdied : (∀ raised, pc = .stopped raised → raised = .cancelled) ↔ pc.died = false := by
    cases pc with
    | stopped raised => cases raised <;> simp [Pc.died]
    | _ => simp [Pc.died]
  rw [hdied]
  constructor
  · intro halive before event after u he hu
    rw [he] at h
    obtain ⟨u', hu', hafter⟩ := run_append.mp h
    rw [hu, Option.some.injEq] at hu'
    obtain ⟨v, hv, hrest⟩ := run_cons.mp (hu' ▸ hafter)
    rw [← died_step hv]
    cases hd : v.died with
    | false => rfl
    | true => rw [died_run hrest hd] at halive; exact halive
  · exact fun hall => run_invariant_of_everyStep
      (fun _ _ _ _ hp hstep => (died_step hstep).trans hp) (died_top valkey) hall h

/-- A snapshot job in the queue. -/
def snapshotJob : JobQueue := ⟨"snapshot", .queued, 1, 0, 0, none, none, none⟩

/-- Valkey cannot be reached, the handler fails, and later the application shuts down. -/
def handlerFails : List Event :=
  [.openClient (.ok ()), .evalScript (.error (.exception "Connection refused")),
    .closeClient (.ok ()), .selectDue (.ok (some 2)), .getJob (.ok (some snapshotJob)) 0,
    .commitClaim (.ok ()), .handle (.error (.exception "snapshot not found")),
    .record (.ok ()), .publish (.ok ()), .closeSession (.ok ()),
    .openClient (.error .cancelled)]

theorem stopped_only_cancelled_iff_at_handlerFails :
    run (step true) (top true) handlerFails = some (.stopped .cancelled) ∧
      ∀ raised, Pc.stopped .cancelled = .stopped raised → raised = .cancelled := by
  have hrun : run (step true) (top true) handlerFails = some (.stopped .cancelled) := rfl
  refine ⟨hrun, (stopped_only_cancelled_iff hrun).mpr fun before event after u he hu => ?_⟩
  have hall : EveryStep (step true) (fun pc event => (!escapes pc event) = true) (top true)
      handlerFails := everyStep_of_checkSteps rfl
  exact (Bool.not_eq_true' _).mp (hall before event after u he hu)

/-- The database cannot be reached when the worker looks for a job. -/
theorem worker_dies_of_exception :
    ¬ ∀ valkey events raised, run (step valkey) (top valkey) events = some (.stopped raised) →
      raised = .cancelled := by
  intro hall
  exact absurd (hall false [.selectDue (.error (.exception "Connection refused"))] _ rfl)
    (by decide)

/-! ## The loop on its database -/

/-- Where the loop is when it is at a program point of the worker on its database. -/
inductive At : Jobs.Pc → Pc → Prop
  | stopped (raised : Raised) : At .stopped (.stopped raised)
  | polling : At .polling .opening
  | signalled (signal : Uuid) : At (.signalled signal) (.claimingById signal)
  | scanning (txNow : Option Time) : At (.scanning txNow) .claiming
  | marked (id : Uuid) (job : JobQueue) : At (.marked id job) (.committing (some job))
  | sleeping : At .sleeping .sleeping
  | dispatching (id : Uuid) (job : JobQueue) : At (.dispatching id job) (dispatch (some job))
  | preparing (id : Uuid) (job : JobQueue) : At (.preparing id job) (.handling job)
  | introspecting (id : Uuid) (job : JobQueue) : At (.introspecting id job) (.handling job)
  | failing (id : Uuid) (job : JobQueue) (errorMessage : String) :
      At (.failing id job errorMessage) (.handling job)
  | saving (id : Uuid) (job : JobQueue) (data : String) : At (.saving id job data) (.handling job)
  | succeeded (id : Uuid) (job : JobQueue) :
      At (.recording id job .succeeded) (.recordingSuccess job)
  | failed (id : Uuid) (job : JobQueue) (lastError : String) :
      At (.recording id job (.failed lastError)) (.recordingFailure job lastError)
  | unknown (id : Uuid) (job : JobQueue) (lastError : String) :
      At (.recording id job (.failed lastError)) (.recordingUnknown job)

/-- The loop gets from `pc` to a place where the worker is at `pc'`. -/
def Reaches (pc : Pc) (pc' : Jobs.Pc) : Prop :=
  ∃ events place, run (step true) pc events = some place ∧ At pc' place

theorem reaches_goto {s : State} {w : WorkerId} {pc : Pc} {pc' : Jobs.Pc} (events : List Event)
    {place : Pc} (h : run (step true) pc events = some place) (hat : At pc' place) :
    Reaches pc ((s.goto w pc').workers w) := by
  rw [State.goto_workers, Function.update_self]
  exact ⟨events, place, h, hat⟩

/-- **Each move of the worker on its database is a run of the loop.** -/
theorem worker_simulated {s t : State} {w : WorkerId} {move : Move} {pc : Jobs.Pc} {place : Pc}
    (hat : At pc place) (h : workerStep s w pc move = some t) : Reaches place (t.workers w) := by
  cases hat with
  | stopped raised => exact absurd h (by simp [workerStep])
  | polling =>
      cases move with
      | pop reachable =>
          simp only [workerStep] at h
          split at h
          · obtain rfl := Option.some.inj h
            exact reaches_goto [.openClient (.ok ()), .evalScript (.ok .nil), .closeClient (.ok ())]
              rfl (.scanning none)
          · next signal _ =>
            obtain rfl := Option.some.inj h
            exact reaches_goto
              [.openClient (.ok ()), .evalScript (.ok (.uuid signal)), .closeClient (.ok ())]
              rfl (.signalled signal)
      | _ => exact absurd h (by simp [workerStep])
  | signalled signal =>
      cases move with
      | claimById =>
          simp only [workerStep] at h
          split at h
          · obtain rfl := Option.some.inj h
            exact reaches_goto [.selectById (.ok none)] rfl (.scanning _)
          · next id job hclaim =>
            obtain rfl := Option.some.inj h
            obtain ⟨rfl, found, -, -, rfl⟩ := claimJobById_eq_some hclaim
            exact reaches_goto [.selectById (.ok (some id)), .getJob (.ok (some found)) s.db.now]
              rfl (.marked id _)
      | _ => exact absurd h (by simp [workerStep])
  | scanning txNow =>
      cases move with
      | claimDue tie =>
          simp only [workerStep] at h
          split at h
          · obtain rfl := Option.some.inj h
            exact reaches_goto [.selectDue (.ok none), .commitClaim (.ok ())] rfl .sleeping
          · next id job hclaim =>
            obtain rfl := Option.some.inj h
            obtain ⟨found, -, -, rfl⟩ := claimDueJob_eq_some hclaim
            exact reaches_goto [.selectDue (.ok (some id)), .getJob (.ok (some found)) s.db.now]
              rfl (.marked id _)
      | _ => exact absurd h (by simp [workerStep])
  | marked id job =>
      cases move with
      | commit =>
          obtain rfl := Option.some.inj h
          exact reaches_goto [.commitClaim (.ok ())] rfl (.dispatching id job)
      | _ => exact absurd h (by simp [workerStep])
  | sleeping =>
      cases move with
      | wake =>
          obtain rfl := Option.some.inj h
          exact reaches_goto [.sleep false, .closeSession (.ok ())] rfl .polling
      | _ => exact absurd h (by simp [workerStep])
  | dispatching id job =>
      cases move with
      | dispatch =>
          simp only [workerStep] at h
          rw [dispatch]
          split_ifs at h with hknown
          · obtain rfl := Option.some.inj h
            rw [if_pos hknown]
            exact reaches_goto [] rfl (.preparing id job)
          · obtain rfl := Option.some.inj h
            rw [if_neg hknown]
            exact reaches_goto [] rfl (.unknown id job _)
      | _ => exact absurd h (by simp [workerStep])
  | preparing id job =>
      cases move with
      | prepare fault =>
          simp only [workerStep] at h
          split at h
          · obtain rfl := Option.some.inj h
            exact reaches_goto [] rfl (.introspecting id job)
          · next e _ =>
            obtain rfl := Option.some.inj h
            exact reaches_goto [.handle (.error (.exception e))] rfl (.failed id job e)
      | _ => exact absurd h (by simp [workerStep])
  | introspecting id job =>
      cases move with
      | introspect result =>
          cases result with
          | ok data =>
              obtain rfl := Option.some.inj h
              exact reaches_goto [] rfl (.saving id job data)
          | error e =>
              obtain rfl := Option.some.inj h
              exact reaches_goto [] rfl (.failing id job e)
      | _ => exact absurd h (by simp [workerStep])
  | failing id job errorMessage =>
      cases move with
      | fail fault =>
          obtain rfl := Option.some.inj h
          exact reaches_goto [.handle (.error (.exception _))] rfl (.failed id job _)
      | _ => exact absurd h (by simp [workerStep])
  | saving id job data =>
      cases move with
      | save fault =>
          simp only [workerStep] at h
          split at h
          · obtain rfl := Option.some.inj h
            exact reaches_goto [.handle (.ok ())] rfl (.succeeded id job)
          · next e _ =>
            obtain rfl := Option.some.inj h
            exact reaches_goto [.handle (.error (.exception e))] rfl (.failed id job e)
      | _ => exact absurd h (by simp [workerStep])
  | succeeded id job =>
      cases move with
      | record fault =>
          cases fault with
          | none =>
              obtain rfl := Option.some.inj h
              exact reaches_goto [.record (.ok ()), .publish (.ok ()), .closeSession (.ok ())]
                rfl .polling
          | some fault =>
              obtain rfl := Option.some.inj h
              exact reaches_goto [.record (.error (.exception fault.text))] rfl (.failed id job _)
      | _ => exact absurd h (by simp [workerStep])
  | failed id job lastError =>
      cases move with
      | record fault =>
          cases fault with
          | none =>
              obtain rfl := Option.some.inj h
              exact reaches_goto [.record (.ok ()), .publish (.ok ()), .closeSession (.ok ())]
                rfl .polling
          | some fault =>
              obtain rfl := Option.some.inj h
              exact reaches_goto [.record (.error (.exception fault.text))] rfl (.stopped _)
      | _ => exact absurd h (by simp [workerStep])
  | unknown id job lastError =>
      cases move with
      | record fault =>
          cases fault with
          | none =>
              obtain rfl := Option.some.inj h
              exact reaches_goto [.record (.ok ()), .closeSession (.ok ())] rfl .polling
          | some fault =>
              obtain rfl := Option.some.inj h
              exact reaches_goto [.record (.error (.exception fault.text))] rfl (.stopped _)
      | _ => exact absurd h (by simp [workerStep])

end Survival

end PgErdCloud.Jobs
