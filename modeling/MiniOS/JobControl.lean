import MiniOS.ProcessTable

/-!
# Stopping and continuing a process

Job control for a process with one task: `process_send_signal` records signals in a
set, and `signal_deliver` acts on them in numerical order when the process returns
to ring 3, or while it is parked by `SIGSTOP`.  The set forgets in which order
signals were posted, so a `SIGCONT` that is posted while a `SIGSTOP` is still
pending is acted on first.
-/

namespace MiniOS.JobControl

open Function Machine Kernel

/-- Where the task is: in ring 3 or in a system call, parked by `SIGSTOP` with the
signals that `signal_deliver` has yet to look at, or gone. -/
inductive Place
  | running
  | parked (rest : List Signal)
  | exited
deriving DecidableEq

/-- The fields of `process_t` that signals concern.  `lastPosted` is not one of them:
it is the last of `SIGSTOP` and `SIGCONT` that was posted. -/
structure Job where
  sigPending : Signal → Bool
  sigHandler : Signal → Nat
  stopped : Bool
  inSignal : Bool
  place : Place
  lastPosted : Option Signal

/-- The signals in the order of the loop of `signal_deliver`. -/
def allSignals : List Signal := (List.finRange 32).drop 1

/-- `process_send_signal`.  The wake-up of the task leaves no trace here, because a
parked task may look for `SIGCONT` at any time. -/
def processSendSignal (job : Job) (signum : Signal) : Job :=
  if signum = 0 then job
  else
    { job with
      sigPending := update job.sigPending signum true
      lastPosted :=
        if signum = sigstop ∨ signum = sigcont then some signum else job.lastPosted }

/-- The loop of `signal_deliver`.  `fits` says whether the frame of a handler fits on
the user stack. -/
def deliverLoop (fits : Bool) : List Signal → Job → Job
  | [], job => job
  | signum :: rest, job =>
    if job.sigPending signum = false then deliverLoop fits rest job
    else
      let job := { job with sigPending := update job.sigPending signum false }
      let handler := job.sigHandler signum
      if signum = sigstop then { job with stopped := true, place := .parked rest }
      else if signum = sigcont ∧ handler ≤ 1 then deliverLoop fits rest job
      else if handler = 0 then
        if signum = sigchld then deliverLoop fits rest job
        else { job with place := .exited }
      else if handler = 1 then deliverLoop fits rest job
      else if fits then { job with inSignal := true }
      else { job with place := .exited }

variable (job : Job)

def signalDeliver (fits : Bool) : Job :=
  if job.inSignal then job else deliverLoop fits allSignals job

/-- The parked task is woken and looks for `SIGCONT`. -/
def wakeParked (rest : List Signal) (fits : Bool) : Job :=
  if job.sigPending sigcont then
    deliverLoop fits rest
      { job with
        sigPending := update job.sigPending sigcont false
        stopped := false
        place := .running }
  else job

/-- Somebody posts a signal, the process returns to ring 3, ends a handler, sets one,
executes another program or exits, or it is woken or killed while it is parked. -/
inductive Event
  | post (signum : Signal)
  | deliver (fits : Bool)
  | sigreturn
  | signal (signum : Signal) (handler : Nat)
  | exec
  | exit
  | wake (fits : Bool)

def sysSignal (signum : Signal) (handler : Nat) : Job :=
  if signum = 0 then job else { job with sigHandler := update job.sigHandler signum handler }

/-- What `process_exec_reset` does to signals. -/
def execReset : Job :=
  { job with sigPending := fun _ => false, sigHandler := fun _ => 0, inSignal := false }

def runStep : Event → Job
  | .deliver fits => signalDeliver job fits
  | .sigreturn => { job with inSignal := false }
  | .signal signum handler => sysSignal job signum handler
  | .exec => execReset job
  | .exit => { job with place := .exited }
  | .post _ | .wake _ => job

def parkedStep (rest : List Signal) : Event → Job
  | .wake fits => wakeParked job rest fits
  | .exit => { job with place := .exited }
  | _ => job

def jobStep : Event → Job
  | .post signum => processSendSignal job signum
  | event =>
    match job.place with
    | .running => runStep job event
    | .parked rest => parkedStep job rest event
    | .exited => job

def newJob : Job where
  sigPending := fun _ => false
  sigHandler := fun _ => 0
  stopped := false
  inSignal := false
  place := .running
  lastPosted := none

/-- If `SIGCONT` was posted last and neither signal is pending, the process is not
parked, and not stopped while it lives. -/
def Continued (job : Job) : Prop :=
  job.lastPosted = some sigcont → job.sigPending sigstop = false →
    job.sigPending sigcont = false →
      (∀ rest, job.place ≠ .parked rest) ∧ (job.place ≠ .exited → job.stopped = false)

/-- No `SIGCONT` is posted while a `SIGSTOP` is pending. -/
def InOrder (job : Job) : Event → Prop
  | .post signum => signum = sigcont → job.sigPending sigstop = false
  | _ => True

instance (job : Job) (event : Event) : Decidable (InOrder job event) := by
  cases event <;> unfold InOrder <;> infer_instance

/-- The process is stopped exactly while it is parked. -/
structure Consistent (job : Job) : Prop where
  parked : ∀ rest, job.place = .parked rest → job.stopped = true
  running : job.place = .running → job.stopped = false

/-- After a `SIGCONT` no `SIGSTOP` is left, and a stopped process has yet to see the
`SIGCONT`. -/
structure Heeded (job : Job) : Prop extends Consistent job where
  noStop : job.lastPosted = some sigcont → job.sigPending sigstop = false
  seen : job.lastPosted = some sigcont → job.stopped = true → job.place ≠ .exited →
    job.sigPending sigcont = true

variable {job : Job}

variable (heeded : Heeded job)

include heeded

theorem Heeded.continued : Continued job := by
  intro last _ noCont
  have unseen : job.place ≠ .exited → job.stopped = false := by
    intro alive
    by_contra stopped
    rw [Bool.not_eq_false] at stopped
    have pending := heeded.seen last stopped alive
    rw [noCont] at pending
    exact Bool.false_ne_true pending
  refine ⟨fun rest parked => ?_, unseen⟩
  have stopped := heeded.parked rest parked
  rw [unseen (by rw [parked]; exact Place.noConfusion)] at stopped
  exact Bool.false_ne_true stopped

theorem Heeded.exit : Heeded { job with place := .exited } := by
  refine ⟨⟨?_, ?_⟩, heeded.noStop, ?_⟩
  · exact fun _ impossible => Place.noConfusion impossible
  · exact fun impossible => Place.noConfusion impossible
  · exact fun _ _ alive => absurd rfl alive

/-- A signal of a running process is taken out of the set. -/
theorem Heeded.clear (runs : job.place = .running) (signum : Signal) :
    Heeded { job with sigPending := update job.sigPending signum false } := by
  refine ⟨⟨heeded.parked, heeded.running⟩, fun last => ?_, fun _ stopped => ?_⟩
  · dsimp only
    rw [update_apply]
    split
    · rfl
    · exact heeded.noStop last
  · exact absurd (stopped.symm.trans (heeded.running runs)) Bool.noConfusion

/-- The loop of `signal_deliver` in a process that runs. -/
theorem Heeded.deliverLoop (runs : job.place = .running) (fits : Bool) (rest : List Signal) :
    Heeded (deliverLoop fits rest job) := by
  induction rest generalizing job with
  | nil => exact heeded
  | cons signum rest ih =>
    have cleared := heeded.clear runs signum
    rw [JobControl.deliverLoop]
    split
    · exact ih heeded runs
    dsimp only
    split
    · case isTrue pending stop =>
      -- `SIGSTOP` is pending, so it was posted after the last `SIGCONT`
      have notLast : job.lastPosted ≠ some sigcont := by
        intro last
        rw [stop] at pending
        exact pending (heeded.noStop last)
      refine ⟨⟨fun _ _ => rfl, fun impossible => Place.noConfusion impossible⟩, ?_, ?_⟩
      · exact fun last => absurd last notLast
      · exact fun last => absurd last notLast
    split
    · exact ih cleared runs
    split
    · split
      · exact ih cleared runs
      · exact cleared.exit
    split
    · exact ih cleared runs
    split
    · exact { cleared with }
    · exact cleared.exit

omit heeded in
theorem sigstop_ne_sigcont : sigstop ≠ sigcont := by decide

theorem Heeded.post {signum : Signal} (inOrder : InOrder job (.post signum)) :
    Heeded (processSendSignal job signum) := by
  unfold processSendSignal
  split
  · exact heeded
  · by_cases cont : signum = sigcont
    · subst cont
      refine ⟨⟨heeded.parked, heeded.running⟩, fun _ => ?_, fun _ _ _ => ?_⟩
      · dsimp only
        rw [update_of_ne sigstop_ne_sigcont]
        exact inOrder rfl
      · dsimp only
        rw [update_self]
    · -- a `SIGSTOP` becomes the last signal, any other leaves it as it was
      have notStop : (if signum = sigstop ∨ signum = sigcont then some signum else job.lastPosted) =
          some sigcont → signum ≠ sigstop ∧ job.lastPosted = some sigcont := by
        intro last
        split at last
        · exact absurd (Option.some.inj last) cont
        · case isFalse neither => exact ⟨fun stop => neither (Or.inl stop), last⟩
      refine ⟨⟨heeded.parked, heeded.running⟩, fun last => ?_, fun last stopped alive => ?_⟩
      · obtain ⟨stop, before⟩ := notStop last
        dsimp only
        rw [update_of_ne (Ne.symm stop)]
        exact heeded.noStop before
      · obtain ⟨-, before⟩ := notStop last
        dsimp only
        rw [update_of_ne (Ne.symm cont)]
        exact heeded.seen before stopped alive

theorem Heeded.wakeParked (rest : List Signal) (fits : Bool) :
    Heeded (wakeParked job rest fits) := by
  unfold JobControl.wakeParked
  split
  · refine Heeded.deliverLoop ⟨⟨?_, fun _ => rfl⟩, fun last => ?_, ?_⟩ rfl fits rest
    · exact fun _ impossible => Place.noConfusion impossible
    · dsimp only
      rw [update_of_ne sigstop_ne_sigcont]
      exact heeded.noStop last
    · exact fun _ impossible => absurd impossible Bool.false_ne_true
  · exact heeded

theorem Heeded.runStep (runs : job.place = .running) (event : Event) :
    Heeded (runStep job event) := by
  have unstopped := heeded.running runs
  cases event with
  | deliver fits =>
    rw [JobControl.runStep, signalDeliver]
    split
    · exact heeded
    · exact heeded.deliverLoop runs fits allSignals
  | sigreturn => exact { heeded with }
  | signal signum handler =>
    rw [JobControl.runStep, sysSignal]
    split
    · exact heeded
    · exact { heeded with }
  | exec =>
    refine ⟨⟨heeded.parked, heeded.running⟩, fun _ => rfl, fun _ stopped => ?_⟩
    exact absurd (stopped.symm.trans unstopped) Bool.noConfusion
  | exit => exact heeded.exit
  | post signum | wake fits => exact heeded

theorem Heeded.parkedStep (rest : List Signal) (event : Event) :
    Heeded (parkedStep job rest event) := by
  cases event with
  | wake fits => exact heeded.wakeParked rest fits
  | exit => exact heeded.exit
  | _ => exact heeded

omit heeded

theorem jobStep_heeded (job : Job) (event : Event) (heeded : Heeded job)
    (inOrder : InOrder job event) : Heeded (jobStep job event) := by
  cases event with
  | post signum => exact heeded.post inOrder
  | _ =>
    rw [jobStep]
    · split
      · case h_1 runs => exact heeded.runStep runs _
      · exact heeded.parkedStep _ _
      · exact heeded
    · exact fun _ impossible => Event.noConfusion impossible

theorem newJob_heeded : Heeded newJob := by
  refine ⟨⟨?_, fun _ => rfl⟩, fun _ => rfl, ?_⟩
  · exact fun _ impossible => Place.noConfusion impossible
  · exact fun _ impossible => absurd impossible Bool.false_ne_true

/-- As long as no `SIGCONT` is posted while a `SIGSTOP` is pending, a process whose
last job control signal was `SIGCONT` is not left parked. -/
theorem run_continued (events : List Event) (inOrder : Admissible jobStep InOrder newJob events) :
    Continued (run jobStep newJob events) :=
  (run_invariant_of_admissible Heeded jobStep_heeded newJob_heeded inOrder).continued

/-- The process is parked when `SIGCONT` arrives. -/
def stopThenContinue : List Event :=
  [.post sigstop, .deliver true, .post sigcont, .wake true]

theorem run_continued_stopThenContinue : (run jobStep newJob stopThenContinue).stopped = false ∧
      Continued (run jobStep newJob stopThenContinue) :=
  ⟨by decide, run_continued stopThenContinue (by decide)⟩

/-- Both signals are pending when the process returns to ring 3: it is parked although
`SIGCONT` came last and nothing is pending any more. -/
theorem continue_forgotten :
    let job := run jobStep newJob [.post sigstop, .post sigcont, .deliver true]
    job.lastPosted = some sigcont ∧ job.sigPending sigstop = false ∧
      job.sigPending sigcont = false ∧ job.stopped = true ∧
      job.place = .parked ((List.finRange 32).drop 20) := by
  decide

end MiniOS.JobControl
