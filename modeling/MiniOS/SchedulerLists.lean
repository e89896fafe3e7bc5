import MiniOS.SchedulerModel

/-!
# Ready and blocked lists

`Lists idle s ring blocked` says that the ready list of `s` is the ring `ring`,
entered at the current task, and that its blocked list is `blocked`.  For every
function of `task.c` one lemma says which lists it leaves, and with them that all
its loops end.
-/

namespace MiniOS.Tasks

open Function LinkedSegments

variable {Channel Proc : Type*} {s : Scheduler Channel Proc} {idle task : Nat}
  {ring blocked : List Nat}

structure Lists (idle : Nat) (s : Scheduler Channel Proc) (ring blocked : List Nat) : Prop where
  ready : Segment s.next s.currentTask ring s.currentTask
  idleReady : idle ∈ ring
  queueReady : s.readyQueue ∈ ring
  waiting : Segment s.blockedNext s.blockedTasks blocked 0
  readyState : ∀ task ∈ ring, s.state task = .ready
  blockedState : ∀ task ∈ blocked, s.state task = .blocked
  distinct : (ring ++ blocked).Nodup
  notNull : 0 ∉ ring ++ blocked

namespace Lists

variable (lists : Lists idle s ring blocked)

include lists

theorem ringDistinct : ring.Nodup :=
  (List.nodup_append.mp lists.distinct).1

theorem blockedDistinct : blocked.Nodup :=
  (List.nodup_append.mp lists.distinct).2.1

theorem ne_zero (member : task ∈ ring ++ blocked) : task ≠ 0 := by
  rintro rfl
  exact lists.notNull member

theorem ring_eq : ∃ rest, ring = s.currentTask :: rest ∧
      Segment s.next (s.next s.currentTask) rest s.currentTask := by
  have ready := lists.ready
  cases ring with
  | nil => exact absurd lists.idleReady List.not_mem_nil
  | cons head rest =>
    obtain ⟨sameHead, following⟩ := ready
    subst sameHead
    exact ⟨rest, rfl, following⟩

theorem current_mem : s.currentTask ∈ ring := by
  obtain ⟨rest, rfl, -⟩ := lists.ring_eq
  simp

theorem current_ne_zero : s.currentTask ≠ 0 :=
  lists.ne_zero (List.mem_append_left _ lists.current_mem)

theorem queue_ne_zero : s.readyQueue ≠ 0 :=
  lists.ne_zero (List.mem_append_left _ lists.queueReady)

variable {s' : Scheduler Channel Proc} {before after : List Nat}

/-- `add_ready_task` puts a task right behind `ready_queue`. -/
theorem addReadyTask (fresh : task ∉ ring ++ blocked) (notNull : task ≠ 0) :
    ∃ ring', Lists idle (addReadyTask s task) ring' blocked ∧ ring'.Perm (task :: ring) := by
  obtain ⟨first, second, ringEq⟩ := List.append_of_mem lists.queueReady
  have freshRing : task ∉ ring := fun member => fresh (List.mem_append_left _ member)
  have freshBlocked : task ∉ blocked := fun member => fresh (List.mem_append_right _ member)
  have perm : (first ++ s.readyQueue :: task :: second).Perm (task :: ring) := by
    rw [ringEq]
    have moved : (first ++ [s.readyQueue] ++ task :: second).Perm
        (task :: (first ++ [s.readyQueue] ++ second)) := List.perm_middle
    simpa using moved
  refine ⟨first ++ s.readyQueue :: task :: second, ?_, perm⟩
  unfold Tasks.addReadyTask
  simp only [if_neg lists.queue_ne_zero]
  have distinct : (task :: ring ++ blocked).Nodup := List.nodup_cons.mpr ⟨fresh, lists.distinct⟩
  exact {
    ready := by
      have ready := lists.ready
      have ringDistinct := lists.ringDistinct
      rw [ringEq] at ready ringDistinct freshRing
      exact ready.insertAfter ringDistinct freshRing
    idleReady := perm.mem_iff.mpr (List.mem_cons_of_mem _ lists.idleReady)
    queueReady := by simp
    waiting := lists.waiting.update freshBlocked
    readyState := by
      intro other member
      by_cases same : other = task
      · subst same
        exact update_self ..
      · have old := (List.mem_cons.mp (perm.mem_iff.mp member)).resolve_left same
        simp only [update_of_ne same]
        exact lists.readyState other old
    blockedState := by
      intro other member
      have different : other ≠ task := fun same => freshBlocked (same ▸ member)
      simp only [update_of_ne different]
      exact lists.blockedState other member
    distinct := (perm.append_right blocked).nodup_iff.mpr distinct
    notNull := by
      rw [(perm.append_right blocked).mem_iff]
      simp only [List.cons_append, List.mem_cons, not_or]
      exact ⟨notNull.symm, lists.notNull⟩ }

omit lists

/-- Reading a link gives the first task behind it. -/
theorem readLink_eq (lists : Lists idle s ring (before ++ after)) :
    readLink s before.getLast? = after.headD 0 := by
  rcases List.eq_nil_or_concat' before with rfl | ⟨start, last, rfl⟩
  · exact lists.waiting.start_eq
  · obtain ⟨middle, early, late⟩ := segment_append.mp lists.waiting
    obtain ⟨-, -, -, following⟩ := segment_append.mp early
    rw [List.getLast?_concat, readLink]
    exact following.trans late.start_eq

/-- Writing a link takes the task behind it out of the blocked list. -/
theorem unlink {before after : List Nat} (lists : Lists idle s ring (before ++ task :: after)) :
    Lists idle (writeLink s before.getLast? (s.blockedNext task)) ring (before ++ after) := by
  have shorter : (before ++ after).Sublist (before ++ task :: after) :=
    (List.Sublist.refl before).append (List.sublist_cons_self task after)
  have sublist := (List.Sublist.refl ring).append shorter
  have distinct := lists.distinct.sublist sublist
  have notNull : 0 ∉ ring ++ (before ++ after) := fun member => lists.notNull (sublist.mem member)
  have blockedState : ∀ other ∈ before ++ after, s.state other = .blocked :=
    fun other member => lists.blockedState other (shorter.mem member)
  rcases List.eq_nil_or_concat' before with rfl | ⟨start, last, rfl⟩
  · exact { lists with
      waiting := lists.waiting.2
      blockedState := blockedState
      distinct := distinct
      notNull := notNull }
  · have waiting := lists.waiting
    have blockedDistinct := lists.blockedDistinct
    rw [List.getLast?_concat]
    simp only [List.append_assoc, List.singleton_append] at waiting blockedDistinct ⊢
    simp only [List.append_assoc, List.singleton_append] at blockedState distinct notNull
    exact { lists with
      waiting := waiting.removeAfter blockedDistinct
      blockedState := blockedState
      distinct := distinct
      notNull := notNull }

end Lists

variable {rounds : Nat}

section Waking

structure KeepsTasks (s s' : Scheduler Channel Proc) : Prop where
  currentTask : s'.currentTask = s.currentTask
  retiredTask : s'.retiredTask = s.retiredTask
  process : s'.process = s.process
  stackBottom : s'.stackBottom = s.stackBottom
  tasks : s'.tasks = s.tasks
  exits : s'.exits = s.exits
  reaped : s'.reaped = s.reaped

theorem KeepsTasks.refl (s : Scheduler Channel Proc) : KeepsTasks s s :=
  ⟨rfl, rfl, rfl, rfl, rfl, rfl, rfl⟩

theorem KeepsTasks.trans {s s'' : Scheduler Channel Proc} (first : KeepsTasks s s')
    (second : KeepsTasks s' s'') : KeepsTasks s s'' :=
  ⟨second.1.trans first.1, second.2.trans first.2, second.3.trans first.3,
    second.4.trans first.4, second.5.trans first.5, second.6.trans first.6,
    second.7.trans first.7⟩

variable (s)

theorem addReadyTask_keepsTasks (task : Nat) : KeepsTasks s (addReadyTask s task) := by
  unfold addReadyTask
  simp only
  split <;> exact ⟨rfl, rfl, rfl, rfl, rfl, rfl, rfl⟩

theorem addReadyTask_waitChannel (task : Nat) :
    (addReadyTask s task).waitChannel = update s.waitChannel task none := by
  unfold addReadyTask
  simp only
  split <;> rfl

theorem addReadyTask_killPending (task : Nat) :
    (addReadyTask s task).killPending = s.killPending := by
  unfold addReadyTask
  simp only
  split <;> rfl

theorem writeLink_keepsTasks (link : Link) (target : Nat) :
    KeepsTasks s (writeLink s link target) := by
  cases link <;> exact ⟨rfl, rfl, rfl, rfl, rfl, rfl, rfl⟩

theorem writeLink_waitChannel (link : Link) (target : Nat) :
    (writeLink s link target).waitChannel = s.waitChannel := by
  cases link <;> rfl

theorem writeLink_killPending (link : Link) (target : Nat) :
    (writeLink s link target).killPending = s.killPending := by
  cases link <;> rfl

variable {s}

abbrev picks (selects : Option Channel → Option Proc → Nat → Bool) (s : Scheduler Channel Proc)
    (task : Nat) : Bool :=
  selects (s.waitChannel task) (s.process task) task

/-- The effect of a walk over the waiting tasks `waiting`: those of `woken` become
ready, those of `left` go on waiting in their old order. -/
structure Wakes (selects : Option Channel → Option Proc → Nat → Bool) (once kill : Bool)
    (s s' : Scheduler Channel Proc) (waiting woken left : List Nat) : Prop where
  keeps : KeepsTasks s s'
  split : waiting.Perm (woken ++ left)
  rest : left = if once then waiting.eraseP (picks selects s)
    else waiting.filter fun task => !picks selects s task
  chosen : ∀ task ∈ woken, picks selects s task = true
  channel : ∀ task, task ∉ woken → s'.waitChannel task = s.waitChannel task
  killed : ∀ task, s'.killPending task = (s.killPending task || (kill && decide (task ∈ woken)))

variable {selects : Option Channel → Option Proc → Nat → Bool} {kill once : Bool}
  {woken left waiting : List Nat} {s' : Scheduler Channel Proc}
  (wakes : Wakes selects once kill s s' waiting woken left)

include wakes

theorem Wakes.order : left.Sublist waiting := by
  rw [wakes.rest]
  split
  · exact List.eraseP_sublist
  · exact List.filter_sublist

theorem Wakes.complete (all : once = false) : ∀ task ∈ left, picks selects s task = false := by
  rw [wakes.rest, all]
  simp

/-- A task that goes on waiting does so on the same channel. -/
theorem Wakes.left_channel (distinct : waiting.Nodup) :
    ∀ task ∈ left, s'.waitChannel task = s.waitChannel task := by
  intro task member
  refine wakes.channel task fun woke => ?_
  exact (List.nodup_append.mp (wakes.split.nodup_iff.mp distinct)).2.2 task woke task member rfl

omit wakes

def wakeNow (kill : Bool) (s : Scheduler Channel Proc) (link : Link) (task : Nat) :
    Scheduler Channel Proc :=
  let s := { s with killPending := update s.killPending task (s.killPending task || kill) }
  addReadyTask (writeLink s link (s.blockedNext task)) task

theorem wakeNow_wakes (link : Link) (after : List Nat)
    (chosen : picks selects s task = true) :
    Wakes selects true kill s (wakeNow kill s link task) (task :: after) [task] after where
  keeps := by
    refine KeepsTasks.trans ?_
      ((writeLink_keepsTasks _ link (s.blockedNext task)).trans (addReadyTask_keepsTasks _ task))
    exact ⟨rfl, rfl, rfl, rfl, rfl, rfl, rfl⟩
  split := List.Perm.refl _
  rest := (List.eraseP_cons_of_pos chosen).symm
  chosen := by simpa using chosen
  channel := by
    intro other notWoken
    rw [wakeNow, addReadyTask_waitChannel, writeLink_waitChannel,
      update_of_ne (by simpa using notWoken)]
  killed := by
    intro other
    rw [wakeNow, addReadyTask_killPending, writeLink_killPending]
    by_cases same : other = task
    · subst same
      simp
    · simp [same]

theorem Lists.wakeNow (kill : Bool) (lists : Lists idle s ring (before ++ task :: after)) :
    ∃ ring', Lists idle (wakeNow kill s before.getLast? task) ring' (before ++ after) ∧
      ring'.Perm (task :: ring) := by
  have marked : Lists idle
      { s with killPending := update s.killPending task (s.killPending task || kill) } ring
      (before ++ task :: after) := { lists with }
  have fresh : task ∉ ring ++ (before ++ after) := by
    have moved : (ring ++ (before ++ task :: after)).Perm
        (task :: (ring ++ (before ++ after))) := by
      rw [← List.append_assoc, ← List.append_assoc]
      exact List.perm_middle
    exact (List.nodup_cons.mp (moved.nodup_iff.mp lists.distinct)).1
  exact marked.unlink.addReadyTask fresh (lists.ne_zero (by simp))

/-- A walk that first wakes `task` and then goes on behind it. -/
theorem Wakes.wokenFirst {s₁ : Scheduler Channel Proc} (notAfter : task ∉ after)
    (first : Wakes selects true kill s s₁ (task :: after) [task] after)
    (rest : Wakes selects false kill s₁ s' after woken left) :
    Wakes selects false kill s s' (task :: after) (task :: woken) left := by
  have same : ∀ other ∈ after, s₁.waitChannel other = s.waitChannel other := by
    intro other member
    refine first.channel other ?_
    rw [List.mem_singleton]
    rintro rfl
    exact notAfter member
  have inAfter : ∀ other ∈ woken ++ left, other ∈ after :=
    fun other member => rest.split.mem_iff.mpr member
  exact {
    keeps := first.keeps.trans rest.keeps
    split := rest.split.cons task
    rest := by
      rw [rest.rest, if_neg (by decide), if_neg (by decide),
        List.filter_cons_of_neg (by simp [first.chosen task])]
      refine List.filter_congr fun other member => ?_
      rw [picks, same other member, first.keeps.process]
    chosen := by
      intro other member
      rcases List.mem_cons.mp member with rfl | later
      · exact first.chosen other (by simp)
      · rw [picks, ← same other (inAfter other (by simp [later])), ← first.keeps.process]
        exact rest.chosen other later
    channel := by
      intro other notWoken
      rw [List.mem_cons, not_or] at notWoken
      rw [rest.channel other notWoken.2, first.channel other (by simpa using notWoken.1)]
    killed := by
      intro other
      rw [rest.killed, first.killed]
      by_cases same : other = task
      · subst same
        cases kill <;> simp
      · simp [same] }

/-- A walk that passes `task` and then goes on behind it. -/
theorem Wakes.leftFirst (passed : picks selects s task = false)
    (rest : Wakes selects once kill s s' after woken left) :
    Wakes selects once kill s s' (task :: after) woken (task :: left) where
  keeps := rest.keeps
  split := (rest.split.cons task).trans List.perm_middle.symm
  rest := by
    rw [rest.rest]
    cases once <;> simp [passed]
  chosen := rest.chosen
  channel := rest.channel
  killed := rest.killed

/-- The loop of the wake-up functions ends and keeps both lists. -/
theorem Lists.wakeFrom (selects : Option Channel → Option Proc → Nat → Bool)
    (once kill : Bool) (lists : Lists idle s ring (before ++ waiting))
    (enough : waiting.length ≤ rounds) :
    ∃ s' ring' woken left, wakeFrom selects once kill rounds before.getLast? s = some s' ∧
      Lists idle s' ring' (before ++ left) ∧ ring'.Perm (woken ++ ring) ∧
      Wakes selects once kill s s' waiting woken left := by
  induction waiting generalizing s ring before rounds with
  | nil =>
    have atEnd : readLink s before.getLast? = 0 := lists.readLink_eq
    refine ⟨s, ring, [], [], ?_, lists, List.Perm.refl _, KeepsTasks.refl s, by simp, by simp,
      by simp, by simp, by simp⟩
    rw [Tasks.wakeFrom.eq_def]
    simp [atEnd]
  | cons task after ih =>
    have atTask : readLink s before.getLast? = task := lists.readLink_eq
    have notNull : task ≠ 0 := lists.ne_zero (by simp)
    obtain ⟨rounds, rfl⟩ : ∃ fewer, rounds = fewer + 1 := ⟨rounds - 1, by
      simp only [List.length_cons] at enough
      omega⟩
    have enoughLeft : after.length ≤ rounds := by simpa using enough
    rw [Tasks.wakeFrom.eq_def]
    simp only [atTask, if_neg notNull]
    cases chosen : selects (s.waitChannel task) (s.process task) task with
    | true =>
      obtain ⟨ring₁, lists₁, perm₁⟩ := lists.wakeNow kill
      have wakes₁ : Wakes selects true kill s (Tasks.wakeNow kill s before.getLast? task)
          (task :: after) [task] after := wakeNow_wakes before.getLast? after chosen
      simp only [if_true]
      rw [← Tasks.wakeNow]
      cases once with
      | true => exact ⟨_, ring₁, [task], after, rfl, lists₁, perm₁, wakes₁⟩
      | false =>
        obtain ⟨s', ring', woken, left, result, lists', perm', wakes'⟩ :=
          ih lists₁ enoughLeft
        refine ⟨s', ring', task :: woken, left, result, lists', ?_, ?_⟩
        · exact perm'.trans ((perm₁.append_left woken).trans List.perm_middle)
        · have notAfter : task ∉ after :=
            (List.nodup_cons.mp (List.nodup_append.mp lists.blockedDistinct).2.1).1
          exact wakes₁.wokenFirst notAfter wakes'
    | false =>
      have moved : Lists idle s ring ((before ++ [task]) ++ after) := by simpa using lists
      obtain ⟨s', ring', woken, left, result, lists', perm', wakes'⟩ := ih moved enoughLeft
      rw [List.getLast?_concat] at result
      refine ⟨s', ring', woken, task :: left, ?_, by simpa using lists', perm',
        wakes'.leftFirst chosen⟩
      simpa using result

end Waking

section Leaving

/-- The check inside the loop of `find_ready_previous` never applies. -/
theorem readyPreviousFrom_eq_lastBefore (next : Nat → Nat) (task rounds previous : Nat) :
    readyPreviousFrom next task rounds previous = lastBefore next task rounds previous := by
  induction rounds generalizing previous with
  | zero => rfl
  | succ rounds ih =>
    rw [readyPreviousFrom, lastBefore]
    by_cases found : next previous = task
    · rw [if_pos found, if_pos found]
    · simp only [if_neg found]
      exact ih (next previous)

/-- Taking the current task out of the ready list: the search for the task before
it ends, and the rest is a ring entered at the next task. -/
theorem Lists.leave (lists : Lists idle s ring blocked) (notIdle : s.currentTask ≠ idle)
    (enough : ring.length ≤ s.tasks.length) :
    ∃ previous ring', ring = s.currentTask :: ring' ∧
      lastBefore s.next s.currentTask s.tasks.length s.currentTask = some previous ∧
      previous ∈ ring' ∧ s.next s.currentTask ∈ ring' ∧ idle ∈ ring' ∧
      (unlinkReady s previous s.currentTask).readyQueue ∈ ring' ∧
      Segment (unlinkReady s previous s.currentTask).next (s.next s.currentTask) ring'
        (s.next s.currentTask) := by
  obtain ⟨rest, ringEq, following⟩ := lists.ring_eq
  have distinct := lists.ringDistinct
  have ready := lists.ready
  rw [ringEq] at distinct ready
  have idleLeft : idle ∈ rest := by
    have member := lists.idleReady
    rw [ringEq] at member
    exact (List.mem_cons.mp member).resolve_left notIdle.symm
  obtain ⟨start, last, restEq⟩ : ∃ start last, rest = start ++ [last] := by
    rcases List.eq_nil_or_concat' rest with rfl | ⟨start, last, rfl⟩
    · exact absurd idleLeft List.not_mem_nil
    · exact ⟨start, last, rfl⟩
  have nextLeft : s.next s.currentTask ∈ rest := by
    have first := following.start_eq
    cases rest with
    | nil => exact absurd idleLeft List.not_mem_nil
    | cons head rest => simp [first]
  refine ⟨last, rest, ringEq, ?_, by simp [restEq], nextLeft, idleLeft, ?_, ?_⟩
  · rw [restEq, ← List.cons_append] at ready
    refine ready.lastBefore_eq ?_ ?_
    · rw [restEq] at distinct
      exact (List.nodup_cons.mp distinct).1
    · rw [ringEq, restEq] at enough
      simp only [List.length_cons, List.length_append, List.length_nil] at enough ⊢
      omega
  · simp only [unlinkReady]
    by_cases atHead : s.readyQueue = s.currentTask
    · rw [if_pos atHead]
      exact nextLeft
    · rw [if_neg atHead]
      have member := lists.queueReady
      rw [ringEq] at member
      exact (List.mem_cons.mp member).resolve_left atHead
  · have restDistinct := (List.nodup_cons.mp distinct).2
    rw [restEq] at following restDistinct ⊢
    exact following.redirect restDistinct

/-- The walk to the end of the blocked list ends, and the task is appended there. -/
theorem appendBlocked_segment (waiting : Segment s.blockedNext s.blockedTasks blocked 0)
    (atEnd : s.blockedNext task = 0) (fresh : task ∉ blocked) (distinct : blocked.Nodup)
    (notNull : 0 ∉ blocked) (enough : blocked.length ≤ s.tasks.length) :
    ∃ blockedNext' first', appendBlocked s task =
        some { s with blockedNext := blockedNext', blockedTasks := first' } ∧
      Segment blockedNext' first' (blocked ++ [task]) 0 := by
  rcases List.eq_nil_or_concat' blocked with rfl | ⟨start, last, rfl⟩
  · have empty : s.blockedTasks = 0 := waiting
    refine ⟨s.blockedNext, task, ?_, rfl, atEnd⟩
    rw [appendBlocked, if_pos empty]
  · have nonempty : s.blockedTasks ≠ 0 := by
      intro empty
      refine notNull ?_
      have atNull := waiting.start_eq
      rw [empty] at atNull
      cases start with
      | nil => exact List.mem_singleton.mpr atNull
      | cons head start => exact List.mem_cons.mpr (Or.inl atNull)
    have search : lastBefore s.blockedNext 0 s.tasks.length s.blockedTasks = some last := by
      refine waiting.lastBefore_eq (fun member => notNull (List.mem_of_mem_tail member)) ?_
      simp only [List.length_append, List.length_cons, List.length_nil] at enough
      omega
    refine ⟨update s.blockedNext last task, s.blockedTasks, ?_, ?_⟩
    · rw [appendBlocked, if_neg nonempty]
      simp only [search]
    · refine segment_append.mpr ⟨task, waiting.redirect distinct, rfl, ?_⟩
      have different : task ≠ last := fun same => fresh (by simp [same])
      rw [update_of_ne different]
      exact atEnd

structure Blocks (channel : Option Channel) (s s' : Scheduler Channel Proc) : Prop where
  currentTask : s'.currentTask = s.next s.currentTask
  retiredTask : s'.retiredTask = s.retiredTask
  process : s'.process = s.process
  stackBottom : s'.stackBottom = s.stackBottom
  killPending : s'.killPending = s.killPending
  tasks : s'.tasks = s.tasks
  exits : s'.exits = s.exits
  reaped : s'.reaped = s.reaped
  waitChannel : s'.waitChannel = update s.waitChannel s.currentTask channel

theorem Lists.taskBlockCurrent (lists : Lists idle s ring blocked)
    (channel : Option Channel) (notIdle : s.currentTask ≠ idle)
    (enough : (ring ++ blocked).length ≤ s.tasks.length) :
    ∃ s' ring', taskBlockCurrent s channel = some s' ∧ ring = s.currentTask :: ring' ∧
      Lists idle s' ring' (blocked ++ [s.currentTask]) ∧ Blocks channel s s' := by
  rw [List.length_append] at enough
  obtain ⟨previous, ring', ringEq, search, previousLeft, nextLeft, idleLeft, queueLeft, ready⟩ :=
    lists.leave notIdle (by omega)
  have distinct := lists.distinct
  have notNull := lists.notNull
  rw [ringEq] at distinct notNull
  have currentGone : s.currentTask ∉ ring' ++ blocked := by
    rw [List.cons_append, List.nodup_cons] at distinct
    exact distinct.1
  have gone : s.currentTask ∉ ring' := fun member => currentGone (List.mem_append_left _ member)
  have notBlocked : s.currentTask ∉ blocked :=
    fun member => currentGone (List.mem_append_right _ member)
  have previousNotNull : previous ≠ 0 := by
    rintro rfl
    exact notNull (by simp [previousLeft])
  have goesOn : ¬ (s.currentTask = 0 ∨ s.state s.currentTask ≠ .ready ∨
      s.next s.currentTask = s.currentTask) := by
    rintro (null | notReady | alone)
    · exact lists.current_ne_zero null
    · exact notReady (lists.readyState _ lists.current_mem)
    · rw [alone] at nextLeft
      exact gone nextLeft
  have found : findReadyPrevious s s.currentTask = some previous := by
    rw [findReadyPrevious, if_neg (by simp [lists.queue_ne_zero, lists.current_ne_zero]),
      readyPreviousFrom_eq_lastBefore, search]
  have waitingElsewhere : Segment
      (markBlocked (unlinkReady s previous s.currentTask) s.currentTask channel).blockedNext
      s.blockedTasks blocked 0 := lists.waiting.update notBlocked
  obtain ⟨blockedNext', first', appended, waiting⟩ :=
    appendBlocked_segment waitingElsewhere (update_self ..) notBlocked lists.blockedDistinct
      (fun member => lists.notNull (List.mem_append_right _ member))
      (by
        simp only [markBlocked, unlinkReady]
        omega)
  refine ⟨activateTask { markBlocked (unlinkReady s previous s.currentTask) s.currentTask channel
      with blockedNext := blockedNext', blockedTasks := first' } (s.next s.currentTask),
    ring', ?_, ringEq, ?_, ?_⟩
  · unfold Tasks.taskBlockCurrent
    simp only [if_neg goesOn, found]
    obtain ⟨predecessor, rfl⟩ : ∃ predecessor, previous = predecessor + 1 :=
      ⟨previous - 1, by omega⟩
    rw [appended]
  · have perm : (ring' ++ (blocked ++ [s.currentTask])).Perm
        (s.currentTask :: ring' ++ blocked) := by
      rw [← List.append_assoc, List.cons_append]
      exact List.perm_append_singleton _ _
    exact {
      ready := ready.update gone
      idleReady := idleLeft
      queueReady := queueLeft
      waiting := waiting
      readyState := by
        intro other member
        have different : other ≠ s.currentTask := fun same => gone (same ▸ member)
        simp only [activateTask, markBlocked, unlinkReady, update_of_ne different]
        exact lists.readyState other (by simp [ringEq, member])
      blockedState := by
        intro other member
        simp only [activateTask, markBlocked, unlinkReady]
        by_cases same : other = s.currentTask
        · rw [same, update_self]
        · rw [update_of_ne same]
          refine lists.blockedState other ?_
          simpa [same] using member
      distinct := perm.nodup_iff.mpr distinct
      notNull := fun member => notNull (perm.mem_iff.mp member) }
  · exact ⟨rfl, rfl, rfl, rfl, rfl, rfl, rfl, rfl, rfl⟩

structure Exits (s s' : Scheduler Channel Proc) : Prop where
  currentTask : s'.currentTask = s.next s.currentTask
  retiredTask : s'.retiredTask = s.currentTask
  process : s'.process = s.process
  stackBottom : s'.stackBottom = s.stackBottom
  waitChannel : s'.waitChannel = s.waitChannel
  killPending : s'.killPending = s.killPending
  tasks : s'.tasks = s.tasks.erase s.currentTask
  exits : s'.exits = s.exits ++ [(s.currentTask, s.stackBottom s.currentTask)]
  reaped : s'.reaped = (reapRetiredTask s).reaped

theorem reapRetiredTask_eq (s : Scheduler Channel Proc) : reapRetiredTask s =
      { s with retiredTask := 0, reaped := (reapRetiredTask s).reaped } := by
  unfold reapRetiredTask
  split
  case isTrue none => rw [← none]
  case isFalse => rfl

theorem Lists.taskExit (lists : Lists idle s ring blocked) (notIdle : s.currentTask ≠ idle)
    (enough : (ring ++ blocked).length ≤ s.tasks.length) :
    ∃ s' ring', taskExit s = some s' ∧ ring = s.currentTask :: ring' ∧
      Lists idle s' ring' blocked ∧ Exits s s' := by
  rw [List.length_append] at enough
  obtain ⟨previous, ring', ringEq, search, previousLeft, nextLeft, idleLeft, queueLeft, ready⟩ :=
    lists.leave notIdle (by omega)
  have distinct := lists.distinct
  rw [ringEq, List.cons_append, List.nodup_cons] at distinct
  have different : previous ≠ s.currentTask := by
    rintro rfl
    exact distinct.1 (List.mem_append_left _ previousLeft)
  refine ⟨retireTask s previous s.currentTask, ring', ?_, ringEq, ?_, ?_⟩
  · unfold Tasks.taskExit
    simp only [if_neg lists.current_ne_zero, search, if_neg different]
  · rw [retireTask, reapRetiredTask_eq]
    exact { lists with
      ready := ready
      idleReady := idleLeft
      queueReady := queueLeft
      readyState := fun other member => lists.readyState other (by simp [ringEq, member])
      distinct := distinct.2
      notNull := fun member => lists.notNull (by
        rw [ringEq]
        exact List.mem_cons_of_mem _ member) }
  · rw [retireTask, reapRetiredTask_eq]
    exact ⟨rfl, rfl, rfl, rfl, rfl, rfl, rfl, rfl, rfl⟩

/-- `schedule` goes one step along the ring. -/
theorem Lists.schedule (lists : Lists idle s ring blocked) :
    ∃ ring', Lists idle (schedule s) ring' blocked ∧ ring'.Perm ring ∧
      schedule s = { reapRetiredTask s with
        currentTask := s.next s.currentTask
        kernelStack := (schedule s).kernelStack
        activeSpace := (schedule s).activeSpace } := by
  obtain ⟨rest, ringEq, following⟩ := lists.ring_eq
  unfold Tasks.schedule
  rw [if_neg lists.current_ne_zero, reapRetiredTask_eq]
  simp only
  by_cases alone : s.currentTask = s.next s.currentTask
  · rw [if_pos alone]
    refine ⟨ring, { lists with }, List.Perm.refl _, ?_⟩
    rw [← alone]
  · rw [if_neg alone]
    cases rest with
    | nil => exact absurd following.symm alone
    | cons second rest =>
      have atSecond : s.next s.currentTask = second := following.1
      have ready := lists.ready
      rw [ringEq] at ready
      have turned : Segment s.next second (second :: (rest ++ [s.currentTask])) second :=
        ready.rotate [s.currentTask]
      have perm : (second :: (rest ++ [s.currentTask])).Perm ring := by
        rw [ringEq, ← List.cons_append]
        exact List.perm_append_singleton _ _
      refine ⟨second :: (rest ++ [s.currentTask]), ?_, perm, rfl⟩
      exact { lists with
        ready := by
          simp only [activateTask, atSecond]
          exact turned
        idleReady := perm.mem_iff.mpr lists.idleReady
        queueReady := perm.mem_iff.mpr lists.queueReady
        readyState := fun other member => lists.readyState other (perm.mem_iff.mp member)
        distinct := (perm.append_right blocked).nodup_iff.mpr lists.distinct
        notNull := fun member =>
          lists.notNull ((perm.append_right blocked).mem_iff.mp member) }

theorem Lists.schedule_reaches {nodes : List Nat} {stop : Nat} (lists : Lists idle s ring blocked)
    (ahead : Segment s.next s.currentTask nodes stop) (member : task ∈ nodes) :
    ∃ count < nodes.length, (Tasks.schedule^[count] s).currentTask = task := by
  induction nodes generalizing s ring with
  | nil => cases member
  | cons node nodes ih =>
    obtain ⟨isCurrent, later⟩ := segment_cons.mp ahead
    rcases List.mem_cons.mp member with rfl | member
    · exact ⟨0, Nat.succ_pos _, isCurrent⟩
    · obtain ⟨_, after, -, effect⟩ := lists.schedule
      obtain ⟨count, few, reached⟩ := ih after
        (by rw [effect, reapRetiredTask_eq, isCurrent]; exact later) member
      exact ⟨count + 1, Nat.succ_lt_succ few, reached⟩

end Leaving

section Killing

variable [DecidableEq Proc]

theorem markKilled_eq (s : Scheduler Channel Proc) (process : Proc) (task : Nat) :
    markKilled s process task = { s with killPending := (markKilled s process task).killPending } := by
  unfold markKilled
  split <;> rfl

theorem markKilled_killPending (s : Scheduler Channel Proc) (process : Proc) (task other : Nat) :
    (markKilled s process task).killPending other = (s.killPending other ||
      (decide (other = task) && decide (s.process other = some process))) := by
  unfold markKilled
  by_cases same : other = task
  · subst same
    split <;> simp [*]
  · split <;> simp [same]

/-- The walk over the ready list marks every task of the process on its way. -/
theorem markReadyFrom_eq (process : Proc) {ready : Nat} {rest : List Nat}
    (segment : Segment s.next task (task :: rest) ready) (notPassed : ready ∉ rest)
    (notNull : 0 ∉ rest) (enough : rest.length < rounds) :
    ∃ killPending, markReadyFrom process ready rounds task s =
        some { s with killPending := killPending } ∧
      ∀ other, killPending other = (s.killPending other ||
        (decide (other ∈ task :: rest) && decide (s.process other = some process))) := by
  obtain ⟨rounds, rfl⟩ : ∃ fewer, rounds = fewer + 1 := ⟨rounds - 1, by omega⟩
  induction rest generalizing s task rounds with
  | nil =>
    have atReady : s.next task = ready := segment.2
    refine ⟨(markKilled s process task).killPending, ?_, fun other => ?_⟩
    · rw [markReadyFrom, markKilled_eq]
      simp [atReady]
    · rw [markKilled_killPending]
      simp
  | cons second rest ih =>
    obtain ⟨-, atSecond, following⟩ := segment
    simp only [List.mem_cons, not_or] at notPassed notNull
    have enoughLeft : rest.length < rounds := by
      simp only [List.length_cons] at enough
      omega
    obtain ⟨fewer, rfl⟩ : ∃ fewer, rounds = fewer + 1 := ⟨rounds - 1, by omega⟩
    have marked : Segment (markKilled s process task).next second (second :: rest) ready := by
      rw [markKilled_eq]
      exact ⟨rfl, following⟩
    obtain ⟨killPending, result, flags⟩ := ih marked notPassed.2 notNull.2 fewer enoughLeft
    refine ⟨killPending, ?_, fun other => ?_⟩
    · have goesOn : (markKilled s process task).next task ≠ 0 ∧
          (markKilled s process task).next task ≠ ready := by
        rw [markKilled_eq]
        exact ⟨atSecond ▸ Ne.symm notNull.1, atSecond ▸ Ne.symm notPassed.1⟩
      have nextEq : (markKilled s process task).next task = second := by
        rw [markKilled_eq]
        exact atSecond
      rw [markReadyFrom]
      simp only [if_pos goesOn]
      rw [nextEq, result, markKilled_eq]
    · have sameProcess : (markKilled s process task).process = s.process := by
        rw [markKilled_eq]
      rw [flags, markKilled_killPending, sameProcess, Bool.or_assoc,
        ← Bool.and_or_distrib_right, ← Bool.decide_or]
      simp only [List.mem_cons]

/-- Every task of the process is marked, and none of them goes on waiting. -/
theorem Lists.taskKillBlocked (lists : Lists idle s ring blocked) (process : Proc)
    (enough : (ring ++ blocked).length ≤ s.tasks.length) :
    ∃ s' ring' woken left, taskKillBlocked s (some process) = some s' ∧
      Lists idle s' ring' left ∧ ring'.Perm (woken ++ ring) ∧ blocked.Perm (woken ++ left) ∧
      KeepsTasks s s' ∧ left = (blocked.filter fun task => s.process task ≠ some process) ∧
      (∀ task ∈ left, s'.waitChannel task = s.waitChannel task) ∧
      ∀ task, s'.killPending task = (s.killPending task ||
        (decide (task ∈ ring ++ blocked) && decide (s.process task = some process))) := by
  rw [List.length_append] at enough
  obtain ⟨rest, turned, perm⟩ := lists.ready.exists_rotation lists.queueReady
  have turnedDistinct := List.nodup_cons.mp (perm.nodup_iff.mpr lists.ringDistinct)
  have notNull : 0 ∉ rest := fun member => lists.notNull
    (List.mem_append_left _ (perm.mem_iff.mp (List.mem_cons_of_mem _ member)))
  have enoughReady : rest.length < s.tasks.length := by
    have sameLength := perm.length_eq
    rw [List.length_cons] at sameLength
    omega
  obtain ⟨killPending, marked, flags⟩ :=
    markReadyFrom_eq process turned turnedDistinct.1 notNull enoughReady
  have lists₁ : Lists idle { s with killPending := killPending } ring ([] ++ blocked) :=
    { lists with }
  obtain ⟨s', ring', woken, left, result, lists', ringPerm, wakes⟩ :=
    lists₁.wakeFrom (fun _ owner _ => decide (owner = some process)) false true
      (by omega : blocked.length ≤ s.tasks.length)
  refine ⟨s', ring', woken, left, ?_, lists', ringPerm, wakes.split, ?_, ?_, ?_, ?_⟩
  · unfold Tasks.taskKillBlocked
    simp only [if_neg lists.queue_ne_zero, marked]
    exact result
  · refine KeepsTasks.trans ?_ wakes.keeps
    exact ⟨rfl, rfl, rfl, rfl, rfl, rfl, rfl⟩
  · simpa using wakes.rest
  · exact wakes.left_channel lists.blockedDistinct
  · intro task
    rw [wakes.killed]
    simp only
    rw [flags, Bool.true_and, Bool.or_assoc]
    congr 1
    -- a woken task belongs to the process, and a blocked one of the process is woken
    have wokenIff : task ∈ woken ↔ task ∈ blocked ∧ s.process task = some process := by
      constructor
      · intro member
        exact ⟨wakes.split.mem_iff.mpr (List.mem_append_left _ member),
          by simpa using wakes.chosen task member⟩
      · rintro ⟨member, owned⟩
        refine (List.mem_append.mp (wakes.split.mem_iff.mp member)).resolve_right fun stays => ?_
        have passed := wakes.complete rfl task stays
        simp [owned] at passed
    rw [← Bool.decide_and, ← Bool.decide_and, ← Bool.decide_or]
    refine decide_eq_decide.mpr ?_
    rw [perm.mem_iff, wokenIff, List.mem_append]
    tauto

end Killing

end MiniOS.Tasks
