import MiniOS.SemaphoreWakeups

/-!
# Characters in the order in which they were typed

The two indices of the buffer of `kb.c` tell which places hold characters that nobody has
read.  An interrupt adds a character behind them, and a reader takes from their front,
whichever task it is and however long it was blocked.  The readers together therefore get
the characters that were accepted, in this order.
-/

namespace MiniOS.Semaphores

open Function Machine

variable {Proc : Type*}

namespace Keyboard

/-- The characters that nobody has read, the oldest first. -/
def contents (k : Keyboard) : List UInt8 :=
  (List.range k.count).map fun i => k.buffer ((k.readIndex + i) % keyboardBufferSize)

/-- A character that arrives now is dropped. -/
abbrev Full (k : Keyboard) : Prop := (k.writeIndex + 1) % keyboardBufferSize = k.readIndex

variable {k : Keyboard} (inside : k.Inside)

include inside

theorem full_iff : k.Full ↔ k.contents.length = keyboardBufferSize - 1 := by
  obtain ⟨read, write⟩ := inside
  simp only [Full, contents, List.length_map, List.length_range, count, keyboardBufferSize] at *
  omega

theorem contents_write (c : UInt8) :
    (k.write c).contents = k.contents ++ if k.Full then [] else [c] := by
  by_cases full : k.Full
  · have same : k.write c = k := if_pos full
    rw [same, if_pos full, List.append_nil]
  · obtain ⟨read, write⟩ := inside
    have written : k.write c = { k with
        buffer := update k.buffer k.writeIndex c
        writeIndex := (k.writeIndex + 1) % keyboardBufferSize } := if_neg full
    have more : (k.write c).count = k.count + 1 := by
      simp only [written, count, Full, keyboardBufferSize] at *
      omega
    have last : (k.readIndex + k.count) % keyboardBufferSize = k.writeIndex := by
      simp only [count, keyboardBufferSize] at *
      omega
    rw [contents, more, written, if_neg full, List.range_succ, List.map_append, List.map_singleton]
    dsimp only
    rw [last, update_self]
    refine congrArg (· ++ [c]) (List.map_congr_left fun i member => update_of_ne ?_ ..)
    have below := List.mem_range.mp member
    simp only [count, keyboardBufferSize] at *
    omega

theorem contents_takeOne (some : ¬ k.empty) :
    k.contents = k.buffer k.readIndex :: k.takeOne.contents := by
  rw [contents, ← count_takeOne inside some, List.range_succ_eq_map, List.map_cons, List.map_map,
    Nat.add_zero, Nat.mod_eq_of_lt inside.1]
  refine congrArg _ (List.map_congr_left fun i _ => congrArg k.buffer ?_)
  rw [takeOne, Nat.mod_add_mod, Nat.add_assoc, Nat.add_comm 1]

theorem take_eq (wanted : Nat) : (k.take wanted).1 = k.contents.take wanted ∧
    (k.take wanted).2.contents = k.contents.drop wanted := by
  induction wanted generalizing k with
  | zero => exact ⟨rfl, rfl⟩
  | succ wanted ih =>
    rw [take]
    split
    · case isTrue empty => simp [contents, count_of_empty inside empty]
    · case isFalse some =>
      obtain ⟨taken, left⟩ := ih (takeOne_inside inside)
      rw [contents_takeOne inside some]
      exact ⟨congrArg _ taken, left⟩

end Keyboard

def Result.chars : Result → List UInt8
  | .status _ => []
  | .characters chars => chars

/-- The calls with the characters that were not dropped, the oldest first. -/
structure KeyLog (Proc : Type*) extends CallLog Proc where
  accepted : List UInt8

def keyStep [DecidableEq Proc] (log : KeyLog Proc) (event : Event Proc) : KeyLog Proc where
  toCallLog := logStep log.toCallLog event
  accepted := log.accepted ++ if log.state.keyboard.Full then [] else typed event

/-- The characters that the calls which have returned gave to their callers. -/
def CallLog.handed (log : CallLog Proc) : List UInt8 := log.returned.flatMap (·.2.chars)

variable {m : SemState Proc} {task : Nat} {call : Call} {outcome : Option Result × SemState Proc}

/-- A task takes from the front of the buffer what its call returns. -/
theorem Turn.keyboard (turn : Turn m task call outcome) (inside : m.keyboard.Inside) :
    outcome.2.keyboard.Inside ∧
      (outcome.1.elim [] Result.chars) ++ outcome.2.keyboard.contents = m.keyboard.contents ∧
      ∀ count result, call = .keyboardRead count → 0 < count → outcome.1 = some result →
        ∃ chars, result = .characters chars ∧ 1 ≤ chars.length ∧ chars.length ≤ count := by
  cases turn with
  | exits | waitsSem | waitsKey | init | took | posted => exact ⟨inside, rfl, by simp⟩
  | refused _ reads => exact ⟨inside, rfl, fun count _ isRead => absurd isRead (reads count)⟩
  | nothing _ asks =>
    exact ⟨inside, rfl, fun count _ isRead some => absurd (asks count isRead) some.ne'⟩
  | tookOne _ some =>
    exact ⟨Keyboard.takeOne_inside inside, (Keyboard.contents_takeOne inside some).symm, by simp⟩
  | @read wanted _ some =>
    obtain ⟨first, left⟩ := Keyboard.take_eq inside wanted
    refine ⟨Keyboard.take_inside inside wanted, ?_, ?_⟩
    · simp only [Option.elim_some, Result.chars, first, left, List.take_append_drop]
    · rintro count result ⟨⟩ positive ⟨⟩
      refine ⟨_, rfl, ?_⟩
      rw [first, List.length_take, Keyboard.contents_takeOne inside some, List.length_cons]
      omega

variable [DecidableEq Proc]

/-- The buffer holds what was accepted and not returned. -/
structure InOrder (log : KeyLog Proc) : Prop where
  tracked : Tracked log.toCallLog
  inside : log.state.keyboard.Inside
  order : log.handed ++ log.state.keyboard.contents = log.accepted
  lengths : ∀ count result, (.keyboardRead count, result) ∈ log.returned → 0 < count →
    ∃ chars, result = .characters chars ∧ 1 ≤ chars.length ∧ chars.length ≤ count

theorem InOrder.step (log : KeyLog Proc) (event : Event Proc) (inOrder : InOrder log) :
    InOrder (keyStep log event) := by
  have tracked := Tracked.step _ event inOrder.tracked
  cases inOrder.tracked.observed event with
  | @ran task call outcome isReady turn silent same =>
    obtain ⟨inside, order, lengths⟩ := turn.keyboard inOrder.inside
    refine ⟨tracked, ?_, ?_, ?_⟩
    · rw [keyStep, same]
      exact inside
    · rw [keyStep, same, silent, ite_self, List.append_nil, ← inOrder.order, ← order,
        CallLog.handed, CallLog.handed, CallLog.record, List.flatMap_append, List.append_assoc]
      cases outcome.1 <;> simp
    · rw [keyStep, same, CallLog.record]
      intro count result member positive
      rcases List.mem_append.mp member with earlier | now
      · exact inOrder.lengths count result earlier positive
      · obtain ⟨isResult, isRead⟩ : outcome.1 = some result ∧ call = .keyboardRead count := by
          simpa using now
        exact lengths count result isRead positive isResult
  | nobody returned _ keyboard _ =>
    refine ⟨tracked, ?_, ?_, by rw [keyStep, returned]; exact inOrder.lengths⟩
    · rw [keyStep, keyboard]
      cases event <;> first | exact inOrder.inside | exact Keyboard.write_inside inOrder.inside _
    · rw [keyStep, CallLog.handed, returned, keyboard, ← inOrder.order, List.append_assoc]
      refine congrArg _ ?_
      cases event <;> simp [typed, Keyboard.contents_write inOrder.inside]

/-- After every run, the characters returned followed by those in the buffer are the ones
that were accepted; a character is dropped only beside 127 others; a read of at least one
character returns between one and as many as it asks for, and until it returns its task
stands at the wait. -/
theorem keyboard_in_order (events : List (Event Proc)) :
    let log := run keyStep ⟨logStart, []⟩ events
    log.handed ++ log.state.keyboard.contents = log.accepted ∧
      (log.state.keyboard.Full ↔ log.state.keyboard.contents.length = 127) ∧
      (∀ count result, (.keyboardRead count, result) ∈ log.returned → 0 < count →
        ∃ chars, result = .characters chars ∧ 1 ≤ chars.length ∧ chars.length ≤ count) ∧
      ∀ task ∈ log.state.queues.tasks, log.inside task = (log.state.point task).call := by
  have start : InOrder (⟨logStart, []⟩ : KeyLog Proc) :=
    ⟨logStart_tracked, ⟨Nat.zero_lt_succ 127, Nat.zero_lt_succ 127⟩,
      by simp [logStart, semStart, CallLog.handed, Keyboard.contents, Keyboard.count],
      by simp [logStart]⟩
  have inOrder := run_invariant InOrder InOrder.step start events
  exact ⟨inOrder.order, Keyboard.full_iff inOrder.inside, inOrder.lengths, inOrder.tracked.inside⟩

/-- Two tasks wait for keys; the first one gets two of three, and a third task the last one. -/
def twoReaders : List (Event Nat) :=
  [.createTask 1 none, .createTask 2 none, .createTask 3 none, .call 1 (.keyboardRead 2),
    .call 2 (.keyboardRead 5), .keyPressed 0x61, .keyPressed 0x62, .keyPressed 0x63, .resume 1,
    .call 3 .keyboardTryRead, .resume 2]

theorem keyboard_in_order_twoReaders : let log := run keyStep ⟨logStart, []⟩ twoReaders
    log.returned = [(.keyboardRead 2, .characters [0x61, 0x62]),
        (.keyboardTryRead, .characters [0x63])] ∧
      log.inside 2 = some (.keyboardRead 5) ∧ log.accepted = [0x61, 0x62, 0x63] ∧
      log.state.keyboard.contents = [] := by
  have accepted : (run keyStep ⟨logStart, []⟩ twoReaders).accepted = [0x61, 0x62, 0x63] := by decide
  have returned : (run keyStep ⟨logStart, []⟩ twoReaders).returned =
      [(.keyboardRead 2, .characters [0x61, 0x62]), (.keyboardTryRead, .characters [0x63])] := by
    decide
  have order := (keyboard_in_order twoReaders).1
  rw [accepted, CallLog.handed, returned] at order
  exact ⟨returned, by decide, accepted, List.append_cancel_left order⟩

end MiniOS.Semaphores
