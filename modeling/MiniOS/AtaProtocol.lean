import MiniOS.AtaDriver

/-!
# The driver keeps to the protocol

A call may find the drive in any state, since an earlier call may have given up on a command.
Whatever the state is, a call writes to the command block only after the status has told it
that the drive is neither busy nor has data to move.  The command that it then issues is
accepted, and the data that follows belongs to it.
-/

namespace MiniOS.AtaPio

open Function ByteMemory

/-- Nothing has been stored and nothing was written at the wrong time. -/
structure Undisturbed (d d' : Drive) : Prop where
  sectors : d'.sectors = d.sectors
  talkedOver : d'.talkedOver = d.talkedOver

/-- The drive after some reads of its status: a busy one has counted down or completed its
command. -/
def Polled (d d' : Drive) : Prop :=
  d' = d ∨ d.phase = .busy ∧ d.statusZero = false ∧
    ∃ polls, d' = { d with busyPolls := polls } ∨ d' = Drive.commandCompletes { d with busyPolls := polls }

structure Accepting (d : Drive) : Prop where
  notBusy : d.phase ≠ .busy
  notPending : ¬ d.Pending
  alive : d.statusZero = false

section Status

variable {d d' d'' : Drive}

theorem Undisturbed.refl (d : Drive) : Undisturbed d d := ⟨rfl, rfl⟩

theorem Undisturbed.trans (first : Undisturbed d d') (second : Undisturbed d' d'') :
    Undisturbed d d'' :=
  ⟨second.sectors.trans first.sectors, second.talkedOver.trans first.talkedOver⟩

theorem commandCompletes_undisturbed (d : Drive) : Undisturbed d d.commandCompletes := by
  unfold Drive.commandCompletes
  split
  · exact ⟨rfl, rfl⟩
  · split_ifs <;> exact ⟨rfl, rfl⟩

theorem commandCompletes_not_busy (d : Drive) : d.commandCompletes.phase ≠ .busy := by
  unfold Drive.commandCompletes
  split
  · exact fun busy => nomatch busy
  · split_ifs <;> exact fun busy => nomatch busy

theorem commandCompletes_statusZero (d : Drive) : d.commandCompletes.statusZero = d.statusZero := by
  unfold Drive.commandCompletes
  split
  · rfl
  · split_ifs <;> rfl

theorem Polled.undisturbed (polled : Polled d d') : Undisturbed d d' := by
  rcases polled with rfl | ⟨-, -, polls, rfl | rfl⟩
  · exact .refl _
  · exact ⟨rfl, rfl⟩
  · have counted : Undisturbed d { d with busyPolls := polls } := ⟨rfl, rfl⟩
    exact counted.trans (commandCompletes_undisturbed _)

theorem Polled.trans (first : Polled d d') (second : Polled d' d'') : Polled d d'' := by
  rcases first with rfl | ⟨busy, alive, polls, rfl | rfl⟩
  · exact second
  · rcases second with rfl | ⟨-, -, later, rfl | rfl⟩
    · exact .inr ⟨busy, alive, polls, .inl rfl⟩
    · exact .inr ⟨busy, alive, later, .inl rfl⟩
    · exact .inr ⟨busy, alive, later, .inr rfl⟩
  · rcases second with rfl | ⟨stillBusy, -⟩
    · exact .inr ⟨busy, alive, polls, .inr rfl⟩
    · exact absurd stillBusy (commandCompletes_not_busy _)

theorem inbStatus_polled (d : Drive) : Polled d d.inbStatus.1 := by
  unfold Drive.inbStatus
  split
  · exact .inl rfl
  · next alive =>
    have alive : d.statusZero = false := by simpa using alive
    split
    · next busy =>
      split
      · exact .inr ⟨busy, alive, _, .inl rfl⟩
      · exact .inr ⟨busy, alive, d.busyPolls, .inr rfl⟩
    · exact .inl rfl

/-- The status as a function of the state in which the read leaves the drive. -/
def statusOf (d : Drive) : UInt8 :=
  if d.statusZero then 0
  else if d.phase = .busy then
    if d.choice.drqWhileBusy then statusBsy ||| statusDrq else statusBsy
  else d.settledStatus

theorem inbStatus_status (d : Drive) : d.inbStatus.2 = statusOf d.inbStatus.1 := by
  unfold Drive.inbStatus
  by_cases dead : d.statusZero = true
  · rw [if_pos dead, statusOf, if_pos dead]
  · rw [if_neg dead]
    by_cases busy : d.phase = .busy
    · rw [if_pos busy]
      by_cases waiting : 0 < d.busyPolls
      · rw [if_pos waiting, statusOf, if_neg dead, if_pos busy]
      · rw [if_neg waiting, statusOf, commandCompletes_statusZero, if_neg dead,
          if_neg (commandCompletes_not_busy d)]
    · rw [if_neg busy, statusOf, if_neg dead, if_neg busy]

structure StatusTells (d : Drive) (status : UInt8) : Prop where
  alive : nobody status = d.statusZero
  busy : d.statusZero = false → (status &&& statusBsy = 0 ↔ d.phase ≠ .busy)
  drq : d.statusZero = false → d.phase ≠ .busy → (status &&& statusDrq ≠ 0 ↔ d.Pending)
  error : d.statusZero = false → d.phase = .error → status &&& (statusErr ||| statusDf) ≠ 0

theorem errorStatus_bits (bit : ErrorBit) (drq : Bool) :
    let status := statusRdy ||| Drive.errorStatus bit ||| (if drq then statusDrq else 0)
    nobody status = false ∧ status &&& statusBsy = 0 ∧ (status &&& statusDrq ≠ 0 ↔ drq = true) ∧
      status &&& (statusErr ||| statusDf) ≠ 0 := by
  cases bit <;> cases drq <;> decide

theorem idleStatus_bits (failed : Prop) [Decidable failed] :
    let status := if failed then statusRdy ||| statusErr else statusRdy
    nobody status = false ∧ status &&& statusBsy = 0 ∧ status &&& statusDrq = 0 := by
  dsimp only
  split <;> decide

theorem dataStatus_bits : let status := statusRdy ||| statusDrq
    nobody status = false ∧ status &&& statusBsy = 0 ∧ status &&& statusDrq ≠ 0 := by
  decide

theorem busyStatus_bits (drq : Bool) :
    let status := if drq then statusBsy ||| statusDrq else statusBsy
    nobody status = false ∧ status &&& statusBsy ≠ 0 := by
  cases drq <;> decide

theorem settledStatus_tells (alive : d.statusZero = false) (notBusy : d.phase ≠ .busy) :
    StatusTells d d.settledStatus := by
  unfold Drive.settledStatus
  cases phase : d.phase with
  | busy => exact absurd phase notBusy
  | idle =>
    obtain ⟨answers, ready, noData⟩ :=
      idleStatus_bits (d.choice.failFlush = true ∧ d.command = commandFlush)
    exact ⟨answers.trans alive.symm, fun _ => by simp [ready, phase],
      fun _ _ => by simp [noData, phase, Drive.Pending], fun _ failed => by simp [phase] at failed⟩
  | dataIn | dataOut =>
    obtain ⟨answers, ready, data⟩ := dataStatus_bits
    exact ⟨answers.trans alive.symm, fun _ => by simp [ready, phase],
      fun _ _ => by simp [data, phase, Drive.Pending], fun _ failed => by simp [phase] at failed⟩
  | error =>
    obtain ⟨answers, ready, data, failed⟩ := errorStatus_bits d.errorBit d.errorDrq
    exact ⟨answers.trans alive.symm, fun _ => by simp [ready, phase],
      fun _ _ => data.trans (by simp [phase, Drive.Pending]), fun _ _ => failed⟩

theorem statusOf_tells (d : Drive) : StatusTells d (statusOf d) := by
  unfold statusOf
  by_cases dead : d.statusZero = true
  · rw [if_pos dead]
    exact ⟨by rw [dead]; decide, by simp [dead], by simp [dead], by simp [dead]⟩
  · rw [if_neg dead]
    have alive : d.statusZero = false := by simpa using dead
    by_cases busy : d.phase = .busy
    · rw [if_pos busy]
      obtain ⟨answers, isBusy⟩ := busyStatus_bits d.choice.drqWhileBusy
      exact ⟨answers.trans alive.symm, fun _ => by simp [isBusy, busy],
        fun _ notBusy => absurd busy notBusy, fun _ failed => by simp [busy] at failed⟩
    · rw [if_neg busy]
      exact settledStatus_tells alive busy

theorem inbStatus_tells (d : Drive) : StatusTells d.inbStatus.1 d.inbStatus.2 := by
  rw [inbStatus_status]
  exact statusOf_tells _

end Status

section Polls

variable {d d' : Drive}

theorem ataWaitNotBusy_polled (polls : Nat) (d : Drive) :
    Polled d (ataWaitNotBusy polls d).1 ∧ ((ataWaitNotBusy polls d).2 = true →
      (ataWaitNotBusy polls d).1.phase ≠ .busy ∧ (ataWaitNotBusy polls d).1.statusZero = false) := by
  induction polls generalizing d with
  | zero => exact ⟨.inl rfl, fun ready => nomatch ready⟩
  | succ polls ih =>
    have polled := inbStatus_polled d
    have tells := inbStatus_tells d
    rw [ataWaitNotBusy]
    dsimp only
    by_cases gone : nobody d.inbStatus.2 = true
    · rw [if_pos gone]
      exact ⟨polled, fun ready => nomatch ready⟩
    · rw [if_neg gone]
      have alive : d.inbStatus.1.statusZero = false := by
        rw [← tells.alive]
        simpa using gone
      by_cases ready : d.inbStatus.2 &&& statusBsy = 0
      · rw [if_pos ready]
        exact ⟨polled, fun _ => ⟨(tells.busy alive).mp ready, alive⟩⟩
      · rw [if_neg ready]
        obtain ⟨polledLater, outcome⟩ := ih d.inbStatus.1
        exact ⟨polled.trans polledLater, outcome⟩

theorem ataWaitData_polled (polls : Nat) (d : Drive) :
    Polled d (ataWaitData polls d).1 ∧ ((ataWaitData polls d).2 = true →
      (ataWaitData polls d).1.phase = .dataIn ∨ (ataWaitData polls d).1.phase = .dataOut) := by
  induction polls generalizing d with
  | zero => exact ⟨.inl rfl, fun ready => nomatch ready⟩
  | succ polls ih =>
    have polled := inbStatus_polled d
    have tells := inbStatus_tells d
    rw [ataWaitData]
    dsimp only
    by_cases failed : (nobody d.inbStatus.2 || d.inbStatus.2 &&& (statusErr ||| statusDf) != 0) = true
    · rw [if_pos failed]
      exact ⟨polled, fun ready => nomatch ready⟩
    · rw [if_neg failed]
      rw [Bool.not_eq_true, Bool.or_eq_false_iff, tells.alive] at failed
      obtain ⟨alive, noError⟩ := failed
      by_cases ready : d.inbStatus.2 &&& statusBsy = 0 ∧ d.inbStatus.2 &&& statusDrq ≠ 0
      · rw [if_pos ready]
        have notBusy := (tells.busy alive).mp ready.1
        refine ⟨polled, fun _ => ?_⟩
        rcases (tells.drq alive notBusy).mp ready.2 with dataIn | dataOut | ⟨error, -⟩
        · exact .inl dataIn
        · exact .inr dataOut
        · exact absurd (by simpa using noError) (tells.error alive error)
      · rw [if_neg ready]
        obtain ⟨polledLater, outcome⟩ := ih d.inbStatus.1
        exact ⟨polled.trans polledLater, outcome⟩

theorem inw_undisturbed (d : Drive) : Undisturbed d d.inw.1 := by
  unfold Drive.inw
  split
  · dsimp only
    split_ifs <;> exact ⟨rfl, rfl⟩
  · dsimp only
    split_ifs <;> exact ⟨rfl, rfl⟩
  · exact ⟨rfl, rfl⟩

theorem drain_undisturbed (words : Nat) (d : Drive) : Undisturbed d (drain words d) := by
  induction words generalizing d with
  | zero => exact .refl d
  | succ words ih => exact (inw_undisturbed d).trans (ih _)

/-- A status read of a drive that is not busy leaves it as it is. -/
theorem inbStatus_of_not_busy (notBusy : d.phase ≠ .busy) : d.inbStatus.1 = d := by
  rcases inbStatus_polled d with same | ⟨busy, -⟩
  · exact same
  · exact absurd busy notBusy

theorem StatusTells.accepting {status : UInt8} (tells : StatusTells d status)
    (notBusy : d.phase ≠ .busy) (alive : d.statusZero = false) (noData : status &&& statusDrq = 0) :
    Accepting d :=
  ⟨notBusy, fun pending => (tells.drq alive notBusy).mpr pending noData, alive⟩

/-- `ata_wait_idle` writes nothing, and when it succeeds the drive accepts commands. -/
theorem ataWaitIdle_spec (d : Drive) :
    Undisturbed d (ataWaitIdle d).1 ∧ ((ataWaitIdle d).2 = true → Accepting (ataWaitIdle d).1) := by
  unfold ataWaitIdle
  -- the number of polls plays no part
  generalize pollLimit = limit
  obtain ⟨polled, settled⟩ := ataWaitNotBusy_polled limit d
  dsimp only
  cases ready : (ataWaitNotBusy limit d).2 with
  | false => exact ⟨polled.undisturbed, fun idle => nomatch idle⟩
  | true =>
    obtain ⟨notBusy, alive⟩ := settled ready
    have tells := inbStatus_tells (ataWaitNotBusy limit d).1
    have same := inbStatus_of_not_busy notBusy
    rw [same] at tells ⊢
    rw [if_neg (by decide)]
    split
    · next noData => exact ⟨polled.undisturbed, fun _ => tells.accepting notBusy alive noData⟩
    · obtain ⟨polledAgain, settledAgain⟩ :=
        ataWaitNotBusy_polled limit (drain wordsPerSector (ataWaitNotBusy limit d).1)
      have undisturbed := polled.undisturbed.trans
        ((drain_undisturbed wordsPerSector _).trans polledAgain.undisturbed)
      cases readyAgain :
          (ataWaitNotBusy limit (drain wordsPerSector (ataWaitNotBusy limit d).1)).2 with
      | false => exact ⟨undisturbed, fun idle => nomatch idle⟩
      | true =>
        obtain ⟨notBusy, alive⟩ := settledAgain readyAgain
        have tells := inbStatus_tells
          (ataWaitNotBusy limit (drain wordsPerSector (ataWaitNotBusy limit d).1)).1
        have same := inbStatus_of_not_busy notBusy
        rw [same] at tells ⊢
        rw [if_neg (by decide)]
        exact ⟨undisturbed, fun idle => tells.accepting notBusy alive (by simpa using idle)⟩

end Polls

section Commands

variable {choices : Nat → Choice} {d d' : Drive} {value : UInt8} {lba : Nat}

variable (accepting : Accepting d)

include accepting

theorem Accepting.counted : d.counted = d :=
  if_neg fun wrong => wrong.elim accepting.notBusy accepting.notPending

def latched (d : Drive) (value : UInt8) : Register → Drive
  | .count => { d with regCount := value }
  | .low => { d with regLow := value }
  | .mid => { d with regMid := value }
  | .high => { d with regHigh := value }
  | .drive => { d with regDrive := value }
  | .command => d

theorem Accepting.latched (value : UInt8) (register : Register) :
    Accepting (latched d value register) := by
  cases register <;> exact { accepting with }

theorem Accepting.outb_eq {register : Register} (notCommand : register ≠ .command) :
    d.outb choices register value = AtaPio.latched d value register := by
  unfold Drive.outb
  rw [if_neg accepting.notBusy, accepting.counted]
  cases register with
  | command => exact absurd rfl notCommand
  | _ => rfl

theorem Accepting.outb_command : d.outb choices .command value = d.issue choices value := by
  have notData : ¬ (d.phase = .dataIn ∨ d.phase = .dataOut) := fun data =>
    accepting.notPending (data.imp_right .inl)
  unfold Drive.outb
  rw [if_neg accepting.notBusy, accepting.counted]
  exact if_neg notData

structure Started (command : UInt8) (lba : Nat) (before d : Drive) : Prop where
  busy : d.phase = .busy
  alive : d.statusZero = false
  command : d.command = command
  lba : d.lba = lba
  undisturbed : Undisturbed before d

theorem Accepting.issue :
    ∃ started, Started value d.latchedLba d started ∧ Polled started (d.issue choices value) := by
  refine ⟨{ d with
    command := value
    lba := d.latchedLba
    choice := choices d.issued
    issued := d.issued + 1
    busyPolls := (choices d.issued).delay
    phase := .busy }, ⟨rfl, accepting.alive, rfl, rfl, ⟨rfl, rfl⟩⟩, ?_⟩
  unfold Drive.issue
  dsimp only
  split
  · exact .inr ⟨rfl, accepting.alive, (choices d.issued).delay, .inr rfl⟩
  · exact .inl rfl

omit accepting

theorem driveRegister_low : ∀ top < 16, (0xE0 ||| UInt8.ofNat top).toNat % 16 = top := by
  decide

/-- The address of a transfer arrives with its command. -/
theorem Accepting.programSector (accepting : Accepting d) (small : lba ≤ 0x0FFFFFFF) :
    ∃ started, Started value lba d started ∧
      Polled started (AtaPio.programSector choices d lba value) := by
  have drive := accepting.latched (0xE0 ||| UInt8.ofNat (lba / 2 ^ 24 % 16)) .drive
  have count := drive.latched 1 .count
  have low := count.latched (UInt8.ofNat lba) .low
  have mid := low.latched (UInt8.ofNat (lba / 2 ^ 8)) .mid
  have high := mid.latched (UInt8.ofNat (lba / 2 ^ 16)) .high
  unfold AtaPio.programSector
  dsimp only
  rw [accepting.outb_eq (by decide), drive.outb_eq (by decide), count.outb_eq (by decide),
    low.outb_eq (by decide), mid.outb_eq (by decide), high.outb_command]
  obtain ⟨started, isStarted, polled⟩ := high.issue
  refine ⟨started, ⟨isStarted.busy, isStarted.alive, isStarted.command, ?_, ?_⟩, polled⟩
  · rw [isStarted.lba]
    have top := driveRegister_low (lba / 2 ^ 24 % 16) (Nat.mod_lt _ (by decide))
    simp only [AtaPio.latched, Drive.latchedLba, top, UInt8.toNat_ofNat']
    omega
  · exact ⟨isStarted.undisturbed.sectors, isStarted.undisturbed.talkedOver⟩

end Commands

section Data

variable {d d' before : Drive} {lba : Nat}

theorem Started.polled_undisturbed {command : UInt8} (started : Started command lba before d)
    (polled : Polled d d') : Undisturbed before d' :=
  started.undisturbed.trans polled.undisturbed

/-- The data that follows a READ is the sector that was asked for. -/
theorem Started.reading (started : Started commandRead lba before d) (polled : Polled d d')
    (ready : d'.phase = .dataIn ∨ d'.phase = .dataOut) :
    d'.phase = .dataIn ∧ d'.index = 0 ∧ d'.buffer = wordAt (before.sectors lba) := by
  have busy := started.busy
  rcases polled with rfl | ⟨-, -, polls, rfl | rfl⟩
  · simp [busy] at ready
  · simp [busy] at ready
  · unfold Drive.commandCompletes at ready ⊢
    dsimp only at ready ⊢
    split at ready
    · simp at ready
    · simp only [started.command, started.lba, started.undisturbed.sectors]
      exact ⟨rfl, rfl, rfl⟩

/-- The drive that asks for data after a WRITE stores it at the sector that was asked for. -/
theorem Started.writing (started : Started commandWrite lba before d) (polled : Polled d d')
    (ready : d'.phase = .dataIn ∨ d'.phase = .dataOut) :
    d'.phase = .dataOut ∧ d'.index = 0 ∧ d'.lba = lba := by
  have busy := started.busy
  rcases polled with rfl | ⟨-, -, polls, rfl | rfl⟩
  · simp [busy] at ready
  · simp [busy] at ready
  · unfold Drive.commandCompletes at ready ⊢
    dsimp only at ready ⊢
    split at ready
    · simp at ready
    · simp only [started.command]
      exact ⟨rfl, rfl, started.lba⟩

theorem byteAt_congr {words words' : Nat → Nat} {offset : Nat}
    (same : words (offset / 2) = words' (offset / 2)) :
    byteAt words offset = byteAt words' offset := by
  rw [byteAt, byteAt, same]

theorem byteAt_wordAt (bytes : Region) (offset : Nat) :
    byteAt (wordAt bytes) offset = bytes offset := by
  have small := (bytes (2 * (offset / 2))).toNat_lt
  unfold byteAt wordAt
  split
  · next even =>
    have place : 2 * (offset / 2) = offset := by omega
    rw [place] at small ⊢
    apply UInt8.toNat_inj.mp
    rw [UInt8.toNat_ofNat']
    omega
  · next odd =>
    have place : 2 * (offset / 2) + 1 = offset := by omega
    rw [place, Nat.add_mul_div_left _ _ (by decide), Nat.div_eq_of_lt small, Nat.zero_add]
    exact UInt8.ofNat_toNat

theorem inw_dataIn (dataIn : d.phase = .dataIn) : d.inw.2 = d.buffer d.index ∧
      (d.index + 1 < wordsPerSector → d.inw.1 = { d with index := d.index + 1 }) := by
  unfold Drive.inw
  rw [dataIn]
  exact ⟨rfl, fun more => if_neg (Nat.not_le.mpr more)⟩

/-- The loop of `ata_read_sector` delivers the words of the drive. -/
theorem readLoop_spec (words : Nat) : ∀ (i : Nat) (d : Drive) (buffer : Region),
    d.phase = .dataIn → d.index = i → i + words = wordsPerSector →
      Undisturbed d (readLoop words i d buffer).1 ∧ ∀ offset,
        (readLoop words i d buffer).2 offset =
          if 2 * i ≤ offset ∧ offset < 2 * wordsPerSector then byteAt d.buffer offset
          else buffer offset := by
  induction words with
  | zero =>
    intro i d buffer _ _ total
    exact ⟨.refl d, fun offset => by rw [readLoop, if_neg (by omega)]⟩
  | succ words ih =>
    intro i d buffer dataIn atIndex total
    obtain ⟨word, continues⟩ := inw_dataIn dataIn
    rw [readLoop]
    dsimp only
    rw [word, atIndex]
    have rest : ∀ filled : Region, Undisturbed d.inw.1 (readLoop words (i + 1) d.inw.1 filled).1 ∧
        ∀ offset, (readLoop words (i + 1) d.inw.1 filled).2 offset =
          if 2 * (i + 1) ≤ offset ∧ offset < 2 * wordsPerSector then byteAt d.buffer offset
          else filled offset := by
      intro filled
      cases words with
      | zero => exact ⟨.refl _, fun offset => by rw [readLoop, if_neg (by omega)]⟩
      | succ words =>
        rw [continues (by omega)]
        exact ih (i + 1) _ _ dataIn (by rw [atIndex]) (by omega)
    refine ⟨(inw_undisturbed d).trans (rest _).1, fun offset => ?_⟩
    rw [(rest _).2]
    by_cases later : 2 * (i + 1) ≤ offset ∧ offset < 2 * wordsPerSector
    · rw [if_pos later, if_pos (by omega)]
    · rw [if_neg later]
      by_cases high : offset = 2 * i + 1
      · rw [high, update_self, if_pos (by omega), byteAt, if_neg (by omega)]
        congr 3
        omega
      · rw [update_of_ne high]
        by_cases low : offset = 2 * i
        · rw [low, update_self, if_pos (by omega), byteAt, if_pos (by omega)]
          congr 2
          omega
        · rw [update_of_ne low, if_neg (by omega)]

theorem afterData_undisturbed (d : Drive) : Undisturbed d d.afterData := by
  unfold Drive.afterData
  split
  · exact ⟨rfl, rfl⟩
  · split <;> exact ⟨rfl, rfl⟩

theorem dataTaken_undisturbed (d : Drive) : Undisturbed d.storeBuffer d.dataTaken := by
  obtain ⟨sectors, talkedOver⟩ := afterData_undisturbed d.storeBuffer
  unfold Drive.dataTaken
  dsimp only
  split <;> exact ⟨sectors, talkedOver⟩

/-- The loop of `ata_write_sector` fills the buffer of the drive, which is then stored. -/
theorem writeLoop_spec (bytes : Region) (words : Nat) : ∀ (i : Nat) (d : Drive),
    d.phase = .dataOut → d.index = i → i + words = wordsPerSector → 0 < words →
      (writeLoop words i d bytes).talkedOver = d.talkedOver ∧
      (writeLoop words i d bytes).sectors = update d.sectors d.lba fun offset =>
        if offset < 2 * wordsPerSector then
          byteAt (fun j => if i ≤ j ∧ j < wordsPerSector then wordAt bytes j else d.buffer j) offset
        else d.sectors d.lba offset := by
  induction words with
  | zero => exact fun i d _ _ _ positive => absurd positive (Nat.lt_irrefl 0)
  | succ words ih =>
    intro i d dataOut atIndex total _
    rw [writeLoop, Drive.outw, if_pos dataOut, atIndex]
    dsimp only
    cases words with
    | zero =>
      rw [if_pos (by omega), writeLoop]
      obtain ⟨stored, same⟩ := dataTaken_undisturbed { d with
        buffer := update d.buffer i (wordAt bytes i)
        index := i + 1 }
      have filled : update d.buffer i (wordAt bytes i) =
          fun j => if i ≤ j ∧ j < wordsPerSector then wordAt bytes j else d.buffer j := by
        funext j
        by_cases last : j = i
        · rw [last, update_self, if_pos (by omega)]
        · rw [update_of_ne last, if_neg (by omega)]
      refine ⟨same, stored.trans ?_⟩
      rw [← filled]
      rfl
    | succ words =>
      rw [if_neg (by omega)]
      obtain ⟨same, stored⟩ := ih (i + 1) { d with
        buffer := update d.buffer i (wordAt bytes i)
        index := i + 1 } dataOut rfl (by omega) (Nat.succ_pos _)
      have filled : (fun j => if i + 1 ≤ j ∧ j < wordsPerSector then wordAt bytes j
          else update d.buffer i (wordAt bytes i) j) =
            fun j => if i ≤ j ∧ j < wordsPerSector then wordAt bytes j else d.buffer j := by
        funext j
        by_cases first : j = i
        · rw [first, if_neg (by omega), update_self, if_pos (by omega)]
        · rw [update_of_ne first]
          by_cases later : i + 1 ≤ j ∧ j < wordsPerSector
          · rw [if_pos later, if_pos (by omega)]
          · rw [if_neg later, if_neg (by omega)]
      refine ⟨same, stored.trans ?_⟩
      rw [← filled]

end Data

section Calls

variable {choices : Nat → Choice} {lba : Nat}

theorem disableInterrupts_undisturbed (d : Drive) : Undisturbed d (disableInterrupts d) := ⟨rfl, rfl⟩

/-- The transfer of a read leaves the disk alone, and delivers the sector if it succeeds. -/
theorem readTransfer_spec (choices : Nat → Choice) (d : Drive) (small : lba ≤ 0x0FFFFFFF)
    (buffer : Region) :
    Undisturbed d (readTransfer choices d lba buffer).1 ∧
      ((readTransfer choices d lba buffer).2.2 = true → ∀ offset < 2 * wordsPerSector,
        (readTransfer choices d lba buffer).2.1 offset = d.sectors lba offset) := by
  unfold readTransfer
  generalize pollLimit = limit
  obtain ⟨waited, accepts⟩ := ataWaitIdle_spec (disableInterrupts d)
  have untouched := (disableInterrupts_undisturbed d).trans waited
  dsimp only
  cases idle : (ataWaitIdle (disableInterrupts d)).2 with
  | false => exact ⟨untouched, fun success => nomatch success⟩
  | true =>
    rw [if_neg (by decide)]
    obtain ⟨started, isStarted, polledStart⟩ :=
      (accepts idle).programSector small
    obtain ⟨polled, hasData⟩ := ataWaitData_polled limit
      (programSector choices (ataWaitIdle (disableInterrupts d)).1 lba commandRead)
    have polledAll := polledStart.trans polled
    have waitedData := untouched.trans (isStarted.polled_undisturbed polledAll)
    cases ready : (ataWaitData limit
        (programSector choices (ataWaitIdle (disableInterrupts d)).1 lba commandRead)).2 with
    | false => exact ⟨waitedData, fun success => nomatch success⟩
    | true =>
      rw [if_neg (by decide)]
      obtain ⟨dataIn, atStart, words⟩ := isStarted.reading polledAll (hasData ready)
      obtain ⟨moved, delivered⟩ := readLoop_spec wordsPerSector 0 _ buffer dataIn atStart
        (Nat.zero_add _)
      dsimp only
      refine ⟨waitedData.trans moved, fun _ offset inside => ?_⟩
      rw [delivered, if_pos ⟨Nat.zero_le _, inside⟩, words, byteAt_wordAt, untouched.sectors]

theorem drq_clear_of_clear {status : UInt8}
    (clear : status &&& (statusErr ||| statusDf ||| statusDrq) = 0) : status &&& statusDrq = 0 := by
  have mask : (statusErr ||| statusDf ||| statusDrq) &&& statusDrq = statusDrq := by decide
  rw [← mask, ← UInt8.and_assoc, clear, UInt8.zero_and]

theorem finishWrite_undisturbed (choices : Nat → Choice) (d : Drive) :
    Undisturbed d (finishWrite choices d).1 := by
  unfold finishWrite
  generalize pollLimit = limit
  obtain ⟨polled, settled⟩ := ataWaitNotBusy_polled limit d
  dsimp only
  cases ready : (ataWaitNotBusy limit d).2 with
  | false => exact polled.undisturbed
  | true =>
    rw [if_neg (by decide)]
    obtain ⟨notBusy, alive⟩ := settled ready
    have tells := inbStatus_tells (ataWaitNotBusy limit d).1
    rw [inbStatus_of_not_busy notBusy] at tells ⊢
    split
    · exact polled.undisturbed
    · next complete =>
      simp only [Bool.or_eq_true, bne_iff_ne, not_or, not_not] at complete
      have accepting := tells.accepting notBusy alive (drq_clear_of_clear complete.2)
      rw [accepting.outb_command]
      obtain ⟨started, isStarted, polledStart⟩ : ∃ started,
          Started commandFlush (ataWaitNotBusy limit d).1.latchedLba (ataWaitNotBusy limit d).1 started ∧
            Polled started ((ataWaitNotBusy limit d).1.issue choices commandFlush) :=
        accepting.issue
      obtain ⟨polledFlush, settledFlush⟩ :=
        ataWaitNotBusy_polled limit ((ataWaitNotBusy limit d).1.issue choices commandFlush)
      have flushed := polled.undisturbed.trans
        (isStarted.polled_undisturbed (polledStart.trans polledFlush))
      cases readyAgain : (ataWaitNotBusy limit
          ((ataWaitNotBusy limit d).1.issue choices commandFlush)).2 with
      | false => exact flushed
      | true =>
        rw [if_neg (by decide), inbStatus_of_not_busy (settledFlush readyAgain).1]
        exact flushed

/-- The transfer of a write changes no sector but the one asked for, which has the new
contents if it succeeds. -/
theorem writeTransfer_spec (choices : Nat → Choice) (d : Drive) (small : lba ≤ 0x0FFFFFFF)
    (bytes : Region) :
    (writeTransfer choices d lba bytes).1.talkedOver = d.talkedOver ∧
      (∀ other, other ≠ lba → (writeTransfer choices d lba bytes).1.sectors other = d.sectors other) ∧
      ((writeTransfer choices d lba bytes).2 = true → ∀ offset < 2 * wordsPerSector,
        (writeTransfer choices d lba bytes).1.sectors lba offset = bytes offset) := by
  unfold writeTransfer
  generalize pollLimit = limit
  obtain ⟨waited, accepts⟩ := ataWaitIdle_spec (disableInterrupts d)
  have untouched := (disableInterrupts_undisturbed d).trans waited
  dsimp only
  cases idle : (ataWaitIdle (disableInterrupts d)).2 with
  | false =>
    exact ⟨untouched.talkedOver, fun other _ => congrFun untouched.sectors other,
      fun success => nomatch success⟩
  | true =>
    rw [if_neg (by decide)]
    obtain ⟨started, isStarted, polledStart⟩ := (accepts idle).programSector small
    obtain ⟨polled, hasData⟩ := ataWaitData_polled limit
      (programSector choices (ataWaitIdle (disableInterrupts d)).1 lba commandWrite)
    have polledAll := polledStart.trans polled
    have waitedData := untouched.trans (isStarted.polled_undisturbed polledAll)
    cases ready : (ataWaitData limit
        (programSector choices (ataWaitIdle (disableInterrupts d)).1 lba commandWrite)).2 with
    | false =>
      exact ⟨waitedData.talkedOver, fun other _ => congrFun waitedData.sectors other,
        fun success => nomatch success⟩
    | true =>
      rw [if_neg (by decide)]
      obtain ⟨dataOut, atStart, sector⟩ := isStarted.writing polledAll (hasData ready)
      obtain ⟨quiet, stored⟩ := writeLoop_spec bytes wordsPerSector 0 _ dataOut atStart
        (Nat.zero_add _) (by decide)
      have finished := finishWrite_undisturbed choices (writeLoop wordsPerSector 0
        (ataWaitData limit
          (programSector choices (ataWaitIdle (disableInterrupts d)).1 lba commandWrite)).1 bytes)
      rw [sector, waitedData.sectors] at stored
      rw [finished.sectors, stored, finished.talkedOver, quiet]
      refine ⟨waitedData.talkedOver, fun other differs => update_of_ne differs _ _,
        fun _ offset inside => ?_⟩
      have isWord : offset / 2 < wordsPerSector := by omega
      rw [update_self, if_pos inside]
      refine .trans (byteAt_congr ?_) (byteAt_wordAt bytes offset)
      exact if_pos ⟨Nat.zero_le _, isWord⟩

/-- What holds of every call in a state: a read that succeeds delivers the sector, a write
that succeeds has stored it, no call changes another sector, and none writes to the command
block of a drive that is busy or has data to move. -/
structure CallsSound (choices : Nat → Choice) (ata : Ata) : Prop where
  readDelivers : ∀ lba buffer, (ataReadSector choices ata lba buffer).2.1 = true →
    ∃ after, (ataReadSector choices ata lba buffer).2.2 = some after ∧
      ∀ offset < 2 * wordsPerSector, after offset = ata.drive.sectors lba offset
  readKeeps : ∀ lba buffer, (ataReadSector choices ata lba buffer).1.drive.sectors = ata.drive.sectors
  writeStores : ∀ lba bytes, (ataWriteSector choices ata lba (some bytes)).2 = true →
    ∀ offset < 2 * wordsPerSector,
      (ataWriteSector choices ata lba (some bytes)).1.drive.sectors lba offset = bytes offset
  writeKeeps : ∀ lba buffer other, other ≠ lba →
    (ataWriteSector choices ata lba buffer).1.drive.sectors other = ata.drive.sectors other
  nullFails : ∀ lba, (ataReadSector choices ata lba none).2.1 = false ∧
    (ataWriteSector choices ata lba none).2 = false
  quiet : ∀ call, (callStep choices ata call).drive.talkedOver = ata.drive.talkedOver

theorem refuses_of_large {ata : Ata} (accepted : ¬ ata.refuses lba = true) : lba ≤ 0x0FFFFFFF := by
  simp only [Ata.refuses, Bool.or_eq_true, decide_eq_true_eq, not_or] at accepted
  omega

theorem ataReadSector_spec (ata : Ata) (lba : Nat) (buffer : Option Region) :
    Undisturbed ata.drive (ataReadSector choices ata lba buffer).1.drive ∧
      ((ataReadSector choices ata lba buffer).2.1 = true →
        ∃ after, (ataReadSector choices ata lba buffer).2.2 = some after ∧
          ∀ offset < 2 * wordsPerSector, after offset = ata.drive.sectors lba offset) := by
  cases buffer with
  | none => exact ⟨.refl _, fun success => nomatch success⟩
  | some region =>
    rw [ataReadSector]
    split
    · exact ⟨.refl _, fun success => nomatch success⟩
    · next accepted =>
      obtain ⟨undisturbed, delivers⟩ :=
        readTransfer_spec choices ata.drive (refuses_of_large accepted) region
      exact ⟨undisturbed, fun success => ⟨_, rfl, delivers success⟩⟩

theorem ataWriteSector_spec (ata : Ata) (lba : Nat) (buffer : Option Region) :
    (ataWriteSector choices ata lba buffer).1.drive.talkedOver = ata.drive.talkedOver ∧
      (∀ other, other ≠ lba →
        (ataWriteSector choices ata lba buffer).1.drive.sectors other = ata.drive.sectors other) ∧
      ((ataWriteSector choices ata lba buffer).2 = true → ∀ bytes, buffer = some bytes →
        ∀ offset < 2 * wordsPerSector,
          (ataWriteSector choices ata lba buffer).1.drive.sectors lba offset = bytes offset) := by
  cases buffer with
  | none => exact ⟨rfl, fun _ _ => rfl, fun success => nomatch success⟩
  | some region =>
    rw [ataWriteSector]
    split
    · exact ⟨rfl, fun _ _ => rfl, fun success => nomatch success⟩
    · next accepted =>
      obtain ⟨quiet, keeps, stores⟩ :=
        writeTransfer_spec choices ata.drive (refuses_of_large accepted) region
      refine ⟨quiet, keeps, fun success bytes same => ?_⟩
      obtain rfl := Option.some.inj same
      exact stores success

theorem callsSound (choices : Nat → Choice) (ata : Ata) : CallsSound choices ata where
  readDelivers lba buffer := (ataReadSector_spec ata lba buffer).2
  readKeeps lba buffer := (ataReadSector_spec ata lba buffer).1.sectors
  writeStores lba bytes success := (ataWriteSector_spec ata lba (some bytes)).2.2 success bytes rfl
  writeKeeps lba buffer := (ataWriteSector_spec ata lba buffer).2.1
  nullFails _ := ⟨rfl, rfl⟩
  quiet call := by
    cases call with
    | read lba buffer => exact (ataReadSector_spec ata lba buffer).1.talkedOver
    | write lba buffer => exact (ataWriteSector_spec ata lba buffer).1

/-- Whatever the drive does with each command, and however many calls have given up on it,
every call after `ata_install` keeps to the protocol. -/
theorem driver_keeps_protocol (choices : Nat → Choice) (d : Drive) (calls : List Call) :
    CallsSound choices (Machine.run (callStep choices) (ataInstall choices d) calls) ∧
      (Machine.run (callStep choices) (ataInstall choices d) calls).drive.talkedOver =
        (ataInstall choices d).drive.talkedOver := by
  refine ⟨callsSound choices _, ?_⟩
  exact Machine.run_invariant
    (fun ata => ata.drive.talkedOver = (ataInstall choices d).drive.talkedOver)
    (fun ata call same => ((callsSound choices ata).quiet call).trans same) rfl calls

end Calls

def healthy : Choice := ⟨0, none, false, none, false, false, false⟩

def fresh : Drive where
  sectors := fun lba _ => UInt8.ofNat lba
  reported := 4
  sigMid := 0
  sigHigh := 0
  regCtrl := 0
  regCount := 0
  regLow := 0
  regMid := 0
  regHigh := 0
  regDrive := 0
  command := 0
  lba := 0
  choice := healthy
  issued := 0
  phase := .idle
  busyPolls := 0
  buffer := fun _ => 0
  index := 0
  errorBit := .err
  errorDrq := false
  statusZero := false
  talkedOver := 0

/-- The probe of this drive succeeds, and so does a read. -/
example :
    let ata := ataInstall (fun _ => healthy) fresh
    ata.sectorCount = 4 ∧
      (ataReadSector (fun _ => healthy) ata 3 (some fun _ => 0)).2.2.map (fun buffer => buffer 511) = some 3 := by
  decide +kernel

end MiniOS.AtaPio
