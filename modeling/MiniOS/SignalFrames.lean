import MiniOS.ByteMemory
import MiniOS.JobControl

/-!
# Signal frames

What `signal_deliver` puts on the user stack and what `sys_sigreturn` takes from there.  The
frame lies in memory that the program can write, so nothing is known about the words that
`sys_sigreturn` finds, unless the handler has left them alone.
-/

namespace MiniOS.SignalFrames

open Function Kernel ByteMemory JobControl UserLayout

def eflagsUserMask : Nat := 0xCD5

def eflagsAlwaysSet : Nat := 0x202

def sigcontextSize : Nat := 40

/-- The signal number and the return address lie below the saved context. -/
def frameSize : Nat := sigcontextSize + 8

/-- The fields of a `sigcontext_t` in their order. -/
def contextWords (regs : UserRegisters) : List Nat :=
  [regs.eip, regs.eflags, regs.eax, regs.ebx, regs.ecx, regs.edx, regs.esi, regs.edi, regs.ebp,
    regs.useresp]

def storeWords (m : Region) (start : Nat) : List Nat → Region
  | [] => m
  | word :: rest => storeWords (store32 m start word) (start + 4) rest

def storeFrame (m : Region) (regs : UserRegisters) (signum : Signal) (trampoline : Nat) : Region :=
  let usp := regs.useresp - sigcontextSize
  let m := storeWords m usp (contextWords regs)
  let m := store32 m (usp - 4) signum.val
  store32 m (usp - 8) trampoline

def frameRejected (proc : Process) (useresp : Nat) : Bool :=
  decide (useresp < frameSize) ||
    !signalStackRangeValid proc (useresp - sigcontextSize - 8) frameSize

/-- The program goes on where it was, enters a handler, or is ended. -/
inductive Outcome
  | resumed (proc : Process)
  | entered (signum : Signal) (proc : Process) (regs : UserRegisters) (mem : Region)
  | exited (status : Int)

/-- The loop of `signal_deliver`.  `whileStopped` is what the process has become when it gets a
`SIGCONT` after a `SIGSTOP`, or `none` if it is killed before. -/
def deliverLoop (whileStopped : Process → Option Process) (regs : UserRegisters) (m : Region) :
    List Signal → Process → Outcome
  | [], proc => .resumed proc
  | signum :: rest, proc =>
    if proc.sigPending signum = false then deliverLoop whileStopped regs m rest proc
    else
      let proc := { proc with sigPending := update proc.sigPending signum false }
      let handler := proc.sigHandler signum
      if signum = sigstop then
        match whileStopped { proc with stopped := true } with
        | none => .exited taskKillStatus
        | some proc =>
          deliverLoop whileStopped regs m rest
            { proc with
              sigPending := update proc.sigPending sigcont false
              stopped := false }
      else if signum = sigcont ∧ handler ≤ 1 then deliverLoop whileStopped regs m rest proc
      else if handler = 0 then
        if signum = sigchld then deliverLoop whileStopped regs m rest proc
        else .exited (-128 - signum.val)
      else if handler = 1 then deliverLoop whileStopped regs m rest proc
      else if frameRejected proc regs.useresp then .exited (-128 - signum.val)
      else
        .entered signum { proc with inSignal := true }
          { regs with useresp := regs.useresp - frameSize, eip := handler }
          (storeFrame m regs signum proc.sigTrampoline)

/-- `signal_deliver`; `ring3` says whether the interrupt came from ring 3. -/
def signalDeliver (ring3 : Bool) (whileStopped : Process → Option Process) (proc : Process)
    (regs : UserRegisters) (m : Region) : Outcome :=
  if ring3 = false ∨ proc.inSignal = true then .resumed proc
  else if ∀ signum, proc.sigPending signum = false then .resumed proc
  else deliverLoop whileStopped regs m allSignals proc

/-- The context saved at an address, with the flags that a program may choose. -/
def savedContext (m : Region) (sc : Nat) : UserRegisters where
  eip := load32 m sc
  eflags := (load32 m (sc + 4) &&& eflagsUserMask) ||| eflagsAlwaysSet
  eax := load32 m (sc + 8)
  ebx := load32 m (sc + 12)
  ecx := load32 m (sc + 16)
  edx := load32 m (sc + 20)
  esi := load32 m (sc + 24)
  edi := load32 m (sc + 28)
  ebp := load32 m (sc + 32)
  useresp := load32 m (sc + 36)

/-- `sys_sigreturn`; `none` if the process is ended. -/
def sysSigreturn (proc : Process) (regs : UserRegisters) (m : Region) :
    Option (Process × UserRegisters) :=
  if signalStackRangeValid proc regs.useresp (4 + sigcontextSize) = false then none
  else some ({ proc with inSignal := false }, savedContext m (regs.useresp + 4))

theorem mem_allSignals : ∀ {signum : Signal}, signum ≠ 0 → signum ∈ allSignals := by decide

section Words

variable {m other : Region} {start offset : Nat}

theorem load32_storeWords_below (words : List Nat) (below : offset + 4 ≤ start) :
    load32 (storeWords m start words) offset = load32 m offset := by
  induction words generalizing m start with
  | nil => rfl
  | cons word rest ih =>
    rw [storeWords, ih (by omega)]
    exact load32_store32_outside (.inl below)

theorem load32_storeWords {words : List Nat} {index word : Nat} (isWord : words[index]? = some word) :
    load32 (storeWords m start words) (start + 4 * index) = word % 2 ^ 32 := by
  induction words generalizing m start index with
  | nil => exact nomatch isWord
  | cons first rest ih =>
    rw [storeWords]
    cases index with
    | zero =>
      obtain rfl : first = word := by simpa using isWord
      rw [load32_storeWords_below rest (by omega)]
      exact load32_store32 ..
    | succ index =>
      rw [show start + 4 * (index + 1) = start + 4 + 4 * index by omega]
      exact ih (by simpa using isWord)

end Words

section Frames

variable {whileStopped : Process → Option Process} {proc proc' later : Process}
  {regs regs' laterRegs : UserRegisters} {m m' laterMem : Region} {signum : Signal}

variable {signals : List Signal}

/-- What a delivery does to the registers and to memory. -/
theorem deliverLoop_entered (entered : deliverLoop whileStopped regs m signals proc = .entered signum proc' regs' m') :
    frameSize ≤ regs.useresp ∧ regs'.useresp = regs.useresp - frameSize ∧
      m' = storeFrame m regs signum proc'.sigTrampoline := by
  induction signals generalizing proc with
  | nil => exact nomatch entered
  | cons next rest ih =>
    rw [deliverLoop] at entered
    split at entered
    · exact ih entered
    dsimp only at entered
    split at entered
    · split at entered
      · exact nomatch entered
      · exact ih entered
    split at entered
    · exact ih entered
    split at entered
    · split at entered
      · exact ih entered
      · exact nomatch entered
    split at entered
    · exact ih entered
    split at entered
    · exact nomatch entered
    · next accepted =>
      obtain ⟨rfl, rfl, rfl, rfl⟩ := entered
      rw [frameRejected, Bool.or_eq_true, not_or, decide_eq_true_eq, Nat.not_lt] at accepted
      exact ⟨accepted.1, rfl, rfl⟩

/-- The first pending signal with a handler is delivered when its frame fits. -/
theorem deliverLoop_first (member : signum ∈ signals)
    (ordered : signals.Pairwise (· < ·)) (pending : proc.sigPending signum = true)
    (first : ∀ other ∈ signals, other < signum → proc.sigPending other = false)
    (notStop : signum ≠ sigstop) (handled : 2 ≤ proc.sigHandler signum)
    (accepted : frameRejected proc regs.useresp = false) :
    ∃ proc' regs' m', deliverLoop whileStopped regs m signals proc = .entered signum proc' regs' m' ∧
      regs'.eip = proc.sigHandler signum ∧ load32 m' regs'.useresp = proc.sigTrampoline % 2 ^ 32 := by
  induction signals with
  | nil => exact nomatch member
  | cons next rest ih =>
    rw [List.pairwise_cons] at ordered
    rw [List.forall_mem_cons] at first
    rw [deliverLoop]
    rcases List.mem_cons.mp member with rfl | later
    · have range : frameRejected { proc with sigPending := update proc.sigPending signum false }
          regs.useresp = false := accepted
      rw [if_neg (by simp [pending]), if_neg notStop, if_neg (by dsimp only; omega),
        if_neg (by dsimp only; omega), if_neg (by dsimp only; omega), if_neg (by simp [range])]
      refine ⟨_, _, _, rfl, rfl, ?_⟩
      dsimp only [storeFrame]
      rw [show regs.useresp - frameSize = regs.useresp - sigcontextSize - 8 by
        unfold frameSize; omega]
      exact load32_store32 ..
    · rw [if_pos (first.1 (ordered.1 signum later))]
      exact ih later ordered.2 first.2

/-- What a handler that leaves the frame alone returns to. -/
theorem savedContext_storeFrame (fits : ∀ word ∈ contextWords regs, word < 2 ^ 32)
    (room : frameSize ≤ regs.useresp)
    (kept : ∀ address, regs.useresp - frameSize ≤ address → address < regs.useresp →
      laterMem address = storeFrame m regs signum proc.sigTrampoline address) :
    savedContext laterMem (regs.useresp - sigcontextSize) =
      { regs with eflags := (regs.eflags &&& eflagsUserMask) ||| eflagsAlwaysSet } := by
  have word : ∀ index value, (contextWords regs)[index]? = some value →
      load32 laterMem (regs.useresp - sigcontextSize + 4 * index) = value := by
    intro index value isValue
    have inside : index < 10 := (List.getElem?_eq_some_iff.mp isValue).1
    have roomy : 48 ≤ regs.useresp := room
    calc load32 laterMem (regs.useresp - sigcontextSize + 4 * index)
        _ = load32 (storeFrame m regs signum proc.sigTrampoline)
            (regs.useresp - sigcontextSize + 4 * index) :=
          load32_congr fun place _ => kept _ (by unfold frameSize sigcontextSize; omega)
            (by unfold sigcontextSize; omega)
        _ = load32 (storeWords m (regs.useresp - sigcontextSize) (contextWords regs))
            (regs.useresp - sigcontextSize + 4 * index) := by
          dsimp only [storeFrame, sigcontextSize]
          rw [load32_store32_outside (by omega), load32_store32_outside (by omega)]
        _ = value % 2 ^ 32 := load32_storeWords isValue
        _ = value := Nat.mod_eq_of_lt (fits value (List.mem_of_getElem? isValue))
  have first : load32 laterMem (regs.useresp - sigcontextSize) = regs.eip := word 0 regs.eip rfl
  rw [savedContext, first, word 1 regs.eflags rfl, word 2 regs.eax rfl,
    word 3 regs.ebx rfl, word 4 regs.ecx rfl, word 5 regs.edx rfl, word 6 regs.esi rfl,
    word 7 regs.edi rfl, word 8 regs.ebp rfl, word 9 regs.useresp rfl]

/-- The upper part of an accepted range is accepted. -/
theorem signalStackRangeValid_upper {start size : Nat} (skip : Nat) (proper : skip < size)
    (valid : signalStackRangeValid proc start size = true) :
    signalStackRangeValid proc (start + skip) (size - skip) = true := by
  rw [signalStackRangeValid] at valid ⊢
  split at valid
  · exact nomatch valid
  rw [if_neg (by omega)]
  dsimp only at valid ⊢
  rw [show start + skip + (size - skip) = start + size by omega]
  split at valid
  · next low => rw [if_pos ⟨low.1.trans (Nat.le_add_right ..), low.2⟩]
  · split at valid
    · exact nomatch valid
    · next high =>
      split
      · rfl
      rw [if_neg (by omega), List.all_eq_true]
      intro page member
      rw [List.mem_range'_1] at member
      refine List.all_eq_true.mp valid page (List.mem_range'_1.mpr ?_)
      have later : start / 0x1000 ≤ (start + skip) / 0x1000 := Nat.div_le_div_right (by omega)
      omega

end Frames

/-- Delivery and return are inverse.  The first pending signal with a handler is delivered when
its frame fits; a handler that returns with its frame as it was brings every register back, but
for the flags that are not the program's; and whatever the frame holds, no other flags than
these and the fixed ones are set, with interrupts enabled. -/
theorem signal_return_restores (whileStopped : Process → Option Process) (proc : Process)
    (regs : UserRegisters) (m : Region) (signum : Signal) :
    (signum ≠ 0 → signum ≠ sigstop → proc.inSignal = false → proc.sigPending signum = true →
      (∀ other, other ≠ 0 → other < signum → proc.sigPending other = false) →
      2 ≤ proc.sigHandler signum → frameRejected proc regs.useresp = false →
      ∃ proc' regs' m', signalDeliver true whileStopped proc regs m = .entered signum proc' regs' m' ∧
        regs'.eip = proc.sigHandler signum ∧
        load32 m' regs'.useresp = proc.sigTrampoline % 2 ^ 32) ∧
    (∀ proc' regs' m', (∀ word ∈ contextWords regs, word < 2 ^ 32) →
      signalDeliver true whileStopped proc regs m = .entered signum proc' regs' m' →
      ∀ later laterRegs laterMem, laterRegs.useresp = regs'.useresp + 4 →
        (∀ address, regs'.useresp ≤ address → address < regs'.useresp + frameSize →
          laterMem address = m' address) →
        signalStackRangeValid later regs'.useresp frameSize = true →
        sysSigreturn later laterRegs laterMem =
          some ({ later with inSignal := false },
            { regs with eflags := (regs.eflags &&& eflagsUserMask) ||| eflagsAlwaysSet })) ∧
    (∀ proc' regs', sysSigreturn proc regs m = some (proc', regs') →
      regs'.eflags &&& 0x200 = 0x200 ∧ regs'.eflags ||| 0xED7 = 0xED7) := by
  refine ⟨?_, ?_, ?_⟩
  · intro positive notStop outside pending first handled accepted
    rw [signalDeliver, if_neg (by simp [outside]), if_neg fun none => by simp [none signum] at pending]
    refine deliverLoop_first ?_ (by decide) pending ?_ notStop handled accepted
    · exact mem_allSignals positive
    · intro other member
      refine first other ?_
      rintro rfl
      exact absurd member (by decide)
  · intro proc' regs' m' fits entered later laterRegs laterMem returned kept range
    rw [signalDeliver] at entered
    split at entered
    · exact nomatch entered
    split at entered
    · exact nomatch entered
    obtain ⟨room, isUsp, rfl⟩ := deliverLoop_entered entered
    rw [isUsp] at kept range returned
    have stillValid := signalStackRangeValid_upper 4 (by decide) range
    have address : laterRegs.useresp + 4 = regs.useresp - sigcontextSize := by
      unfold frameSize at room returned
      omega
    rw [sysSigreturn, returned, if_neg (by
      rw [show 4 + sigcontextSize = frameSize - 4 from rfl, stillValid]; simp), ← returned, address]
    rw [savedContext_storeFrame fits room]
    intro place lower upper
    exact kept place lower (by omega)
  · intro proc' regs' returned
    rw [sysSigreturn] at returned
    split at returned
    · exact nomatch returned
    obtain ⟨rfl, rfl⟩ := returned
    dsimp only [savedContext]
    generalize load32 m (regs.useresp + 4 + 4) = flags
    constructor
    · rw [Nat.and_or_distrib_right, Nat.and_assoc, show eflagsUserMask &&& 0x200 = 0 from rfl,
        Nat.and_zero]
      rfl
    · rw [show 0xED7 = eflagsUserMask ||| eflagsAlwaysSet from rfl]
      apply Nat.eq_of_testBit_eq
      intro bit
      simp only [Nat.testBit_or, Nat.testBit_and]
      cases eflagsUserMask.testBit bit <;> simp

def handling : Process :=
  { Process.zero with
    sigPending := fun signum => signum == 10
    sigHandler := fun _ => 0x301000
    sigTrampoline := 0x300800 }

def interrupted : UserRegisters := ⟨0x300010, 0x246, 1, 2, 3, 4, 5, 6, 7, userStackTop⟩

theorem signal_return_restores_handling :
    ∃ proc' regs' m', signalDeliver true some handling interrupted (fun _ => 0) =
        .entered 10 proc' regs' m' ∧ regs'.eip = 0x301000 ∧
      sysSigreturn proc' { regs' with useresp := regs'.useresp + 4 } m' =
        some ({ proc' with inSignal := false }, interrupted) := by
  have restores := signal_return_restores some handling interrupted (fun _ => 0) 10
  obtain ⟨proc', regs', m', entered, isHandler, -⟩ := restores.1 (by decide) (by decide) rfl rfl
    (by decide) (by decide) (by decide)
  have isUsp : regs'.useresp = userStackTop - frameSize := by
    rw [signalDeliver, if_neg (by decide), if_neg (by decide)] at entered
    exact (deliverLoop_entered entered).2.1
  refine ⟨proc', regs', m', entered, isHandler, ?_⟩
  refine restores.2.1 proc' regs' m' (by decide) entered proc' _ m' rfl (fun _ _ _ => rfl) ?_
  rw [isUsp]
  rfl

end MiniOS.SignalFrames
