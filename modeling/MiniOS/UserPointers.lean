import MiniOS.LittleEndian
import MiniOS.PageFaults

/-!
# Pointers that a program passes to the kernel

`user_buffer_valid` and `user_string_valid` decide which addresses of a program the system
calls read and write.  They are compared with the translation of the processor: an address may
be used if the entry that translates it is present and marked for the user.

The arguments of `execv`, `SYS_SPAWN_ARGV` and `SYS_EXEC_ARGV` are copied with `strcpy` into
buffers of the kernel once they have been accepted.
-/

namespace MiniOS.Kernel

open LittleEndian UserLayout Paging PagingState

def maxUserString : Nat := 128

def maxSpawnArgs : Nat := ElfLoader.maxArgs

/-- The byte that an access at the address finds, if it is translated. -/
def byteAt (st : PagingState) (addr : Nat) : UInt8 := st.mem (pageOf st addr).frame (addr % 0x1000)

def stringValidFrom (st : PagingState) : (left addr : Nat) → Bool
  | 0, _ => false
  | left + 1, addr =>
    if !pagingUserRangeMapped st addr 1 then false
    else if byteAt st addr = 0 then true
    else stringValidFrom st left (addr + 1)

def userStringValid (st : PagingState) (string : Nat) : Bool :=
  let top := userRegionTop string
  if top = 0 then false
  else stringValidFrom st (min (top - string) maxUserString) string

/-- `strcpy` into a buffer of `room` bytes, with the bytes that it stores.  There are none if it
would run over the end of the buffer. -/
def strcpy (st : PagingState) : (room src : Nat) → Option (List UInt8)
  | 0, _ => none
  | room + 1, src =>
    if byteAt st src = 0 then some [0]
    else (strcpy st room (src + 1)).map (byteAt st src :: ·)

def pointerAt (st : PagingState) (addr : Nat) : Nat :=
  leValue ((List.range 4).map fun offset => byteAt st (addr + offset))

inductive ArgumentCopy where
  | refused
  /-- A buffer of the kernel was too small. -/
  | overrun
  | copied (bufs : List (List UInt8))

def copyArgumentsFrom (st : PagingState) (userArgv : Nat) :
    (left i : Nat) → (bufs : List (List UInt8)) → ArgumentCopy
  | 0, _, bufs => .copied bufs
  | left + 1, i, bufs =>
    let string := pointerAt st (userArgv + 4 * i)
    if !userStringValid st string then .refused
    else
      match strcpy st (maxUserString + 1) string with
      | none => .overrun
      | some buf => copyArgumentsFrom st userArgv left (i + 1) (bufs ++ [buf])

/-- How `sys_execv`, `SYS_SPAWN_ARGV` and `SYS_EXEC_ARGV` begin. -/
def copyArguments (st : PagingState) (argc : Int) (userArgv : Nat) : ArgumentCopy :=
  if argc ≤ 0 ∨ maxSpawnArgs < argc ∨ userBufferValid st userArgv (argc.toNat * 4) = false then
    .refused
  else copyArgumentsFrom st userArgv argc.toNat 0 []

/-- The entry that translates the address is present and marked for the user. -/
structure UserPage (st : PagingState) (addr : Nat) : Prop where
  present : (pageOf st addr).present = true
  user : (pageOf st addr).user = true

variable {st : PagingState} {addr start count string length : Nat}

/-- All addresses of a page have one entry. -/
theorem userPte_page (addr : Nat) : userPte (addr / 0x1000 * 0x1000) = userPte addr := by
  have base : userExtBase = 0x2000000 := rfl
  have top : userExtTop = 0x2400000 := rfl
  have same : addr / 0x1000 * 0x1000 / 0x1000 = addr / 0x1000 := by omega
  unfold userPte
  by_cases low : addr < 0x400000
  · rw [dif_pos low, dif_pos (by omega)]
    simp only [same]
  · rw [dif_neg low, dif_neg (by omega)]
    by_cases ext : userExtBase ≤ addr ∧ addr < userExtTop
    · rw [dif_pos ext, dif_pos (by omega)]
      have offset : (addr / 0x1000 * 0x1000 - userExtBase) / 0x1000 =
          (addr - userExtBase) / 0x1000 := by omega
      simp only [offset]
    · rw [dif_neg ext, dif_neg (by omega)]

theorem not_userPage_kernelIdentity (frame : Nat)
    (identity : pageOf st addr = .kernelIdentity frame) : ¬ UserPage st addr := by
  intro page
  have user := page.user
  rw [identity] at user
  cases user

variable {id : SpaceId}

/-- Only the two tables of a user space have entries for the user. -/
theorem userPage_iff (active : st.active = .user id) :
    UserPage st addr ↔ ∃ slot, userPte addr = some slot ∧
      (st.entry id slot).present = true ∧ (st.entry id slot).user = true := by
  cases found : userPte addr with
  | none =>
    refine iff_of_false (fun page => ?_) (by simp)
    have user := page.user
    simp only [pageOf, active, found] at user
    split at user <;> cases user
  | some slot =>
    have translated : pageOf st addr = st.entry id slot := by
      simp only [pageOf, active, found]
    constructor
    · intro page
      exact ⟨slot, rfl, translated ▸ page.present, translated ▸ page.user⟩
    · rintro ⟨_, ⟨⟩, present, user⟩
      exact ⟨translated ▸ present, translated ▸ user⟩

theorem not_userPage_of_kernel (active : st.active = .null ∨ st.active = .kernel) :
    ¬ UserPage st addr := by
  intro page
  have user := page.user
  rcases active with active | active <;>
  · simp only [pageOf, active] at user
    split at user <;> cases user

theorem userPage_page : UserPage st (addr / 0x1000 * 0x1000) ↔ UserPage st addr := by
  cases active : st.active with
  | null =>
    have none : ∀ addr, ¬ UserPage st addr := fun _ => not_userPage_of_kernel (.inl active)
    exact iff_of_false (none _) (none _)
  | kernel =>
    have none : ∀ addr, ¬ UserPage st addr := fun _ => not_userPage_of_kernel (.inr active)
    exact iff_of_false (none _) (none _)
  | user id => rw [userPage_iff active, userPage_iff active, userPte_page]

/-- The test of one page in the loop of `paging_user_range_mapped`. -/
theorem pageMapped_iff (active : st.active = .user id) (idx : Nat) :
    (match userPte (idx * 0x1000) with
      | none => false
      | some slot => (st.entry id slot).present && (st.entry id slot).user) = true ↔
      UserPage st (idx * 0x1000) := by
  rw [userPage_iff active]
  cases userPte (idx * 0x1000) with
  | none | some slot => simp

theorem pagingUserRangeMapped_iff (nonempty : count ≠ 0) :
    pagingUserRangeMapped st start count = true ↔
      start + count < 2 ^ 32 ∧ ∀ addr, start ≤ addr → addr < start + count → UserPage st addr := by
  have largest : uint32Max = 2 ^ 32 - 1 := rfl
  rw [pagingUserRangeMapped, if_neg nonempty]
  cases active : st.active with
  | null =>
    refine iff_of_false Bool.false_ne_true fun both => ?_
    exact not_userPage_of_kernel (.inl active) (both.2 start le_rfl (by omega))
  | kernel =>
    refine iff_of_false Bool.false_ne_true fun both => ?_
    exact not_userPage_of_kernel (.inr active) (both.2 start le_rfl (by omega))
  | user id =>
    dsimp only
    by_cases wraps : uint32Max - start < count
    · rw [if_pos wraps]
      exact iff_of_false Bool.false_ne_true fun both => by omega
    · rw [if_neg wraps, List.all_eq_true]
      constructor
      · intro pages
        refine ⟨by omega, fun addr low high => userPage_page.mp ?_⟩
        refine (pageMapped_iff active _).mp (pages (addr / 0x1000) ?_)
        rw [List.mem_range'_1]
        omega
      · rintro ⟨-, pages⟩ idx member
        rw [List.mem_range'_1] at member
        -- the page is touched at its first byte or at the start of the range
        have touched : max start (idx * 0x1000) / 0x1000 * 0x1000 = idx * 0x1000 := by
          omega
        refine (pageMapped_iff active idx).mpr ?_
        rw [← touched, userPage_page]
        exact pages _ (by omega) (by omega)

/-- The image with heap and stack, the shared page and the mmap window. -/
def userWindows : List (Nat × Nat) :=
  [(userLoadBase, userStackTop), (userShmBase, userShmTop), (userExtBase, userExtTop)]

variable {window : Nat × Nat}

theorem userRegionTop_of_mem (member : window ∈ userWindows)
    (low : window.1 ≤ start) (high : start < window.2) : userRegionTop start = window.2 := by
  have image : userStackTop = 0x3F0000 := rfl
  have shared : userShmBase = 0x3F0000 ∧ userShmTop = 0x3F1000 := ⟨rfl, rfl⟩
  have ext : userExtBase = 0x2000000 := rfl
  simp only [userWindows, List.mem_cons, List.not_mem_nil, or_false] at member
  rw [userRegionTop]
  rcases member with rfl | rfl | rfl
  · rw [if_pos ⟨low, high⟩]
  · rw [if_neg (by omega), if_pos ⟨low, high⟩]
  · rw [if_neg (by omega), if_neg (by omega), if_pos ⟨low, high⟩]

theorem exists_window (inside : userRegionTop start ≠ 0) :
    ∃ window ∈ userWindows, window.1 ≤ start ∧ start < window.2 := by
  by_contra outside
  simp only [userWindows, List.mem_cons, List.not_mem_nil, or_false, exists_eq_or_imp,
    exists_eq_left, not_or] at outside
  rw [userRegionTop, if_neg outside.1, if_neg outside.2.1, if_neg outside.2.2] at inside
  exact inside rfl

theorem userWindows_top (member : window ∈ userWindows) : window.2 < 2 ^ 32 := by
  simp only [userWindows, List.mem_cons, List.not_mem_nil, or_false] at member
  rcases member with rfl | rfl | rfl <;> decide

theorem userBufferValid_iff :
    userBufferValid st start count = true ↔ count = 0 ∨ start + count ≤ 2 ^ 32 ∧
      (∃ window ∈ userWindows, window.1 ≤ start ∧ start + count ≤ window.2) ∧
      ∀ addr, start ≤ addr → addr < start + count → UserPage st addr := by
  by_cases empty : count = 0
  · simp [userBufferValid, empty]
  · rw [userBufferValid, if_neg empty, or_iff_right empty]
    by_cases outside : userRegionTop start = 0
    · rw [if_pos outside]
      refine iff_of_false Bool.false_ne_true fun valid => ?_
      obtain ⟨window, member, low, high⟩ := valid.2.1
      have top := userRegionTop_of_mem member low (by omega)
      omega
    · obtain ⟨window, member, low, high⟩ := exists_window outside
      have top := userRegionTop_of_mem member low high
      rw [if_neg outside, Bool.and_eq_true, decide_eq_true_eq, pagingUserRangeMapped_iff empty, top]
      constructor
      · rintro ⟨fits, noWrap, pages⟩
        exact ⟨noWrap.le, ⟨window, member, low, by omega⟩, pages⟩
      · rintro ⟨-, ⟨other, otherMember, otherLow, otherHigh⟩, pages⟩
        have same := userRegionTop_of_mem otherMember otherLow (by omega)
        have bounded := userWindows_top member
        exact ⟨by omega, by omega, pages⟩

/-- A string of `length` bytes before its zero, all of them in pages of the user. -/
inductive StringAt (st : PagingState) : (string length : Nat) → Prop
  | empty {string : Nat} (page : UserPage st string) (zero : byteAt st string = 0) :
      StringAt st string 0
  | cons {string length : Nat} (page : UserPage st string) (nonzero : byteAt st string ≠ 0)
      (rest : StringAt st (string + 1) length) : StringAt st string (length + 1)

theorem StringAt.ends (found : StringAt st string length) : byteAt st (string + length) = 0 := by
  induction found with
  | empty _ zero => exact zero
  | cons _ _ _ ih =>
    rw [← ih]
    congr 1
    omega

theorem StringAt.pages (found : StringAt st string length) :
    ∀ i ≤ length, UserPage st (string + i) := by
  induction found with
  | empty page =>
    intro i below
    rwa [Nat.le_zero.mp below]
  | @cons string length page _ _ ih =>
    intro i below
    cases i with
    | zero => exact page
    | succ i =>
      have later := ih i (by omega)
      rwa [show string + (i + 1) = string + 1 + i by omega]

theorem stringValidFrom_spec (left : Nat) : ∀ addr, stringValidFrom st left addr = true →
    ∃ length < left, StringAt st addr length := by
  induction left with
  | zero => exact fun _ accepted => (nomatch accepted)
  | succ left ih =>
    intro addr accepted
    rw [stringValidFrom] at accepted
    by_cases mapped : pagingUserRangeMapped st addr 1 = true
    · have page : UserPage st addr :=
        ((pagingUserRangeMapped_iff one_ne_zero).mp mapped).2 addr le_rfl (by omega)
      rw [if_neg (by simp [mapped])] at accepted
      by_cases ends : byteAt st addr = 0
      · exact ⟨0, by omega, .empty page ends⟩
      · rw [if_neg ends] at accepted
        obtain ⟨length, below, rest⟩ := ih (addr + 1) accepted
        exact ⟨length + 1, by omega, .cons page ends rest⟩
    · rw [if_pos (by simp [mapped])] at accepted
      cases accepted

theorem userStringValid_spec (accepted : userStringValid st string = true) :
    ∃ length < maxUserString, StringAt st string length ∧
      ∃ window ∈ userWindows, window.1 ≤ string ∧ string + length < window.2 := by
  rw [userStringValid] at accepted
  by_cases outside : userRegionTop string = 0
  · rw [if_pos outside] at accepted
    cases accepted
  · rw [if_neg outside] at accepted
    obtain ⟨window, member, low, high⟩ := exists_window outside
    rw [userRegionTop_of_mem member low high] at accepted
    obtain ⟨length, below, found⟩ := stringValidFrom_spec _ string accepted
    exact ⟨length, by omega, found, window, member, low, by omega⟩

/-- `strcpy` stores the string with its zero. -/
theorem StringAt.strcpy (found : StringAt st string length) : ∀ room, length < room →
    ∃ bytes, Kernel.strcpy st room string = some bytes ∧ bytes.length = length + 1 := by
  induction found with
  | empty _ zero =>
    intro room below
    obtain ⟨room, rfl⟩ := Nat.exists_eq_succ_of_ne_zero (by omega : room ≠ 0)
    rw [Kernel.strcpy, if_pos zero]
    exact ⟨[0], rfl, rfl⟩
  | @cons string length _ nonzero _ ih =>
    intro room below
    obtain ⟨room, rfl⟩ := Nat.exists_eq_succ_of_ne_zero (by omega : room ≠ 0)
    obtain ⟨bytes, copied, size⟩ := ih room (by omega)
    rw [Kernel.strcpy, if_neg nonzero, copied]
    exact ⟨byteAt st string :: bytes, rfl, by rw [List.length_cons, size]⟩

/-- An accepted string fits into a buffer of the system calls. -/
theorem strcpy_of_valid (accepted : userStringValid st string = true) :
    ∃ bytes, strcpy st (maxUserString + 1) string = some bytes ∧
      bytes.length ≤ maxUserString + 1 := by
  obtain ⟨length, below, found, -⟩ := userStringValid_spec accepted
  obtain ⟨bytes, copied, size⟩ := found.strcpy (maxUserString + 1) (by omega)
  exact ⟨bytes, copied, by omega⟩

theorem copyArgumentsFrom_inBounds (userArgv left : Nat) : ∀ i bufs,
    copyArgumentsFrom st userArgv left i bufs ≠ .overrun := by
  induction left with
  | zero => exact fun _ _ overruns => (nomatch overruns)
  | succ left ih =>
    intro i bufs
    rw [copyArgumentsFrom]
    by_cases accepted : userStringValid st (pointerAt st (userArgv + 4 * i)) = true
    · obtain ⟨buf, copied, -⟩ := strcpy_of_valid accepted
      rw [if_neg (by simp [accepted]), copied]
      exact ih (i + 1) (bufs ++ [buf])
    · rw [if_pos (by simp [accepted])]
      exact fun overruns => (nomatch overruns)

theorem copyArguments_inBounds (argc : Int) (userArgv : Nat) :
    copyArguments st argc userArgv ≠ .overrun := by
  rw [copyArguments]
  split
  · exact fun overruns => (nomatch overruns)
  · exact copyArgumentsFrom_inBounds userArgv argc.toNat 0 []

/-- The kernel reads an address in a page of the user without a fault. -/
theorem UserPage.loadByte (page : UserPage st addr) (proc : Option Process) :
    Kernel.loadByte st proc false addr = (some (byteAt st addr), st) := by
  have permitted : permits (pageOf st addr) false false = true := by
    simp [permits, page.present]
  rw [Kernel.loadByte, access, if_pos permitted]
  rfl

/-- The frame of a page of the user is neither reserved nor part of the kernel heap. -/
theorem UserPage.poolFrame {reserved : Set Nat} (inv : FrameInv reserved st)
    (page : UserPage st addr) : PoolFrame reserved st.pmm st.heap (pageOf st addr).frame := by
  cases active : st.active with
  | null => exact absurd page (not_userPage_of_kernel (.inl active))
  | kernel => exact absurd page (not_userPage_of_kernel (.inr active))
  | user id =>
    obtain ⟨slot, found, present, user⟩ := (userPage_iff active).mp page
    have translated : pageOf st addr = st.entry id slot := by
      simp only [pageOf, active, found]
    refine inv.mapped (id, slot) _ ?_
    rw [translated, frameOf, PageEntry.userFrame, if_pos (by simp [present, user])]

/-- The validation of buffers is exact.  A string is accepted only if it ends within the first
128 bytes.  What is accepted lies in pages of the user, so the kernel identity map is out of
reach, and the copies of accepted strings fit into the buffers of the system calls. -/
theorem user_pointers_validated (st : PagingState) :
    (∀ start count, userBufferValid st start count = true ↔
      count = 0 ∨ start + count ≤ 2 ^ 32 ∧
        (∃ window ∈ userWindows, window.1 ≤ start ∧ start + count ≤ window.2) ∧
        ∀ addr, start ≤ addr → addr < start + count → UserPage st addr) ∧
    (∀ string, userStringValid st string = true → ∃ length < maxUserString,
      byteAt st (string + length) = 0 ∧
        (∃ window ∈ userWindows, window.1 ≤ string ∧ string + length < window.2) ∧
        ∀ i ≤ length, UserPage st (string + i)) ∧
    (∀ addr, UserPage st addr →
      (∀ frame, pageOf st addr ≠ .kernelIdentity frame) ∧
        (∀ proc, loadByte st proc false addr = (some (byteAt st addr), st)) ∧
        ∀ reserved, FrameInv reserved st →
          (pageOf st addr).frame ∉ reserved ∧ (pageOf st addr).frame ∉ st.heap.granted) ∧
    (∀ string, userStringValid st string = true →
      ∃ bytes, strcpy st (maxUserString + 1) string = some bytes ∧
        bytes.length ≤ maxUserString + 1) ∧
    ∀ argc userArgv, copyArguments st argc userArgv ≠ .overrun := by
  refine ⟨fun _ _ => userBufferValid_iff, fun string accepted => ?_, fun addr page => ?_,
    fun _ accepted => strcpy_of_valid accepted, copyArguments_inBounds⟩
  · obtain ⟨length, below, found, window⟩ := userStringValid_spec accepted
    exact ⟨length, below, found.ends, window, found.pages⟩
  · refine ⟨fun frame identity => not_userPage_kernelIdentity frame identity page,
      page.loadByte, fun reserved inv => ?_⟩
    have owned := page.poolFrame inv
    exact ⟨owned.notReserved, owned.notGranted⟩

end MiniOS.Kernel
