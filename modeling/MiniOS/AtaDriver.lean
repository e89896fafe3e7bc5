import MiniOS.AtaDrive
import MiniOS.RunInvariant

/-!
# The ATA driver

The functions of `ata.c`.  A poll gives up after a fixed number of status reads, and with it
the call; the drive goes on with the command.  `ata_wait_idle` is what a later call does about
that before it writes anything to the drive.
-/

namespace MiniOS.AtaPio

open Function ByteMemory

def pollLimit : Nat := 100000

/-- The status that nothing answers with: no drive, or a floating bus. -/
def nobody (status : UInt8) : Bool := status == 0 || status == 0xFF

def ataWaitNotBusy : (polls : Nat) → Drive → Drive × Bool
  | 0, d => (d, false)
  | polls + 1, d =>
    let (d, status) := d.inbStatus
    if nobody status then (d, false)
    else if status &&& statusBsy = 0 then (d, true)
    else ataWaitNotBusy polls d

def ataWaitData : (polls : Nat) → Drive → Drive × Bool
  | 0, d => (d, false)
  | polls + 1, d =>
    let (d, status) := d.inbStatus
    if nobody status || status &&& (statusErr ||| statusDf) != 0 then (d, false)
    else if status &&& statusBsy = 0 ∧ status &&& statusDrq ≠ 0 then (d, true)
    else ataWaitData polls d

def drain : (words : Nat) → Drive → Drive
  | 0, d => d
  | words + 1, d => drain words d.inw.1

def ataWaitIdle (d : Drive) : Drive × Bool :=
  let (d, ready) := ataWaitNotBusy pollLimit d
  if !ready then (d, false)
  else
    let (d, status) := d.inbStatus
    if status &&& statusDrq = 0 then (d, true)
    else
      let (d, ready) := ataWaitNotBusy pollLimit (drain wordsPerSector d)
      if !ready then (d, false)
      else
        let (d, status) := d.inbStatus
        (d, status &&& statusDrq == 0)

/-- `outb(ATA_CONTROL, ATA_CONTROL_NIEN)`; the register is not one of the command block. -/
def disableInterrupts (d : Drive) : Drive := { d with regCtrl := 0x02 }

structure Ata where
  available : Bool
  sectorCount : Nat
  readCount : Nat
  writeCount : Nat
  drive : Drive

variable (choices : Nat → Choice)

/-- The address and the command of a transfer of one sector, from the select on.  The reads
of the alternate status in `ata_delay` change nothing. -/
def programSector (d : Drive) (lba : Nat) (command : UInt8) : Drive :=
  let d := d.outb choices .drive (0xE0 ||| UInt8.ofNat (lba / 2 ^ 24 % 16))
  let d := d.outb choices .count 1
  let d := d.outb choices .low (UInt8.ofNat lba)
  let d := d.outb choices .mid (UInt8.ofNat (lba / 2 ^ 8))
  let d := d.outb choices .high (UInt8.ofNat (lba / 2 ^ 16))
  d.outb choices .command command

def identifyLoop : (words i : Nat) → Drive → (Nat → Nat) → Drive × (Nat → Nat)
  | 0, _, d, identify => (d, identify)
  | words + 1, i, d, identify =>
    let (d, word) := d.inw
    identifyLoop words (i + 1) d (update identify i word)

def ataInstall (d : Drive) : Ata :=
  let failed (d : Drive) : Ata := ⟨false, 0, 0, 0, d⟩
  let d := (disableInterrupts d).outb choices .drive 0xA0
  let (d, idle) := ataWaitIdle d
  if !idle then failed d
  else
    let d := d.outb choices .count 0
    let d := d.outb choices .low 0
    let d := d.outb choices .mid 0
    let d := d.outb choices .high 0
    let d := d.outb choices .command commandIdentify
    let (d, ready) := ataWaitNotBusy pollLimit d
    if !ready || d.sigMid != 0 || d.sigHigh != 0 then failed d
    else
      let (d, ready) := ataWaitData pollLimit d
      if !ready then failed d
      else
        let (d, identify) := identifyLoop wordsPerSector 0 d fun _ => 0
        let count := identify 60 + 2 ^ 16 * identify 61
        ⟨count != 0, count, 0, 0, d⟩

/-- The conditions on the sector under which a call fails before it touches the drive. -/
def Ata.refuses (ata : Ata) (lba : Nat) : Bool :=
  !ata.available || decide (ata.sectorCount ≤ lba) || decide (0x0FFFFFFF < lba)

def readLoop : (words i : Nat) → Drive → Region → Drive × Region
  | 0, _, d, buffer => (d, buffer)
  | words + 1, i, d, buffer =>
    let (d, word) := d.inw
    readLoop words (i + 1) d
      (update (update buffer (2 * i) (UInt8.ofNat word)) (2 * i + 1)
        (UInt8.ofNat (word / 256)))

def writeLoop : (words i : Nat) → Drive → Region → Drive
  | 0, _, d, _ => d
  | words + 1, i, d, buffer => writeLoop words (i + 1) (d.outw (wordAt buffer i)) buffer

/-- The transfer of `ata_read_sector`: the drive, the buffer and the value returned. -/
def readTransfer (d : Drive) (lba : Nat) (buffer : Region) : Drive × Region × Bool :=
  let (d, idle) := ataWaitIdle (disableInterrupts d)
  if !idle then (d, buffer, false)
  else
    let (d, ready) := ataWaitData pollLimit (programSector choices d lba commandRead)
    if !ready then (d, buffer, false)
    else
      let (d, buffer) := readLoop wordsPerSector 0 d buffer
      (d, buffer, true)

/-- What `ata_write_sector` does after the data: the command has to be complete, and the
drive writes its cache. -/
def finishWrite (d : Drive) : Drive × Bool :=
  let (d, ready) := ataWaitNotBusy pollLimit d
  if !ready then (d, false)
  else
    let (d, status) := d.inbStatus
    if nobody status || status &&& (statusErr ||| statusDf ||| statusDrq) != 0 then (d, false)
    else
      let (d, ready) := ataWaitNotBusy pollLimit (d.outb choices .command commandFlush)
      if !ready then (d, false)
      else
        let (d, status) := d.inbStatus
        (d, status &&& (statusErr ||| statusDf) == 0)

def writeTransfer (d : Drive) (lba : Nat) (buffer : Region) : Drive × Bool :=
  let (d, idle) := ataWaitIdle (disableInterrupts d)
  if !idle then (d, false)
  else
    let (d, ready) := ataWaitData pollLimit (programSector choices d lba commandWrite)
    if !ready then (d, false)
    else finishWrite choices (writeLoop wordsPerSector 0 d buffer)

/-- `ata_read_sector` with the buffer at the pointer, if there is one: the value returned and
the buffer afterwards. -/
def ataReadSector (ata : Ata) (lba : Nat) (buffer : Option Region) : Ata × Bool × Option Region :=
  match buffer with
  | none => (ata, false, none)
  | some region =>
    if ata.refuses lba then (ata, false, buffer)
    else
      let (d, region, success) := readTransfer choices ata.drive lba region
      ({ ata with drive := d, readCount := if success then ata.readCount + 1 else ata.readCount },
        success, some region)

def ataWriteSector (ata : Ata) (lba : Nat) (buffer : Option Region) : Ata × Bool :=
  match buffer with
  | none => (ata, false)
  | some region =>
    if ata.refuses lba then (ata, false)
    else
      let (d, success) := writeTransfer choices ata.drive lba region
      ({ ata with drive := d, writeCount := if success then ata.writeCount + 1 else ata.writeCount },
        success)

inductive Call where
  | read (lba : Nat) (buffer : Option Region)
  | write (lba : Nat) (buffer : Option Region)

def callStep (ata : Ata) : Call → Ata
  | .read lba buffer => (ataReadSector choices ata lba buffer).1
  | .write lba buffer => (ataWriteSector choices ata lba buffer).1

end MiniOS.AtaPio
