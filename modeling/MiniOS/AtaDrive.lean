import MiniOS.ByteMemory

/-!
# The drive behind the ATA ports

The drive as the driver meets it: a state machine behind a handful of ports.  A command makes
it busy for some number of status reads, and then it hands over a sector, takes one, is done
or has failed.  How long a command takes and how it fails is chosen anew for each command.

While the drive is busy it ignores all writes to the command block, and while it has data to
move it ignores new commands.  Every such write is counted.
-/

namespace MiniOS.AtaPio

open ByteMemory

inductive Phase where
  | idle
  | busy
  | dataIn
  | dataOut
  | error
deriving DecidableEq

inductive ErrorBit where
  | err
  | df
deriving DecidableEq

structure Choice where
  /-- The status reads before it is no longer busy. -/
  delay : Nat
  /-- The command is aborted, with or without DRQ. -/
  failure : Option (ErrorBit × Bool)
  drqWhileBusy : Bool
  /-- The command fails after the drive has taken all data. -/
  failAfterDataOut : Option ErrorBit
  /-- The data phase does not end. -/
  holdDrqAfterDataOut : Bool
  /-- The drive stops answering after it has taken the data. -/
  dieAfterDataOut : Bool
  failFlush : Bool

structure Drive where
  sectors : Nat → Region
  /-- The number of sectors that IDENTIFY reports. -/
  reported : Nat
  sigMid : UInt8
  sigHigh : UInt8
  regCtrl : UInt8
  regCount : UInt8
  regLow : UInt8
  regMid : UInt8
  regHigh : UInt8
  regDrive : UInt8
  command : UInt8
  lba : Nat
  choice : Choice
  /-- The number of commands so far. -/
  issued : Nat
  phase : Phase
  busyPolls : Nat
  buffer : Nat → Nat
  index : Nat
  errorBit : ErrorBit
  errorDrq : Bool
  statusZero : Bool
  /-- The writes to the command block at a time when the drive is busy or has data to move. -/
  talkedOver : Nat

def statusErr : UInt8 := 0x01
def statusDrq : UInt8 := 0x08
def statusDf : UInt8 := 0x20
def statusRdy : UInt8 := 0x40
def statusBsy : UInt8 := 0x80

def commandRead : UInt8 := 0x20
def commandWrite : UInt8 := 0x30
def commandFlush : UInt8 := 0xE7
def commandIdentify : UInt8 := 0xEC

def wordsPerSector : Nat := 256

/-- The registers of the command block that the driver writes. -/
inductive Register where
  | count
  | low
  | mid
  | high
  | drive
  | command
deriving DecidableEq

def wordAt (bytes : Region) (i : Nat) : Nat := (bytes (2 * i)).toNat + 256 * (bytes (2 * i + 1)).toNat

def byteAt (words : Nat → Nat) (offset : Nat) : UInt8 :=
  if offset % 2 = 0 then UInt8.ofNat (words (offset / 2)) else UInt8.ofNat (words (offset / 2) / 256)

namespace Drive

variable (d : Drive)

def Pending : Prop :=
  d.phase = .dataIn ∨ d.phase = .dataOut ∨ (d.phase = .error ∧ d.errorDrq = true)

instance (d : Drive) : Decidable d.Pending := inferInstanceAs (Decidable (_ ∨ _ ∨ _))

def latchedLba : Nat :=
  d.regLow.toNat + 2 ^ 8 * d.regMid.toNat + 2 ^ 16 * d.regHigh.toNat + 2 ^ 24 * (d.regDrive.toNat % 16)

def identifyWords : Nat → Nat := fun i =>
  if i = 60 then d.reported % 2 ^ 16 else if i = 61 then d.reported / 2 ^ 16 % 2 ^ 16 else 0

def commandCompletes : Drive :=
  match d.choice.failure with
  | some (bit, drq) => { d with errorBit := bit, errorDrq := drq, index := 0, phase := .error }
  | none =>
    if d.command = commandIdentify then
      { d with buffer := d.identifyWords, index := 0, phase := .dataIn }
    else if d.command = commandRead then
      { d with buffer := wordAt (d.sectors d.lba), index := 0, phase := .dataIn }
    else if d.command = commandWrite then { d with index := 0, phase := .dataOut }
    else { d with phase := .idle }

def errorStatus : ErrorBit → UInt8
  | .err => statusErr
  | .df => statusDf

def settledStatus : UInt8 :=
  match d.phase with
  | .error => statusRdy ||| errorStatus d.errorBit ||| (if d.errorDrq then statusDrq else 0)
  | .idle =>
    if d.choice.failFlush ∧ d.command = commandFlush then statusRdy ||| statusErr else statusRdy
  | .dataIn => statusRdy ||| statusDrq
  | .dataOut => statusRdy ||| statusDrq
  | .busy => statusRdy

def inbStatus : Drive × UInt8 :=
  if d.statusZero then (d, 0)
  else if d.phase = .busy then
    if 0 < d.busyPolls then
      ({ d with busyPolls := d.busyPolls - 1 },
        if d.choice.drqWhileBusy then statusBsy ||| statusDrq else statusBsy)
    else (d.commandCompletes, d.commandCompletes.settledStatus)
  else (d, d.settledStatus)

/-- The command register is written and the drive accepts the command. -/
def issue (choices : Nat → Choice) (d : Drive) (value : UInt8) : Drive :=
  let d := { d with
    command := value
    lba := d.latchedLba
    choice := choices d.issued
    issued := d.issued + 1
    busyPolls := (choices d.issued).delay
    phase := .busy }
  if d.busyPolls = 0 then d.commandCompletes else d

def counted : Drive :=
  if d.phase = .busy ∨ d.Pending then { d with talkedOver := d.talkedOver + 1 } else d

def outb (choices : Nat → Choice) (d : Drive) (register : Register) (value : UInt8) : Drive :=
  if d.phase = .busy then d.counted
  else
    match register with
    | .count => { d.counted with regCount := value }
    | .low => { d.counted with regLow := value }
    | .mid => { d.counted with regMid := value }
    | .high => { d.counted with regHigh := value }
    | .drive => { d.counted with regDrive := value }
    | .command =>
      if d.phase = .dataIn ∨ d.phase = .dataOut then d.counted else issue choices d.counted value

def inw : Drive × Nat :=
  match d.phase with
  | .error =>
    (if d.errorDrq then
      if wordsPerSector ≤ d.index + 1 then { d with phase := .idle, errorDrq := false, index := 0 }
      else { d with index := d.index + 1 }
    else d, 0xDEAD)
  | .dataIn =>
    (if wordsPerSector ≤ d.index + 1 then { d with phase := .idle, index := 0 }
    else { d with index := d.index + 1 }, d.buffer d.index)
  | _ => (d, 0)

def storeBuffer : Drive :=
  { d with
    sectors := Function.update d.sectors d.lba fun offset =>
      if offset < 2 * wordsPerSector then byteAt d.buffer offset else d.sectors d.lba offset
    index := 0 }

def afterData : Drive :=
  if d.choice.holdDrqAfterDataOut then { d with phase := .dataOut }
  else
    match d.choice.failAfterDataOut with
    | some bit => { d with errorBit := bit, errorDrq := false, phase := .error }
    | none => { d with phase := .idle }

def dataTaken : Drive :=
  let d := d.storeBuffer.afterData
  if d.choice.dieAfterDataOut then { d with statusZero := true } else d

def outw (value : Nat) : Drive :=
  if d.phase = .dataOut then
    let d := { d with buffer := Function.update d.buffer d.index value, index := d.index + 1 }
    if wordsPerSector ≤ d.index then d.dataTaken else d
  else d

end Drive

end MiniOS.AtaPio
