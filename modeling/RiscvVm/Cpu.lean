import RiscvVm.Bus

namespace RiscvVm

def uMode : BitVec 8 := 0b00
def sMode : BitVec 8 := 0b01
def mMode : BitVec 8 := 0b11

def csrMstatus : BitVec 12 := 0x300
def csrMisa : BitVec 12 := 0x301
def csrMedeleg : BitVec 12 := 0x302
def csrMideleg : BitVec 12 := 0x303
def csrMie : BitVec 12 := 0x304
def csrMtvec : BitVec 12 := 0x305
def csrMcounteren : BitVec 12 := 0x306
def csrMscratch : BitVec 12 := 0x340
def csrMepc : BitVec 12 := 0x341
def csrMcause : BitVec 12 := 0x342
def csrMtval : BitVec 12 := 0x343
def csrMip : BitVec 12 := 0x344
def csrMcycle : BitVec 12 := 0xB00
def csrMinstret : BitVec 12 := 0xB02
def csrMvendorid : BitVec 12 := 0xF11
def csrMarchid : BitVec 12 := 0xF12
def csrMimpid : BitVec 12 := 0xF13
def csrMhartid : BitVec 12 := 0xF14

def csrSstatus : BitVec 12 := 0x100
def csrSie : BitVec 12 := 0x104
def csrStvec : BitVec 12 := 0x105
def csrScounteren : BitVec 12 := 0x106
def csrSscratch : BitVec 12 := 0x140
def csrSepc : BitVec 12 := 0x141
def csrScause : BitVec 12 := 0x142
def csrStval : BitVec 12 := 0x143
def csrSip : BitVec 12 := 0x144
def csrSatp : BitVec 12 := 0x180

def csrCycle : BitVec 12 := 0xC00
def csrTime : BitVec 12 := 0xC01
def csrInstret : BitVec 12 := 0xC02

structure Reservation where
  valid : Bool
  physAddr : BitVec 64
  size : BitVec 8
deriving DecidableEq

/-- `cpu_t` without its pointer to the bus. Register numbers are the five bits
of the instruction fields and CSR numbers the twelve, so the range checks of
the accessors hold by type. -/
structure Cpu where
  regs : BitVec 5 → BitVec 64
  csrs : BitVec 12 → BitVec 64
  pc : BitVec 64
  priviledge : BitVec 8
  reservation : Reservation
  trapTaken : Bool
  pcWritten : Bool

/-- `vm_t`: the CPU, and the memory and devices its bus pointer leads to. -/
structure Vm where
  cpu : Cpu
  bus : Bus

def Cpu.setCsr (cpu : Cpu) (address : BitVec 12) (value : BitVec 64) : Cpu :=
  { cpu with csrs := fun a => if a = address then value else cpu.csrs a }

def cpuWriteReg (cpu : Cpu) (regNum : BitVec 5) (value : BitVec 64) : Cpu :=
  if regNum = 0 then cpu
  else { cpu with regs := fun r => if r = regNum then value else cpu.regs r }

def cpuReadReg (cpu : Cpu) (regNum : BitVec 5) : BitVec 64 :=
  if regNum = 0 then 0 else cpu.regs regNum

def setBit (value : BitVec 64) (bitNum : Nat) (bit : Bool) : BitVec 64 :=
  if bit then value ||| (1#64 <<< bitNum) else value &&& ~~~(1#64 <<< bitNum)

def cpuInvalidateReservation (cpu : Cpu) (physAddr : BitVec 64) (size : BitVec 8) : Cpu :=
  if !cpu.reservation.valid then cpu
  else
    let storeStart := physAddr
    let storeEnd := physAddr + size.setWidth 64
    let reservationStart := cpu.reservation.physAddr
    let reservationEnd := reservationStart + cpu.reservation.size.setWidth 64
    if storeStart < reservationEnd ∧ storeEnd > reservationStart then
      { cpu with reservation := { cpu.reservation with valid := false } }
    else cpu

def cpuSetInterruptPending (cpu : Cpu) (cause : Nat) (pending : Bool) : Cpu :=
  if pending then cpu.setCsr csrMip (cpu.csrs csrMip ||| (1#64 <<< cause))
  else cpu.setCsr csrMip (cpu.csrs csrMip &&& ~~~(1#64 <<< cause))

end RiscvVm
