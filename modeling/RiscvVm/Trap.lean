import RiscvVm.Cpu

namespace RiscvVm

def excIllegalInstruction : BitVec 64 := 2
def excBreakpoint : BitVec 64 := 3
def excLoadAddrMisaligned : BitVec 64 := 4
def excStoreAddrMisaligned : BitVec 64 := 6
def excEcallUMode : BitVec 64 := 8
def excEcallSMode : BitVec 64 := 9
def excEcallMMode : BitVec 64 := 11
def excInstrPageFault : BitVec 64 := 12
def excLoadPageFault : BitVec 64 := 13
def excStorePageFault : BitVec 64 := 15

def enterMTrap (cpu : Cpu) : Cpu :=
  let mstatus := cpu.csrs csrMstatus
  let mie := mstatus.getLsbD 3
  let mstatus := setBit mstatus 7 mie
  let mstatus := setBit mstatus 3 false
  let highBit := cpu.priviledge.getLsbD 1
  let lowBit := cpu.priviledge.getLsbD 0
  let mstatus := setBit mstatus 11 lowBit
  let mstatus := setBit mstatus 12 highBit
  { cpu.setCsr csrMstatus mstatus with
    priviledge := mMode
    pc := cpu.csrs csrMtvec &&& ~~~0x3#64
    trapTaken := true }

def enterSTrap (cpu : Cpu) : Cpu :=
  let mstatus := cpu.csrs csrMstatus
  let sie := mstatus.getLsbD 1
  let spp := cpu.priviledge.getLsbD 0
  let mstatus := setBit mstatus 8 spp
  let mstatus := setBit mstatus 5 sie
  let mstatus := setBit mstatus 1 false
  { cpu.setCsr csrMstatus mstatus with
    priviledge := sMode
    pc := cpu.csrs csrStvec &&& ~~~0x3#64
    trapTaken := true }

def raiseException (cpu : Cpu) (cause tvalue : BitVec 64) : Cpu :=
  let currentPriviledge := cpu.priviledge
  let medelegSet := cpu.csrs csrMedeleg &&& (1#64 <<< cause.toNat) ≠ 0
  if currentPriviledge < mMode ∧ medelegSet then
    let cpu := cpu.setCsr csrSepc cpu.pc
    let cpu := cpu.setCsr csrScause cause
    let cpu := cpu.setCsr csrStval tvalue
    enterSTrap cpu
  else
    let cpu := cpu.setCsr csrMepc cpu.pc
    let cpu := cpu.setCsr csrMcause cause
    let cpu := cpu.setCsr csrMtval tvalue
    enterMTrap cpu

def raiseInterrupt (cpu : Cpu) (cause : BitVec 64) : Cpu :=
  let currentPriviledge := cpu.priviledge
  let midelegSet := cpu.csrs csrMideleg &&& (1#64 <<< cause.toNat) ≠ 0
  if currentPriviledge < mMode ∧ midelegSet then
    let cpu := cpu.setCsr csrSepc cpu.pc
    let cpu := cpu.setCsr csrScause ((1#64 <<< 63) ||| cause)
    let cpu := cpu.setCsr csrStval 0
    enterSTrap cpu
  else
    let cpu := cpu.setCsr csrMepc cpu.pc
    let cpu := cpu.setCsr csrMcause ((1#64 <<< 63) ||| cause)
    let cpu := cpu.setCsr csrMtval 0
    enterMTrap cpu

def Vm.raiseException (vm : Vm) (cause tvalue : BitVec 64) : Vm :=
  { vm with cpu := RiscvVm.raiseException vm.cpu cause tvalue }

end RiscvVm
