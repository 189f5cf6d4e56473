import RiscvVm.Trap

namespace RiscvVm

/-- `csr_descriptor_t`. The read handlers see the whole machine, because that
of `time` goes through the bus; the write handlers change the CPU only. -/
structure CsrDescriptor where
  implemented : Bool := false
  writeMask : BitVec 64 := 0
  read : Option (Vm → BitVec 64) := none
  write : Option (Cpu → BitVec 64 → Cpu) := none

def misaWrite (cpu : Cpu) (_value : BitVec 64) : Cpu := cpu

def mstatusWriteMask : BitVec 64 :=
  (1#64 <<< 1) ||| (1#64 <<< 3) ||| (1#64 <<< 5) ||| (1#64 <<< 7) ||| (1#64 <<< 8) ||| (3#64 <<< 11) |||
    (1#64 <<< 17) ||| (1#64 <<< 18) ||| (1#64 <<< 19) ||| (1#64 <<< 20)

def mtvecWrite (cpu : Cpu) (value : BitVec 64) : Cpu :=
  cpu.setCsr csrMtvec (value &&& ~~~0x3#64)

def mieWriteMask : BitVec 64 :=
  (1#64 <<< 1) ||| (1#64 <<< 3) ||| (1#64 <<< 5) ||| (1#64 <<< 7) ||| (1#64 <<< 9) ||| (1#64 <<< 11)

def mcsrLoadTable : List (BitVec 12 × CsrDescriptor) :=
  [(csrMisa, { implemented := true, write := some misaWrite }),
   (csrMstatus, { implemented := true, writeMask := mstatusWriteMask }),
   (csrMtvec, { implemented := true, write := some mtvecWrite }),
   (csrMedeleg, { implemented := true, writeMask := BitVec.allOnes 64 }),
   (csrMideleg, { implemented := true, writeMask := BitVec.allOnes 64 }),
   (csrMip, { implemented := true, writeMask := (1#64 <<< 1) ||| (1#64 <<< 5) }),
   (csrMie, { implemented := true, writeMask := mieWriteMask }),
   (csrMscratch, { implemented := true, writeMask := BitVec.allOnes 64 }),
   (csrMepc, { implemented := true, writeMask := ~~~0x3#64 }),
   (csrMcause, { implemented := true, writeMask := BitVec.allOnes 64 }),
   (csrMtval, { implemented := true, writeMask := BitVec.allOnes 64 }),
   (csrMhartid, { implemented := true, writeMask := 0 }),
   (csrMvendorid, { implemented := true, writeMask := 0 }),
   (csrMarchid, { implemented := true, writeMask := 0 }),
   (csrMimpid, { implemented := true, writeMask := 0 }),
   (csrMcounteren, { implemented := true, writeMask := 0x7 }),
   (csrMcycle, { implemented := true, writeMask := BitVec.allOnes 64 }),
   (csrMinstret, { implemented := true, writeMask := BitVec.allOnes 64 })]

/-- SIE, SPIE, SPP, SUM and MXR. -/
def sstatusWriteMask : BitVec 64 :=
  (1#64 <<< 1) ||| (1#64 <<< 5) ||| (1#64 <<< 8) ||| (1#64 <<< 18) ||| (1#64 <<< 19)

/-- SSI, STI, SEI and LCOFI. -/
def supervisorInterruptMask : BitVec 64 :=
  (1#64 <<< 1) ||| (1#64 <<< 5) ||| (1#64 <<< 9) ||| (1#64 <<< 13)

def sstatusWrite (cpu : Cpu) (value : BitVec 64) : Cpu :=
  let mstatus := cpu.csrs csrMstatus
  cpu.setCsr csrMstatus ((mstatus &&& ~~~sstatusWriteMask) ||| (value &&& sstatusWriteMask))

def sstatusRead (vm : Vm) : BitVec 64 :=
  (vm.cpu.csrs csrMstatus &&& sstatusWriteMask) ||| (2#64 <<< 32)

def stvecWrite (cpu : Cpu) (value : BitVec 64) : Cpu :=
  cpu.setCsr csrStvec (value &&& ~~~0x3#64)

def sepcRead (vm : Vm) : BitVec 64 := vm.cpu.csrs csrSepc &&& ~~~0x3#64

def sieRead (vm : Vm) : BitVec 64 :=
  vm.cpu.csrs csrMie &&& vm.cpu.csrs csrMideleg &&& supervisorInterruptMask

def sieWrite (cpu : Cpu) (value : BitVec 64) : Cpu :=
  let mask := supervisorInterruptMask &&& cpu.csrs csrMideleg
  cpu.setCsr csrMie ((cpu.csrs csrMie &&& ~~~mask) ||| (value &&& mask))

def sipRead (vm : Vm) : BitVec 64 :=
  vm.cpu.csrs csrMip &&& vm.cpu.csrs csrMideleg &&& supervisorInterruptMask

def sipWrite (cpu : Cpu) (value : BitVec 64) : Cpu :=
  let mask := supervisorInterruptMask &&& cpu.csrs csrMideleg
  cpu.setCsr csrMip ((cpu.csrs csrMip &&& ~~~mask) ||| (value &&& mask))

def scsrLoadTable : List (BitVec 12 × CsrDescriptor) :=
  [(csrSstatus, { implemented := true, write := some sstatusWrite, read := some sstatusRead }),
   (csrStvec, { implemented := true, write := some stvecWrite }),
   (csrScause, { implemented := true, writeMask := BitVec.allOnes 64 }),
   (csrSepc, { implemented := true, read := some sepcRead, writeMask := BitVec.allOnes 64 }),
   (csrStval, { implemented := true, writeMask := BitVec.allOnes 64 }),
   (csrSscratch, { implemented := true, writeMask := BitVec.allOnes 64 }),
   (csrSie, { implemented := true, write := some sieWrite, read := some sieRead }),
   (csrSip, { implemented := true, write := some sipWrite, read := some sipRead }),
   (csrSatp, { implemented := true, writeMask := BitVec.allOnes 64 }),
   (csrScounteren, { implemented := true, writeMask := 0xFFFFFFFF })]

def cycleRead (vm : Vm) : BitVec 64 := vm.cpu.csrs csrMcycle

def instretRead (vm : Vm) : BitVec 64 := vm.cpu.csrs csrMinstret

def timeRead (vm : Vm) : BitVec 64 := vmBusRead64 vm.bus (0x02000000 + 0xBFF8)

def ucsrLoadTable : List (BitVec 12 × CsrDescriptor) :=
  [(csrTime, { implemented := true, read := some timeRead, writeMask := 0 }),
   (csrInstret, { implemented := true, read := some instretRead, writeMask := 0 }),
   (csrCycle, { implemented := true, read := some cycleRead, writeMask := 0 })]

def csrLoad : List (BitVec 12 × CsrDescriptor) :=
  mcsrLoadTable ++ scsrLoadTable ++ ucsrLoadTable

/-- `csr_table` after `csr_load`; the entries not loaded are zero. -/
def csrTable (address : BitVec 12) : CsrDescriptor :=
  (csrLoad.lookup address).getD {}

def csrReadOnly : BitVec 12 := 0b11

def csrCanWrite (address : BitVec 12) (priviledge : BitVec 8) : Bool :=
  if (address >>> 10) &&& 0x03 = csrReadOnly then false
  else if ((address >>> 8) &&& 0x03).setWidth 8 > priviledge then false
  else true

def csrCanRead (cpu : Cpu) (address : BitVec 12) (priviledge : BitVec 8) : Bool :=
  if ((address >>> 8) &&& 0x03).setWidth 8 > priviledge then false
  else if address = csrCycle ∨ address = csrTime ∨ address = csrInstret then
    let bit := if address = csrCycle then 0 else if address = csrTime then 1 else 2
    let mcounterenBit := (cpu.csrs csrMcounteren).getLsbD bit
    let scounterenBit := (cpu.csrs csrScounteren).getLsbD bit
    if cpu.priviledge = sMode ∧ !mcounterenBit then false
    else if cpu.priviledge = uMode ∧ (!mcounterenBit ∨ !scounterenBit) then false
    else true
  else true

/-- `none` is `CSR_ILLEGAL`. -/
def csrRead (vm : Vm) (address : BitVec 12) : Option (BitVec 64) :=
  let csr := csrTable address
  if !csr.implemented then none
  else if !csrCanRead vm.cpu address vm.cpu.priviledge then none
  else
    match csr.read with
    | some read => some (read vm)
    | none => some (vm.cpu.csrs address)

def csrWrite (cpu : Cpu) (address : BitVec 12) (value : BitVec 64) : Option Cpu :=
  let csr := csrTable address
  if !csr.implemented then none
  else if !csrCanWrite address cpu.priviledge then none
  else
    match csr.write with
    | some write => some (write cpu value)
    | none =>
      let old := cpu.csrs address
      let mask := csr.writeMask
      some (cpu.setCsr address ((old &&& ~~~mask) ||| (value &&& mask)))

/-- `MISA_MXL_RV64 | MISA_A | MISA_I | MISA_M | MISA_S | MISA_U`. -/
def misaReset : BitVec 64 :=
  (2#64 <<< 62) ||| (1#64 <<< 0) ||| (1#64 <<< 8) ||| (1#64 <<< 12) ||| (1#64 <<< 18) ||| (1#64 <<< 20)

def mcsrReset (cpu : Cpu) : Cpu :=
  let cpu := cpu.setCsr csrMisa misaReset
  let cpu := cpu.setCsr csrMstatus (3#64 <<< 11)
  let cpu := cpu.setCsr csrMtvec ramBase
  let cpu := cpu.setCsr csrMedeleg 0
  let cpu := cpu.setCsr csrMideleg 0
  let cpu := cpu.setCsr csrMip 0
  let cpu := cpu.setCsr csrMie 0
  let cpu := cpu.setCsr csrMscratch 0
  let cpu := cpu.setCsr csrMepc 0
  let cpu := cpu.setCsr csrMcause 0
  let cpu := cpu.setCsr csrMtval 0
  let cpu := cpu.setCsr csrMhartid 0
  let cpu := cpu.setCsr csrMvendorid 0
  let cpu := cpu.setCsr csrMarchid 0
  let cpu := cpu.setCsr csrMimpid 0
  let cpu := cpu.setCsr csrMcounteren 0
  let cpu := cpu.setCsr csrMcycle 0
  cpu.setCsr csrMinstret 0

def scsrReset (cpu : Cpu) : Cpu :=
  let cpu := cpu.setCsr csrStvec 0
  let cpu := cpu.setCsr csrSscratch 0
  let cpu := cpu.setCsr csrSepc 0
  let cpu := cpu.setCsr csrScause 0
  let cpu := cpu.setCsr csrStval 0
  let cpu := cpu.setCsr csrSatp 0
  cpu.setCsr csrScounteren 0

def ucsrReset (cpu : Cpu) : Cpu := cpu

def csrReset (cpu : Cpu) : Cpu := ucsrReset (scsrReset (mcsrReset cpu))

end RiscvVm
