import RiscvVm.Trap

namespace RiscvVm

inductive AccessType
  | store
  | fetch
  | load
deriving DecidableEq

def accessTypeToError : AccessType → BitVec 64
  | .store => excStorePageFault
  | .load => excLoadPageFault
  | .fetch => excInstrPageFault

/-- `translation_result_t`: the physical address, or the page-fault cause. -/
abbrev TranslationResult := Except (BitVec 64) (BitVec 64)

/-- Bits 63:39 of the address must equal bit 38. -/
def checkUpperBits (virtualAddress : BitVec 64) : Bool :=
  let sign := virtualAddress.getLsbD 38
  let upper := virtualAddress >>> 39
  if (!sign ∧ upper ≠ 0) ∨ (sign ∧ upper ≠ 0x1FFFFFF) then false
  else true

def checkPriviledge (cpu : Cpu) (priviledge : BitVec 8) (uBit : Bool)
    (accessType : AccessType) : Bool :=
  let sum := (cpu.csrs csrMstatus).getLsbD 18
  if priviledge = uMode ∧ !uBit then false
  else if priviledge = sMode ∧ uBit then
    if accessType = .fetch then false
    else if !sum then false
    else true
  else true

/-- The three PPN fields of a page-table entry. -/
def ptePpn (pte : BitVec 64) : Nat → BitVec 64
  | 0 => (pte >>> 10) &&& 0x1FF
  | 1 => (pte >>> 19) &&& 0x1FF
  | _ => (pte >>> 28) &&& 0x3FFFFFF

def vpnOf (virtualAddress : BitVec 64) : Nat → BitVec 64
  | 0 => (virtualAddress >>> 12) &&& 0x1FF
  | 1 => (virtualAddress >>> 21) &&& 0x1FF
  | _ => (virtualAddress >>> 30) &&& 0x1FF

def getPhysicalAddress (ppn vpn : Nat → BitVec 64) (offset : BitVec 64) (level : Nat) :
    BitVec 64 :=
  let paPpn2 := ppn 2
  let paPpn1 := if level = 2 then vpn 1 else ppn 1
  let paPpn0 := if level = 2 ∨ level = 1 then vpn 0 else ppn 0
  (paPpn2 <<< 30) ||| (paPpn1 <<< 21) ||| (paPpn0 <<< 12) ||| offset

/-- What one turn of the walk makes of the entry it has read: the next table,
or a leaf with the entry to be written back and the physical address. -/
inductive WalkEntry
  | fault
  | table (next : BitVec 64)
  | leaf (updatedPte physicalAddress : BitVec 64)
deriving DecidableEq

/-- The body of the loop in `sv39` after its `read64`, at level `i`. -/
def walkEntry (cpu : Cpu) (virtualAddress : BitVec 64) (accessType : AccessType)
    (effectivePriv : BitVec 8) (i : Nat) (pte : BitVec 64) : WalkEntry :=
  if pte >>> 54 ≠ 0 then .fault
  else
    let ppn := ptePpn pte
    let vpn := vpnOf virtualAddress
    let offset := virtualAddress &&& 0xFFF
    let dBit := pte.getLsbD 7
    let aBit := pte.getLsbD 6
    let uBit := pte.getLsbD 4
    let xBit := pte.getLsbD 3
    let wBit := pte.getLsbD 2
    let rBit := pte.getLsbD 1
    let vBit := pte.getLsbD 0
    if (wBit ∧ !rBit) ∨ !vBit then .fault
    else if !rBit ∧ !xBit then
      if i = 0 then .fault
      else .table (((ppn 2 <<< 18) ||| (ppn 1 <<< 9) ||| ppn 0) <<< 12)
    else if i = 2 ∧ (ppn 1 ≠ 0 ∨ ppn 0 ≠ 0) then .fault
    else if i = 1 ∧ ppn 0 ≠ 0 then .fault
    else if !checkPriviledge cpu effectivePriv uBit accessType then .fault
    else
      let mxr := (cpu.csrs csrMstatus).getLsbD 19
      if accessType = .store ∧ !wBit then .fault
      else if accessType = .load ∧ !rBit ∧ !(mxr && xBit) then .fault
      else if accessType = .fetch ∧ !xBit then .fault
      else
        let updatedPte := if !aBit then pte ||| (1#64 <<< 6) else pte
        let updatedPte :=
          if accessType = .store ∧ !dBit then updatedPte ||| (1#64 <<< 7) else updatedPte
        .leaf updatedPte (getPhysicalAddress ppn vpn offset i)

/-- The loop of `sv39`, from level `i` down, with the table of that level. -/
def sv39Loop (cpu : Cpu) (bus : Bus) (virtualAddress : BitVec 64) (accessType : AccessType)
    (effectivePriv : BitVec 8) : Nat → BitVec 64 → Bus × TranslationResult
  | i, table =>
    let pteAddr := table + vpnOf virtualAddress i * 8
    let pte := vmBusRead64 bus pteAddr
    match walkEntry cpu virtualAddress accessType effectivePriv i pte with
    | .fault => (bus, .error (accessTypeToError accessType))
    | .table next =>
      match i with
      | 0 => (bus, .error (accessTypeToError accessType))
      | i + 1 => sv39Loop cpu bus virtualAddress accessType effectivePriv i next
    | .leaf updatedPte physicalAddress =>
      (if updatedPte ≠ pte then vmBusWrite64 bus pteAddr updatedPte else bus,
        .ok physicalAddress)

def sv39 (cpu : Cpu) (bus : Bus) (virtualAddress : BitVec 64) (accessType : AccessType)
    (effectivePriv : BitVec 8) : Bus × TranslationResult :=
  if !checkUpperBits virtualAddress then (bus, .error (accessTypeToError accessType))
  else
    let satp := cpu.csrs csrSatp
    let ppn := satp &&& ((1#64 <<< 44) - 1)
    sv39Loop cpu bus virtualAddress accessType effectivePriv 2 (ppn <<< 12)

/-- The MPP field, as `translate_address` and `mret` read it. -/
def mppOf (mstatus : BitVec 64) : BitVec 8 := ((mstatus >>> 11) &&& 0x3).setWidth 8

def effectivePriviledge (cpu : Cpu) (accessType : AccessType) : BitVec 8 :=
  let mprv := (cpu.csrs csrMstatus).getLsbD 17
  if cpu.priviledge = mMode ∧ accessType ≠ .fetch ∧ mprv then mppOf (cpu.csrs csrMstatus)
  else cpu.priviledge

/-- The MODE field of `satp`. -/
def satpMode (cpu : Cpu) : BitVec 64 := (cpu.csrs csrSatp >>> 60) &&& 0xF

def translateAddress (cpu : Cpu) (bus : Bus) (virtualAddress : BitVec 64)
    (accessType : AccessType) : Bus × TranslationResult :=
  let mode := satpMode cpu
  let effectivePriv := effectivePriviledge cpu accessType
  if mode = 0 ∨ effectivePriv = mMode then (bus, .ok virtualAddress)
  else if mode = 8 then sv39 cpu bus virtualAddress accessType effectivePriv
  else (bus, .error (accessTypeToError accessType))

end RiscvVm
