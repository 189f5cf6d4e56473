import RiscvVm.Lib.ByteMap

namespace RiscvVm

def memBase : BitVec 64 := 0x80000000
def memSize : BitVec 64 := 64 * 1024 * 1024

/-- The mapping behind `mem`, by index. Only indices below `memSize` belong to
the guest; nothing here reads or writes the others. -/
structure Memory where
  mem : BitVec 64 → BitVec 8

def validAccess (address size : BitVec 64) : Bool :=
  if address < memBase then false
  else decide (address - memBase ≤ memSize - size)

def addressToIndex (address : BitVec 64) : BitVec 64 := address - memBase

/-- `mem_read8` to `mem_read64`: the little-endian value, or 0 when the access
does not lie in memory. -/
def memReadN (w n : Nat) (mem : Memory) (address : BitVec 64) : BitVec w :=
  if validAccess address (BitVec.ofNat 64 n) then
    ByteMap.read w mem.mem (addressToIndex address) n
  else 0

def memRead8 : Memory → BitVec 64 → BitVec 8 := memReadN 8 1
def memRead16 : Memory → BitVec 64 → BitVec 16 := memReadN 16 2
def memRead32 : Memory → BitVec 64 → BitVec 32 := memReadN 32 4
def memRead64 : Memory → BitVec 64 → BitVec 64 := memReadN 64 8

/-- `mem_write8` to `mem_write64`: an access that does not lie in memory is
reported and dropped. -/
def memWriteN {w : Nat} (n : Nat) (mem : Memory) (address : BitVec 64) (value : BitVec w) :
    Memory :=
  if validAccess address (BitVec.ofNat 64 n) then
    { mem := ByteMap.write mem.mem (addressToIndex address) value n }
  else mem

def memWrite8 : Memory → BitVec 64 → BitVec 8 → Memory := memWriteN 1
def memWrite16 : Memory → BitVec 64 → BitVec 16 → Memory := memWriteN 2
def memWrite32 : Memory → BitVec 64 → BitVec 32 → Memory := memWriteN 4
def memWrite64 : Memory → BitVec 64 → BitVec 64 → Memory := memWriteN 8

/-! The same functions as memory.c spells them, byte by byte, with every index
into the array checked: `none` is an access outside it. -/

/-- `mem->mem[idx]`; the array holds `memSize` bytes and any other index is `none`. -/
def Memory.byteAt (mem : Memory) (idx : BitVec 64) : Option (BitVec 8) :=
  if idx < memSize then some (mem.mem idx) else none

/-- `mem->mem[idx] = value`, `none` likewise. -/
def Memory.setByte (mem : Memory) (idx : BitVec 64) (value : BitVec 8) : Option Memory :=
  if idx < memSize then some { mem := fun x => if x = idx then value else mem.mem x } else none

/-- The four writes store their bytes one after the other, each at its offset. -/
def memWriteChecked (mem : Memory) (address size : BitVec 64)
    (bytes : List (BitVec 64 × BitVec 8)) : Option Memory :=
  if validAccess address size then
    bytes.foldlM (fun mem byte => mem.setByte (addressToIndex address + byte.1) byte.2) mem
  else some mem

def memWrite8Checked (mem : Memory) (address : BitVec 64) (value : BitVec 8) : Option Memory :=
  memWriteChecked mem address 1 [(0, value)]

def memWrite16Checked (mem : Memory) (address : BitVec 64) (value : BitVec 16) : Option Memory :=
  memWriteChecked mem address 2
    [(0, (value &&& 0x00FF).setWidth 8),
     (1, (value >>> 8).setWidth 8)]

def memWrite32Checked (mem : Memory) (address : BitVec 64) (value : BitVec 32) : Option Memory :=
  memWriteChecked mem address 4
    [(0, (value &&& 0x000000FF).setWidth 8),
     (1, ((value &&& 0x0000FF00) >>> 8).setWidth 8),
     (2, ((value &&& 0x00FF0000) >>> 16).setWidth 8),
     (3, (value >>> 24).setWidth 8)]

def memWrite64Checked (mem : Memory) (address value : BitVec 64) : Option Memory :=
  memWriteChecked mem address 8
    [(0, (value &&& 0x00000000000000FF).setWidth 8),
     (1, ((value &&& 0x000000000000FF00) >>> 8).setWidth 8),
     (2, ((value &&& 0x0000000000FF0000) >>> 16).setWidth 8),
     (3, ((value &&& 0x00000000FF000000) >>> 24).setWidth 8),
     (4, ((value &&& 0x000000FF00000000) >>> 32).setWidth 8),
     (5, ((value &&& 0x0000FF0000000000) >>> 40).setWidth 8),
     (6, ((value &&& 0x00FF000000000000) >>> 48).setWidth 8),
     (7, (value >>> 56).setWidth 8)]

def memRead8Checked (mem : Memory) (address : BitVec 64) : Option (BitVec 8) :=
  if validAccess address 1 then mem.byteAt (addressToIndex address)
  else some 0

/-- A byte shifted left is an `int` in C, here and in `memRead32Checked`. -/
def memRead16Checked (mem : Memory) (address : BitVec 64) : Option (BitVec 16) :=
  if validAccess address 2 then do
    let idx := addressToIndex address
    let byte1 ← mem.byteAt (idx + 1)
    let byte0 ← mem.byteAt idx
    return ((byte1.setWidth 32 <<< 8) ||| byte0.setWidth 32).setWidth 16
  else some 0

def memRead32Checked (mem : Memory) (address : BitVec 64) : Option (BitVec 32) :=
  if validAccess address 4 then do
    let idx := addressToIndex address
    let byte3 ← mem.byteAt (idx + 3)
    let byte2 ← mem.byteAt (idx + 2)
    let byte1 ← mem.byteAt (idx + 1)
    let byte0 ← mem.byteAt idx
    return (byte3.setWidth 32 <<< 24) ||| (byte2.setWidth 32 <<< 16) |||
      (byte1.setWidth 32 <<< 8) ||| byte0.setWidth 32
  else some 0

def memRead64Checked (mem : Memory) (address : BitVec 64) : Option (BitVec 64) :=
  if validAccess address 8 then do
    let idx := addressToIndex address
    let byte7 ← mem.byteAt (idx + 7)
    let byte6 ← mem.byteAt (idx + 6)
    let byte5 ← mem.byteAt (idx + 5)
    let byte4 ← mem.byteAt (idx + 4)
    let byte3 ← mem.byteAt (idx + 3)
    let byte2 ← mem.byteAt (idx + 2)
    let byte1 ← mem.byteAt (idx + 1)
    let byte0 ← mem.byteAt idx
    return (byte7.setWidth 64 <<< 56) ||| (byte6.setWidth 64 <<< 48) |||
      (byte5.setWidth 64 <<< 40) ||| (byte4.setWidth 64 <<< 32) |||
      (byte3.setWidth 64 <<< 24) ||| (byte2.setWidth 64 <<< 16) |||
      (byte1.setWidth 64 <<< 8) ||| byte0.setWidth 64
  else some 0

end RiscvVm
