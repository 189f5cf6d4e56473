import RiscvVm.Memory
import RiscvVm.Devices

namespace RiscvVm

def uartBase : BitVec 64 := 0x10000000
def uartSize : BitVec 64 := 0x100
def timerBase : BitVec 64 := 0x02000000
def timerSize : BitVec 64 := 0x10000
def ramBase : BitVec 64 := 0x80000000
def ramSize : BitVec 64 := 64 * 1024 * 1024

/-- What the bus routes to: the part of `vm_t` behind `bus->ctx` that the bus
functions use. `transmitted` collects the characters that `uart_write8` has put
to standard output. The lines of log.c go there too and are left out. -/
structure Bus where
  ram : Memory
  timer : Timer
  uart : Uart
  transmitted : List (BitVec 8)

def addrInRange (address base size : BitVec 64) : Bool :=
  decide (address ≥ base) && decide (address - base < size)

/-- The only read that can change a device: the UART's registers are bytes. -/
def vmBusRead8 (bus : Bus) (addr : BitVec 64) : Bus × BitVec 8 :=
  if addrInRange addr ramBase ramSize then (bus, memRead8 bus.ram addr)
  else if addrInRange addr uartBase uartSize then
    let (uart, value) := uartRead8 bus.uart (addr - uartBase)
    ({ bus with uart := uart }, value)
  else (bus, 0)

def vmBusRead16 (bus : Bus) (addr : BitVec 64) : BitVec 16 :=
  if addrInRange addr ramBase ramSize then memRead16 bus.ram addr
  else 0

def vmBusRead32 (bus : Bus) (addr : BitVec 64) : BitVec 32 :=
  if addrInRange addr ramBase ramSize then memRead32 bus.ram addr
  else if addrInRange addr uartBase uartSize then 0
  else if addrInRange addr timerBase timerSize then timerRead32 bus.timer (addr - timerBase)
  else 0

def vmBusRead64 (bus : Bus) (addr : BitVec 64) : BitVec 64 :=
  if addrInRange addr ramBase ramSize then memRead64 bus.ram addr
  else if addrInRange addr uartBase uartSize then 0
  else if addrInRange addr timerBase timerSize then timerRead64 bus.timer (addr - timerBase)
  else 0

def vmBusWrite8 (bus : Bus) (addr : BitVec 64) (value : BitVec 8) : Bus :=
  if addrInRange addr ramBase ramSize then { bus with ram := memWrite8 bus.ram addr value }
  else if addrInRange addr uartBase uartSize then
    let (uart, sent) := uartWrite8 bus.uart (addr - uartBase) value
    { bus with uart := uart, transmitted := bus.transmitted ++ sent.toList }
  else bus

def vmBusWrite16 (bus : Bus) (addr : BitVec 64) (value : BitVec 16) : Bus :=
  if addrInRange addr ramBase ramSize then { bus with ram := memWrite16 bus.ram addr value }
  else bus

def vmBusWrite32 (bus : Bus) (addr : BitVec 64) (value : BitVec 32) : Bus :=
  if addrInRange addr ramBase ramSize then { bus with ram := memWrite32 bus.ram addr value }
  else if addrInRange addr uartBase uartSize then bus
  else if addrInRange addr timerBase timerSize then
    { bus with timer := timerWrite32 bus.timer (addr - timerBase) value }
  else bus

def vmBusWrite64 (bus : Bus) (addr value : BitVec 64) : Bus :=
  if addrInRange addr ramBase ramSize then { bus with ram := memWrite64 bus.ram addr value }
  else if addrInRange addr uartBase uartSize then bus
  else if addrInRange addr timerBase timerSize then
    { bus with timer := timerWrite64 bus.timer (addr - timerBase) value }
  else bus

end RiscvVm
