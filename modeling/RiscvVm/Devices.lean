namespace RiscvVm

def irqTimer : Nat := 7
def irqSoftware : Nat := 3

structure Timer where
  msip : BitVec 32
  mtime : BitVec 64
  mtimecmp : BitVec 64
deriving DecidableEq

def timerMsip : BitVec 64 := 0x0000
def timerMtimecmp : BitVec 64 := 0x4000
def timerMtime : BitVec 64 := 0xBFF8

def timerReset : Timer := { msip := 0, mtime := 0, mtimecmp := BitVec.allOnes 64 }

def timerTick (timer : Timer) : Timer := { timer with mtime := timer.mtime + 1 }

def timerRead32 (timer : Timer) (offset : BitVec 64) : BitVec 32 :=
  if offset = timerMsip then timer.msip &&& 0x1
  else if offset = timerMtimecmp then timer.mtimecmp.setWidth 32
  else if offset = timerMtimecmp + 4 then (timer.mtimecmp >>> 32).setWidth 32
  else if offset = timerMtime then timer.mtime.setWidth 32
  else if offset = timerMtime + 4 then (timer.mtime >>> 32).setWidth 32
  else 0

def timerRead64 (timer : Timer) (offset : BitVec 64) : BitVec 64 :=
  if offset = timerMsip then (timer.msip &&& 0x1).setWidth 64
  else if offset = timerMtimecmp then timer.mtimecmp
  else if offset = timerMtime then timer.mtime
  else 0

/-- The four cases for the halves of `mtimecmp` and `mtime` compute a value
and assign it to nothing, so only `msip` can change. -/
def timerWrite32 (timer : Timer) (offset : BitVec 64) (value : BitVec 32) : Timer :=
  if offset = timerMsip then { timer with msip := value &&& 0x1 }
  else timer

/-- The `msip` case has no `break` and falls into the `mtimecmp` case. -/
def timerWrite64 (timer : Timer) (offset value : BitVec 64) : Timer :=
  if offset = timerMsip then { timer with msip := value.setWidth 32 &&& 0x1, mtimecmp := value }
  else if offset = timerMtimecmp then { timer with mtimecmp := value }
  else if offset = timerMtime then { timer with mtime := value }
  else timer

def uartIir : BitVec 64 := 0x02
def uartFcr : BitVec 64 := 0x02
def uartLcr : BitVec 64 := 0x03
def uartMcr : BitVec 64 := 0x04
def uartLsr : BitVec 64 := 0x05
def uartMsr : BitVec 64 := 0x06
def uartScr : BitVec 64 := 0x07

def uartLcrDlab : BitVec 8 := 0x80
def uartIerRxAvailable : BitVec 8 := 0x01
def uartIerThrEmpty : BitVec 8 := 0x02
def uartFcrEnableFifo : BitVec 8 := 0x01
def uartFcrClearRx : BitVec 8 := 0x02
def uartFcrClearTx : BitVec 8 := 0x04
def uartLsrDataReady : BitVec 8 := 0x01
def uartLsrThrEmpty : BitVec 8 := 0x20
def uartLsrTxEmpty : BitVec 8 := 0x40
def uartIirNoInterrupt : BitVec 8 := 0x01
def uartIirThrEmpty : BitVec 8 := 0x02
def uartIirRxAvailable : BitVec 8 := 0x04
def uartIirFifoEnabled : BitVec 8 := 0xC0
def uartFifoSize : BitVec 16 := 16

structure Uart where
  rxFifo : BitVec 16 → BitVec 8
  rxHead : BitVec 16
  rxTail : BitVec 16
  rxCount : BitVec 16
  txHead : BitVec 16
  txTail : BitVec 16
  txCount : BitVec 16
  threPending : Bool
  dll : BitVec 8
  dlm : BitVec 8
  ier : BitVec 8
  fcr : BitVec 8
  lcr : BitVec 8
  mcr : BitVec 8
  scr : BitVec 8

def uartInit : Uart :=
  { rxFifo := fun _ => 0, rxHead := 0, rxTail := 0, rxCount := 0, txHead := 0, txTail := 0,
    txCount := 0, threPending := false, dll := 0, dlm := 0, ier := 0, fcr := 0, lcr := 0,
    mcr := 0, scr := 0 }

/-- `input` is the byte that `poll` and `read` deliver from standard input,
if one is there. -/
def uartHandleHostInput (uart : Uart) (input : Option (BitVec 8)) : Uart :=
  if uart.rxCount = uartFifoSize then uart
  else
    match input with
    | none => uart
    | some byte =>
      { uart with
        rxFifo := fun i => if i = uart.rxHead then byte else uart.rxFifo i
        rxHead := (uart.rxHead + 1) % uartFifoSize
        rxCount := uart.rxCount + 1 }

def uartRead8 (uart : Uart) (offset : BitVec 64) : Uart × BitVec 8 :=
  if offset = 0x00 then
    if uart.lcr &&& uartLcrDlab ≠ 0 then (uart, uart.dll)
    else if uart.rxCount = 0 then (uart, 0)
    else
      ({ uart with
          rxTail := (uart.rxTail + 1) % uartFifoSize
          rxCount := uart.rxCount - 1 }, uart.rxFifo uart.rxTail)
  else if offset = 0x01 then
    if uart.lcr &&& uartLcrDlab ≠ 0 then (uart, uart.dlm) else (uart, uart.ier)
  else if offset = uartIir then
    let fifo := if uart.fcr &&& uartFcrEnableFifo ≠ 0 then uartIirFifoEnabled else 0
    if uart.ier &&& uartIerRxAvailable ≠ 0 ∧ uart.rxCount > 0 then
      (uart, fifo ||| uartIirRxAvailable)
    else if uart.ier &&& uartIerThrEmpty ≠ 0 ∧ uart.threPending then
      ({ uart with threPending := false }, fifo ||| uartIirThrEmpty)
    else (uart, fifo ||| uartIirNoInterrupt)
  else if offset = uartLcr then (uart, uart.lcr)
  else if offset = uartMcr then (uart, uart.mcr)
  else if offset = uartLsr then
    let lsr := uartLsrThrEmpty ||| uartLsrTxEmpty
    (uart, if uart.rxCount > 0 then lsr ||| uartLsrDataReady else lsr)
  else if offset = uartMsr then (uart, 0x00)
  else if offset = uartScr then (uart, uart.scr)
  else (uart, 0)

/-- The second component is the character handed to `putchar`, if any. -/
def uartWrite8 (uart : Uart) (offset : BitVec 64) (value : BitVec 8) :
    Uart × Option (BitVec 8) :=
  if offset = 0x00 then
    if uart.lcr &&& uartLcrDlab ≠ 0 then ({ uart with dll := value }, none)
    else ({ uart with threPending := true }, some value)
  else if offset = 0x01 then
    if uart.lcr &&& uartLcrDlab ≠ 0 then ({ uart with dlm := value }, none)
    else
      let oldIer := uart.ier
      let uart := { uart with ier := value }
      let uart :=
        if uart.ier &&& uartIerThrEmpty = 0 then { uart with threPending := false } else uart
      let uart :=
        if oldIer &&& uartIerThrEmpty = 0 ∧ uart.ier &&& uartIerThrEmpty ≠ 0 ∧ uart.txCount = 0
        then { uart with threPending := true } else uart
      (uart, none)
  else if offset = uartFcr then
    let uart :=
      if value &&& uartFcrClearRx ≠ 0 then { uart with rxHead := 0, rxTail := 0, rxCount := 0 }
      else uart
    let uart :=
      if value &&& uartFcrClearTx ≠ 0 then { uart with txHead := 0, txTail := 0, txCount := 0 }
      else uart
    ({ uart with fcr := value &&& ~~~(uartFcrClearRx ||| uartFcrClearTx) }, none)
  else if offset = uartLcr then ({ uart with lcr := value }, none)
  else if offset = uartMcr then ({ uart with mcr := value }, none)
  else if offset = uartLsr then (uart, none)
  else if offset = uartMsr then (uart, none)
  else if offset = uartScr then ({ uart with scr := value }, none)
  else (uart, none)

end RiscvVm
