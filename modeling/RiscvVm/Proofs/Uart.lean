import RiscvVm.Devices
import RiscvVm.Lib.Queue

namespace RiscvVm.Proofs

/-- The UART and the bytes standard input has still to deliver. -/
structure Terminal where
  uart : Uart
  stdin : List (BitVec 8)

/-- What the host and the guest do to the UART. -/
inductive UartAccess
  | host (ready : Bool)
  | read (offset : BitVec 64)
  | write (offset : BitVec 64) (value : BitVec 8)

/-- `uart_handle_host_input` reads standard input, if that is ready, only after
it has found room in the FIFO. -/
def Terminal.handleHostInput (t : Terminal) (ready : Bool) : Terminal :=
  if t.uart.rxCount = uartFifoSize then t
  else
    match ready, t.stdin with
    | true, byte :: rest => { uart := uartHandleHostInput t.uart (some byte), stdin := rest }
    | _, _ => { t with uart := uartHandleHostInput t.uart none }

def Terminal.access (t : Terminal) : UartAccess → Terminal
  | .host ready => t.handleHostInput ready
  | .read offset => { t with uart := (uartRead8 t.uart offset).1 }
  | .write offset value => { t with uart := (uartWrite8 t.uart offset value).1 }

/-- The read of the receiver buffer: offset 0 with DLAB clear. -/
def readsBuffer (uart : Uart) (offset : BitVec 64) : Bool :=
  offset = 0 ∧ uart.lcr &&& uartLcrDlab = 0

/-- The FCR write that clears the receiver. -/
def clearsReceiver (offset : BitVec 64) (value : BitVec 8) : Bool :=
  offset = uartFcr ∧ value &&& uartFcrClearRx ≠ 0

/-- The bytes in the receiver FIFO, oldest first. -/
def queued (uart : Uart) : List (BitVec 8) :=
  Queue.contents 16 (fun i => uart.rxFifo (BitVec.ofNat 16 i)) uart.rxTail.toNat uart.rxCount.toNat

def Terminal.queue (t : Terminal) : Queue.State (BitVec 8) :=
  { queued := queued t.uart, pending := t.stdin }

/-- What an access does to the queue. -/
def Terminal.op (t : Terminal) : UartAccess → Queue.Op
  | .host ready => .offer ready
  | .read offset => if readsBuffer t.uart offset then .take else .skip
  | .write offset value => if clearsReceiver offset value then .clear else .skip

/-- The byte of the host that an access gives to the guest. -/
def Terminal.received (t : Terminal) : UartAccess → Option (BitVec 8)
  | .read offset =>
    if readsBuffer t.uart offset ∧ t.uart.rxCount ≠ 0 then some (uartRead8 t.uart offset).2
    else none
  | _ => none

/-- The indices of the receiver FIFO. -/
structure Indexed (uart : Uart) : Prop where
  head_lt : uart.rxHead.toNat < 16
  tail_lt : uart.rxTail.toNat < 16
  count_le : uart.rxCount.toNat ≤ 16
  head_eq : uart.rxHead.toNat = (uart.rxTail.toNat + uart.rxCount.toNat) % 16

/-- The receiver is left alone. -/
structure SameReceiver (uart uart' : Uart) : Prop where
  fifo : uart'.rxFifo = uart.rxFifo
  head : uart'.rxHead = uart.rxHead
  tail : uart'.rxTail = uart.rxTail
  count : uart'.rxCount = uart.rxCount

section
variable {uart uart' : Uart}

theorem SameReceiver.queued (h : SameReceiver uart uart') : queued uart' = queued uart := by
  unfold Proofs.queued
  rw [h.fifo, h.tail, h.count]

theorem SameReceiver.indexed (h : SameReceiver uart uart') (hi : Indexed uart) :
    Indexed uart' := by
  obtain ⟨hhead, htail, hcount, heq⟩ := hi
  refine ⟨?_, ?_, ?_, ?_⟩
  · rwa [h.head]
  · rwa [h.tail]
  · rwa [h.count]
  · rwa [h.head, h.tail, h.count]

/-- A read leaves the UART alone, takes a byte, or takes what the IIR reports. -/
theorem uart_read_cases (uart : Uart) (offset : BitVec 64) :
    (uartRead8 uart offset).1 = uart ∨
    (readsBuffer uart offset = true ∧ (uartRead8 uart offset).1 =
      { uart with rxTail := (uart.rxTail + 1) % uartFifoSize, rxCount := uart.rxCount - 1 }) ∨
    (offset = uartIir ∧ ¬ (uart.ier &&& uartIerRxAvailable ≠ 0 ∧ uart.rxCount > 0) ∧
      (uartRead8 uart offset).1 = { uart with threPending := false }) := by
  unfold uartRead8
  by_cases h0 : offset = 0x00
  · rw [if_pos h0]
    split
    · exact Or.inl rfl
    split
    · exact Or.inl rfl
    · exact Or.inr (Or.inl ⟨decide_eq_true ⟨h0, Classical.not_not.mp ‹_›⟩, rfl⟩)
  rw [if_neg h0]
  by_cases h1 : offset = 0x01
  · rw [if_pos h1]
    split
    · exact Or.inl rfl
    · exact Or.inl rfl
  rw [if_neg h1]
  by_cases hiir : offset = uartIir
  · rw [if_pos hiir]
    dsimp only
    split
    · exact Or.inl rfl
    split
    · exact Or.inr (Or.inr ⟨hiir, ‹_›, rfl⟩)
    · exact Or.inl rfl
  rw [if_neg hiir]
  -- the other registers are only read
  left
  repeat' split
  all_goals rfl

/-- A write goes to the THR, the IER, the FCR, or a register that does nothing. -/
theorem uart_write_cases (uart : Uart) (offset : BitVec 64) (value : BitVec 8) :
    (offset = 0x00 ∧ uart.lcr &&& uartLcrDlab = 0 ∧
      (uartWrite8 uart offset value).1 = { uart with threPending := true }) ∨
    (offset = 0x01 ∧ uart.lcr &&& uartLcrDlab = 0 ∧ ∃ pending,
      (uartWrite8 uart offset value).1 = { uart with ier := value, threPending := pending }) ∨
    offset = uartFcr ∨
    ∃ dll dlm lcr mcr scr, (uartWrite8 uart offset value).1 =
      { uart with dll := dll, dlm := dlm, lcr := lcr, mcr := mcr, scr := scr } := by
  unfold uartWrite8
  by_cases h0 : offset = 0x00
  · rw [if_pos h0]
    split
    · exact Or.inr (Or.inr (Or.inr ⟨_, _, _, _, _, rfl⟩))
    · exact Or.inl ⟨h0, Classical.not_not.mp ‹_›, rfl⟩
  rw [if_neg h0]
  by_cases h1 : offset = 0x01
  · rw [if_pos h1]
    split
    · exact Or.inr (Or.inr (Or.inr ⟨_, _, _, _, _, rfl⟩))
    · refine Or.inr (Or.inl ⟨h1, Classical.not_not.mp ‹_›, ?_⟩)
      dsimp only
      repeat' split
      all_goals exact ⟨_, rfl⟩
  rw [if_neg h1]
  by_cases hfcr : offset = uartFcr
  · exact Or.inr (Or.inr (Or.inl hfcr))
  rw [if_neg hfcr]
  refine Or.inr (Or.inr (Or.inr ?_))
  repeat' split
  all_goals exact ⟨_, _, _, _, _, rfl⟩

theorem read_keeps_receiver {offset : BitVec 64} (h : readsBuffer uart offset = false) :
    SameReceiver uart (uartRead8 uart offset).1 := by
  rcases uart_read_cases uart offset with he | ⟨hr, _⟩ | ⟨_, _, he⟩
  · rw [he]
    exact ⟨rfl, rfl, rfl, rfl⟩
  · rw [h] at hr
    cases hr
  · rw [he]
    exact ⟨rfl, rfl, rfl, rfl⟩

theorem write_keeps_receiver (uart : Uart) {offset : BitVec 64} {value : BitVec 8}
    (h : clearsReceiver offset value = false) :
    SameReceiver uart (uartWrite8 uart offset value).1 := by
  rcases uart_write_cases uart offset value with ⟨_, _, he⟩ | ⟨_, _, _, he⟩ | rfl |
    ⟨_, _, _, _, _, he⟩
  · rw [he]
    exact ⟨rfl, rfl, rfl, rfl⟩
  · rw [he]
    exact ⟨rfl, rfl, rfl, rfl⟩
  · have hno : ¬ value &&& uartFcrClearRx ≠ 0 := fun hc => of_decide_eq_false h ⟨rfl, hc⟩
    unfold uartWrite8
    rw [if_neg (by decide), if_neg (by decide), if_pos rfl]
    dsimp only
    rw [if_neg hno]
    split
    · exact ⟨rfl, rfl, rfl, rfl⟩
    · exact ⟨rfl, rfl, rfl, rfl⟩
  · rw [he]
    exact ⟨rfl, rfl, rfl, rfl⟩

theorem fifo_size_nat : uartFifoSize.toNat = 16 := rfl

/-- An index that moves on by one. -/
theorem index_next (i : BitVec 16) :
    ((i + 1) % uartFifoSize).toNat = (i.toNat + 1) % 16 := by
  have h1 : (1 : BitVec 16).toNat = 1 := rfl
  rw [BitVec.toNat_umod, BitVec.toNat_add, fifo_size_nat]
  omega

theorem length_queued (uart : Uart) : (queued uart).length = uart.rxCount.toNat := by
  rw [queued, Queue.length_contents]

theorem count_zero_iff : uart.rxCount = 0 ↔ queued uart = [] := by
  rw [← List.length_eq_zero_iff, length_queued]
  constructor
  · intro h
    rw [h]
    rfl
  · intro h
    exact BitVec.eq_of_toNat_eq h

theorem buffer_read_empty {offset : BitVec 64} (h : readsBuffer uart offset = true)
    (hcount : uart.rxCount = 0) : uartRead8 uart offset = (uart, 0) := by
  obtain ⟨h0, hd⟩ : offset = 0 ∧ uart.lcr &&& uartLcrDlab = 0 := of_decide_eq_true h
  unfold uartRead8
  rw [if_pos h0, if_neg (not_not_intro hd), if_pos hcount]

theorem buffer_read {offset : BitVec 64} (h : readsBuffer uart offset = true)
    (hcount : uart.rxCount ≠ 0) : uartRead8 uart offset =
      ({ uart with rxTail := (uart.rxTail + 1) % uartFifoSize, rxCount := uart.rxCount - 1 },
        uart.rxFifo uart.rxTail) := by
  obtain ⟨h0, hd⟩ : offset = 0 ∧ uart.lcr &&& uartLcrDlab = 0 := of_decide_eq_true h
  unfold uartRead8
  rw [if_pos h0, if_neg (not_not_intro hd), if_neg hcount]

/-- Reading the buffer takes the oldest byte. -/
theorem buffer_read_pops {offset : BitVec 64} (hi : Indexed uart)
    (h : readsBuffer uart offset = true) (hcount : uart.rxCount ≠ 0) :
    queued uart = (uartRead8 uart offset).2 :: queued (uartRead8 uart offset).1 ∧
      Indexed (uartRead8 uart offset).1 := by
  obtain ⟨hhead, htail, hle, heq⟩ := hi
  have hpos : uart.rxCount.toNat ≠ 0 := fun hz => hcount (BitVec.eq_of_toNat_eq hz)
  have h1 : (1 : BitVec 16).toNat = 1 := rfl
  have hpred : (uart.rxCount - 1).toNat = uart.rxCount.toNat - 1 := by
    rw [BitVec.toNat_sub]
    omega
  have hnext := index_next uart.rxTail
  rw [buffer_read h hcount]
  refine ⟨?_, ⟨hhead, ?_, ?_, ?_⟩⟩
  · have hpop := Queue.contents_pop 16 (fun i => uart.rxFifo (BitVec.ofNat 16 i))
      uart.rxTail.toNat (uart.rxCount.toNat - 1)
    have hsucc : uart.rxCount.toNat - 1 + 1 = uart.rxCount.toNat := by omega
    rw [hsucc, Nat.mod_eq_of_lt htail, BitVec.ofNat_toNat, BitVec.setWidth_eq] at hpop
    simp only [queued, hnext, hpred]
    exact hpop
  · dsimp only
    omega
  · dsimp only
    omega
  · dsimp only
    omega

/-- A byte of the host goes behind the others. -/
theorem host_input_pushes (hi : Indexed uart) (hfull : uart.rxCount ≠ uartFifoSize)
    (byte : BitVec 8) :
    queued (uartHandleHostInput uart (some byte)) = queued uart ++ [byte] ∧
      Indexed (uartHandleHostInput uart (some byte)) := by
  obtain ⟨hhead, htail, hle, heq⟩ := hi
  have hroom : uart.rxCount.toNat < 16 := by
    have hne : uart.rxCount.toNat ≠ 16 := fun he => hfull (BitVec.eq_of_toNat_eq he)
    omega
  have h1 : (1 : BitVec 16).toNat = 1 := rfl
  have hsucc : (uart.rxCount + 1).toNat = uart.rxCount.toNat + 1 := by
    rw [BitVec.toNat_add]
    omega
  have hnext := index_next uart.rxHead
  have hhead' : BitVec.ofNat 16 ((uart.rxTail.toNat + uart.rxCount.toNat) % 16) = uart.rxHead := by
    rw [← heq, BitVec.ofNat_toNat, BitVec.setWidth_eq]
  unfold uartHandleHostInput
  rw [if_neg hfull]
  refine ⟨?_, ⟨?_, htail, ?_, ?_⟩⟩
  · have hpush := Queue.contents_push (fun i => uart.rxFifo (BitVec.ofNat 16 i))
      (fun i => if BitVec.ofNat 16 i = uart.rxHead then byte else uart.rxFifo (BitVec.ofNat 16 i))
      uart.rxTail.toNat hroom ?_
    · simp only [hhead', if_true] at hpush
      simp only [queued, hsucc]
      exact hpush
    · intro i hi hne
      refine if_neg fun he => hne ?_
      rw [← heq, ← he, BitVec.toNat_ofNat]
      omega
  · dsimp only
    omega
  · dsimp only
    omega
  · dsimp only
    omega

theorem clear_empties (uart : Uart) {offset : BitVec 64} {value : BitVec 8}
    (h : clearsReceiver offset value = true) :
    queued (uartWrite8 uart offset value).1 = [] ∧ Indexed (uartWrite8 uart offset value).1 := by
  obtain ⟨hoff, hclear⟩ : offset = uartFcr ∧ value &&& uartFcrClearRx ≠ 0 := of_decide_eq_true h
  have hzero : ∀ u : Uart, u.rxHead = 0 → u.rxTail = 0 → u.rxCount = 0 →
      queued u = [] ∧ Indexed u := by
    intro u hhead htail hcount
    refine ⟨count_zero_iff.mp hcount, ⟨?_, ?_, ?_, ?_⟩⟩
    · rw [hhead]
      decide
    · rw [htail]
      decide
    · rw [hcount]
      decide
    · rw [hhead, htail, hcount]
      decide
  subst hoff
  unfold uartWrite8
  rw [if_neg (by decide), if_neg (by decide), if_pos rfl]
  dsimp only
  rw [if_pos hclear]
  split
  · exact hzero _ rfl rfl rfl
  · exact hzero _ rfl rfl rfl

end

/-- The host turn does nothing, or moves a byte of standard input into a FIFO
that has room. -/
theorem host_cases {t : Terminal} (hi : Indexed t.uart) (ready : Bool) :
    (t.handleHostInput ready = t ∧
      (16 ≤ (queued t.uart).length ∨ ready = false ∨ t.stdin = [])) ∨
    ∃ byte rest, ready = true ∧ t.stdin = byte :: rest ∧ (queued t.uart).length < 16 ∧
      t.handleHostInput ready =
        { uart := uartHandleHostInput t.uart (some byte), stdin := rest } ∧
      queued (t.handleHostInput ready).uart = queued t.uart ++ [byte] ∧
      Indexed (t.handleHostInput ready).uart := by
  unfold Terminal.handleHostInput
  by_cases hfull : t.uart.rxCount = uartFifoSize
  · have hlength : (queued t.uart).length = 16 := by
      rw [length_queued, hfull]
      rfl
    rw [if_pos hfull]
    exact Or.inl ⟨rfl, Or.inl (Nat.le_of_eq hlength.symm)⟩
  · have hidle : uartHandleHostInput t.uart none = t.uart := by
      unfold uartHandleHostInput
      rw [if_neg hfull]
    have hroom : (queued t.uart).length < 16 := by
      have hne : t.uart.rxCount.toNat ≠ 16 := fun he => hfull (BitVec.eq_of_toNat_eq he)
      have hle := hi.count_le
      rw [length_queued]
      omega
    rw [if_neg hfull, hidle]
    match ready, hstdin : t.stdin with
    | false, stdin => exact Or.inl ⟨by rw [← hstdin], Or.inr (Or.inl rfl)⟩
    | true, [] =>
      have hsame : ({ uart := t.uart, stdin := [] } : Terminal) = t := by rw [← hstdin]
      exact Or.inl ⟨hsame, Or.inr (Or.inr rfl)⟩
    | true, byte :: rest =>
      obtain ⟨hqueued, hindexed⟩ := host_input_pushes hi hfull byte
      exact Or.inr ⟨byte, rest, rfl, rfl, hroom, rfl, hqueued, hindexed⟩

theorem host_refines {t : Terminal} (hi : Indexed t.uart) (ready : Bool) :
    Indexed (t.handleHostInput ready).uart ∧
      Queue.step 16 t.queue (.offer ready) = ((t.handleHostInput ready).queue, none) := by
  rcases host_cases hi ready with ⟨hsame, hidle⟩ |
    ⟨byte, rest, rfl, hstdin, hroom, hdone, hqueued, hindexed⟩
  · rw [hsame]
    refine ⟨hi, ?_⟩
    rcases hidle with hfull | rfl | hstdin
    · exact Queue.offer_full hfull ready
    · rfl
    · simp only [Queue.step, Terminal.queue, hstdin]
  · refine ⟨hindexed, ?_⟩
    unfold Terminal.queue
    rw [hqueued, hdone, hstdin]
    exact Queue.offer_room hroom byte rest

/-- Every access does to the queue what its operation does. -/
theorem access_refines {t : Terminal} (hi : Indexed t.uart) (access : UartAccess) :
    Indexed (t.access access).uart ∧
      Queue.step 16 t.queue (t.op access) = ((t.access access).queue, t.received access) := by
  cases access with
  | host ready => exact host_refines hi ready
  | read offset =>
    cases hr : readsBuffer t.uart offset with
    | false =>
      have hsame := read_keeps_receiver hr
      refine ⟨hsame.indexed hi, ?_⟩
      simp [Terminal.op, Terminal.access, Terminal.received, Terminal.queue, hr, Queue.step,
        hsame.queued]
    | true =>
      by_cases hcount : t.uart.rxCount = 0
      · have hread := buffer_read_empty hr hcount
        have hempty : queued t.uart = [] := count_zero_iff.mp hcount
        refine ⟨?_, ?_⟩
        · simpa [Terminal.access, hread] using hi
        · simp [Terminal.op, Terminal.access, Terminal.received, Terminal.queue, hr, Queue.step,
            hread, hempty, hcount]
      · obtain ⟨hpop, hindexed⟩ := buffer_read_pops hi hr hcount
        refine ⟨hindexed, ?_⟩
        simp only [Terminal.op, Terminal.access, Terminal.received, Terminal.queue, hr, Queue.step,
          hpop, if_true]
        rw [if_pos ⟨trivial, hcount⟩]
  | write offset value =>
    cases hc : clearsReceiver offset value with
    | false =>
      have hsame := write_keeps_receiver t.uart hc
      refine ⟨hsame.indexed hi, ?_⟩
      simp [Terminal.op, Terminal.access, Terminal.received, Terminal.queue, hc, Queue.step,
        hsame.queued]
    | true =>
      obtain ⟨hempty, hindexed⟩ := clear_empties t.uart hc
      refine ⟨hindexed, ?_⟩
      simp [Terminal.op, Terminal.access, Terminal.received, Terminal.queue, hc, Queue.step,
        hempty]

def Terminal.run : Terminal → List UartAccess → Terminal
  | t, [] => t
  | t, access :: accesses => (t.access access).run accesses

/-- The operations on the queue that a run of accesses amounts to. -/
def Terminal.ops : Terminal → List UartAccess → List Queue.Op
  | _, [] => []
  | t, access :: accesses => t.op access :: (t.access access).ops accesses

/-- The bytes of the host that the guest has read in a run. -/
def Terminal.reads : Terminal → List UartAccess → List (BitVec 8)
  | _, [] => []
  | t, access :: accesses => (t.received access).toList ++ (t.access access).reads accesses

theorem run_refines {t : Terminal} (hi : Indexed t.uart) (accesses : List UartAccess) :
    Indexed (t.run accesses).uart ∧
      Queue.run 16 t.queue (t.ops accesses) = ((t.run accesses).queue, t.reads accesses) := by
  induction accesses generalizing t with
  | nil => exact ⟨hi, rfl⟩
  | cons access accesses ih =>
    obtain ⟨hnext, hstep⟩ := access_refines hi access
    obtain ⟨hlast, hrun⟩ := ih hnext
    refine ⟨hlast, ?_⟩
    simp only [Terminal.ops, Terminal.run, Terminal.reads, Queue.run, hstep, hrun]

/-- The line status shows whether there is a byte to read. -/
theorem line_status (uart : Uart) :
    (uartRead8 uart uartLsr).2 &&& uartLsrDataReady ≠ 0 ↔ queued uart ≠ [] := by
  have hread : (uartRead8 uart uartLsr).2 =
      if uart.rxCount > 0 then uartLsrThrEmpty ||| uartLsrTxEmpty ||| uartLsrDataReady
      else uartLsrThrEmpty ||| uartLsrTxEmpty := rfl
  have hpos : uart.rxCount > 0 ↔ queued uart ≠ [] := by
    rw [← not_iff_not, not_not, ← count_zero_iff]
    bv_omega
  rw [hread, ← hpos]
  split
  · exact ⟨fun _ => ‹_›, fun _ => by decide⟩
  · exact ⟨fun h => absurd rfl h, fun h => absurd h ‹_›⟩

/-- The receiver as it starts, with everything the host will ever type. -/
def Terminal.start (stdin : List (BitVec 8)) : Terminal := { uart := uartInit, stdin := stdin }

theorem init_indexed : Indexed uartInit := ⟨by decide, by decide, by decide, rfl⟩

/-- In whatever order the host and the guest access the UART, its receiver is a
queue of at most 16 bytes; until it is cleared, the guest reads the bytes of the
host in order and each of them once. -/
theorem uart_receiver_is_queue (stdin : List (BitVec 8)) (accesses : List UartAccess) :
    let t := (Terminal.start stdin).run accesses
    Indexed t.uart ∧
      Queue.run 16 (Terminal.start stdin).queue ((Terminal.start stdin).ops accesses) =
        (t.queue, (Terminal.start stdin).reads accesses) ∧
      (∀ ready, t.handleHostInput ready = t ∨
        ∃ byte, t.stdin = byte :: (t.handleHostInput ready).stdin ∧
          queued (t.handleHostInput ready).uart = queued t.uart ++ [byte]) ∧
      (∀ offset, readsBuffer t.uart offset = true → queued t.uart = [] →
        uartRead8 t.uart offset = (t.uart, 0)) ∧
      (∀ offset byte rest, readsBuffer t.uart offset = true → queued t.uart = byte :: rest →
        (uartRead8 t.uart offset).2 = byte ∧ queued (uartRead8 t.uart offset).1 = rest) ∧
      (∀ offset, readsBuffer t.uart offset = false →
        queued (uartRead8 t.uart offset).1 = queued t.uart) ∧
      (∀ offset value, queued (uartWrite8 t.uart offset value).1 =
        if clearsReceiver offset value then [] else queued t.uart) ∧
      ((uartRead8 t.uart uartLsr).2 &&& uartLsrDataReady ≠ 0 ↔ queued t.uart ≠ []) ∧
      ∀ more, .clear ∉ t.ops more →
        queued t.uart ++ t.stdin =
          t.reads more ++ (queued (t.run more).uart ++ (t.run more).stdin) := by
  intro t
  obtain ⟨hi, hrun⟩ := run_refines (t := Terminal.start stdin) init_indexed accesses
  refine ⟨hi, hrun, fun ready => ?_, fun offset hr hempty => ?_, fun offset byte rest hr hq => ?_,
    fun offset hr => (read_keeps_receiver hr).queued, fun offset value => ?_, line_status _,
    fun more hclear => ?_⟩
  · rcases host_cases hi ready with ⟨hsame, _⟩ | ⟨byte, rest, _, hstdin, _, hdone, hqueued, _⟩
    · exact Or.inl hsame
    · refine Or.inr ⟨byte, ?_, hqueued⟩
      rw [hdone]
      exact hstdin
  · exact buffer_read_empty hr (count_zero_iff.mpr hempty)
  · have hcount : t.uart.rxCount ≠ 0 := by
      intro hz
      rw [count_zero_iff.mp hz] at hq
      cases hq
    have hpop := (buffer_read_pops hi hr hcount).1
    rw [hq] at hpop
    cases hpop
    exact ⟨rfl, rfl⟩
  · cases hc : clearsReceiver offset value with
    | true => exact (clear_empties _ hc).1
    | false => exact (write_keeps_receiver _ hc).queued
  · have hconserved := Queue.run_conserves 16 t.queue hclear
    rw [(run_refines hi more).2] at hconserved
    exact hconserved

end RiscvVm.Proofs
