import RiscvVm.Proofs.Uart
import RiscvVm.Lib.Past

namespace RiscvVm.Proofs

/-- IER has the transmit-empty interrupt enabled. -/
def ThreEnabled (uart : Uart) : Prop := uart.ier &&& uartIerThrEmpty ≠ 0

/-- The IIR reports received data before anything else. -/
def ReportsData (uart : Uart) : Prop := uart.ier &&& uartIerRxAvailable ≠ 0 ∧ uart.rxCount > 0

instance (uart : Uart) : Decidable (ThreEnabled uart) := inferInstanceAs (Decidable (_ ≠ _))

instance (uart : Uart) : Decidable (ReportsData uart) := inferInstanceAs (Decidable (_ ∧ _))

/-- What a read of the IIR reports, without the FIFO bits. -/
def iirCause (uart : Uart) : BitVec 8 := (uartRead8 uart uartIir).2 &&& ~~~uartIirFifoEnabled

/-- A write to the THR, or one to the IER that turns the transmit-empty
interrupt on. -/
def Notifies (uart : Uart) : UartAccess → Prop
  | .write offset value =>
    uart.lcr &&& uartLcrDlab = 0 ∧
      (offset = 0x00 ∨ (offset = 0x01 ∧ ¬ ThreEnabled uart ∧ value &&& uartIerThrEmpty ≠ 0))
  | _ => False

/-- A read of the IIR that does not report received data. -/
def Polls (uart : Uart) (access : UartAccess) : Prop :=
  access = .read uartIir ∧ ¬ ReportsData uart

/-- The next poll will report the transmitter empty. -/
def Waiting (uart : Uart) : Prop := ThreEnabled uart ∧ uart.threPending = true

theorem iir_cause (uart : Uart) :
    (ReportsData uart ∧ iirCause uart = uartIirRxAvailable) ∨
    (¬ ReportsData uart ∧ Waiting uart ∧ iirCause uart = uartIirThrEmpty) ∨
    (¬ ReportsData uart ∧ ¬ Waiting uart ∧ iirCause uart = uartIirNoInterrupt) := by
  have hmask : ∀ cause : BitVec 8, cause &&& ~~~uartIirFifoEnabled = cause →
      ((if uart.fcr &&& uartFcrEnableFifo ≠ 0 then uartIirFifoEnabled else 0) ||| cause) &&&
        ~~~uartIirFifoEnabled = cause := by
    intro cause hcause
    split
    · rw [BitVec.and_or_distrib_right, hcause]
      simp
    · simpa using hcause
  unfold iirCause uartRead8
  rw [if_neg (by decide), if_neg (by decide), if_pos rfl]
  dsimp only
  split
  · exact Or.inl ⟨‹_›, hmask _ (by decide)⟩
  · split
    · exact Or.inr (Or.inl ⟨‹_›, ‹_›, hmask _ (by decide)⟩)
    · exact Or.inr (Or.inr ⟨‹_›, ‹_›, hmask _ (by decide)⟩)

/-- The transmit side is left alone. -/
structure SameTransmitter (uart uart' : Uart) : Prop where
  ier : uart'.ier = uart.ier
  count : uart'.txCount = uart.txCount
  pending : uart'.threPending = uart.threPending

theorem SameTransmitter.waiting {uart uart' : Uart} (h : SameTransmitter uart uart') :
    Waiting uart' ↔ Waiting uart ∧ ThreEnabled uart' := by
  rw [Waiting, Waiting, ThreEnabled, ThreEnabled, h.ier, h.pending]
  exact ⟨fun hw => ⟨hw, hw.1⟩, fun hw => hw.1⟩

theorem host_keeps_transmitter (t : Terminal) (ready : Bool) :
    SameTransmitter t.uart (t.handleHostInput ready).uart := by
  unfold Terminal.handleHostInput uartHandleHostInput
  repeat' split
  all_goals exact ⟨rfl, rfl, rfl⟩

theorem read_keeps_transmitter {uart : Uart} {offset : BitVec 64}
    (h : ¬ Polls uart (.read offset)) : SameTransmitter uart (uartRead8 uart offset).1 := by
  rcases uart_read_cases uart offset with he | ⟨_, he⟩ | ⟨hiir, hdata, _⟩
  · rw [he]
    exact ⟨rfl, rfl, rfl⟩
  · rw [he]
    exact ⟨rfl, rfl, rfl⟩
  · exact absurd ⟨congrArg UartAccess.read hiir, hdata⟩ h

/-- Writes to the other registers do, too: nothing is ever left to be sent. -/
theorem write_keeps_transmitter {uart : Uart} {offset : BitVec 64} {value : BitVec 8}
    (htx : uart.txCount = 0)
    (h : uart.lcr &&& uartLcrDlab = 0 → offset ≠ 0x00 ∧ offset ≠ 0x01) :
    SameTransmitter uart (uartWrite8 uart offset value).1 := by
  rcases uart_write_cases uart offset value with ⟨h0, hdlab, _⟩ | ⟨h1, hdlab, _⟩ | rfl |
    ⟨_, _, _, _, _, he⟩
  · exact absurd h0 (h hdlab).1
  · exact absurd h1 (h hdlab).2
  · unfold uartWrite8
    rw [if_neg (by decide), if_neg (by decide), if_pos rfl]
    dsimp only
    -- FCR may clear the transmitter, which is empty
    repeat' split
    all_goals first
      | exact ⟨rfl, rfl, rfl⟩
      | exact ⟨rfl, htx.symm, rfl⟩
  · rw [he]
    exact ⟨rfl, rfl, rfl⟩

/-- A poll takes the notification with it. -/
theorem poll_takes {uart : Uart} (h : ¬ ReportsData uart) :
    (uartRead8 uart uartIir).1.txCount = uart.txCount ∧
      ¬ Waiting (uartRead8 uart uartIir).1 := by
  unfold uartRead8
  rw [if_neg (by decide), if_neg (by decide), if_pos rfl]
  dsimp only
  rw [ReportsData] at h
  rw [if_neg h]
  split
  · exact ⟨rfl, fun hw => Bool.noConfusion hw.2⟩
  · exact ⟨rfl, ‹_›⟩

/-- A write that notifies leaves the notification waiting if the interrupt is
enabled after it. -/
theorem notify_waits {uart : Uart} {offset : BitVec 64} {value : BitVec 8}
    (htx : uart.txCount = 0) (h : Notifies uart (.write offset value)) :
    (uartWrite8 uart offset value).1.txCount = 0 ∧
      (uartWrite8 uart offset value).1.threPending = true := by
  obtain ⟨hdlab, rfl | ⟨rfl, hoff, hon⟩⟩ := h
  · unfold uartWrite8
    rw [if_pos rfl, if_neg (not_not_intro hdlab)]
    exact ⟨htx, rfl⟩
  · have hold : uart.ier &&& uartIerThrEmpty = 0 := Classical.not_not.mp hoff
    unfold uartWrite8
    rw [if_neg (by decide), if_pos rfl, if_neg (not_not_intro hdlab)]
    dsimp only
    rw [if_neg hon, if_pos ⟨hold, hon, htx⟩]
    exact ⟨htx, rfl⟩

/-- Any other write keeps a notification that waits, unless it turns the
interrupt off, and brings none. -/
theorem write_keeps_waiting {uart : Uart} {offset : BitVec 64} {value : BitVec 8}
    (htx : uart.txCount = 0) (h : ¬ Notifies uart (.write offset value)) :
    (uartWrite8 uart offset value).1.txCount = 0 ∧
      (Waiting (uartWrite8 uart offset value).1 ↔
        Waiting uart ∧ ThreEnabled (uartWrite8 uart offset value).1) := by
  by_cases hier : uart.lcr &&& uartLcrDlab = 0 ∧ offset = 0x01
  · obtain ⟨hdlab, rfl⟩ := hier
    unfold uartWrite8
    rw [if_neg (by decide), if_pos rfl, if_neg (not_not_intro hdlab)]
    dsimp only
    by_cases hon : value &&& uartIerThrEmpty = 0
    · rw [if_pos hon, if_neg fun h => h.2.1 hon]
      exact ⟨htx, iff_of_false (fun hw => hw.1 hon) fun hw => hw.2 hon⟩
    · have hwas : ThreEnabled uart :=
        Classical.not_not.mp fun hoff => h ⟨hdlab, Or.inr ⟨rfl, hoff, hon⟩⟩
      rw [if_neg hon, if_neg fun h => hwas h.1]
      exact ⟨htx, fun hw => ⟨⟨hwas, hw.2⟩, hw.1⟩, fun hw => ⟨hw.2, hw.1.2⟩⟩
  · have hsame : SameTransmitter uart (uartWrite8 uart offset value).1 :=
      write_keeps_transmitter htx fun hdlab =>
        ⟨fun h0 => h ⟨hdlab, Or.inl h0⟩, fun h1 => hier ⟨hdlab, h1⟩⟩
    exact ⟨hsame.count.trans htx, hsame.waiting⟩

theorem access_waiting {t : Terminal} (htx : t.uart.txCount = 0) (access : UartAccess) :
    (t.access access).uart.txCount = 0 ∧
      (Waiting (t.access access).uart ↔
        (Notifies t.uart access ∧ ThreEnabled (t.access access).uart) ∨
        (Waiting t.uart ∧ ThreEnabled (t.access access).uart ∧ ¬ Polls t.uart access)) := by
  cases access with
  | host ready =>
    have hsame := host_keeps_transmitter t ready
    refine ⟨hsame.count.trans htx, hsame.waiting.trans ?_⟩
    simp [Notifies, Polls, Terminal.access]
  | read offset =>
    by_cases hp : Polls t.uart (.read offset)
    · obtain ⟨he, hdata⟩ := hp
      cases he
      obtain ⟨hcount, hwait⟩ := poll_takes hdata
      refine ⟨hcount.trans htx, iff_of_false hwait ?_⟩
      simp [Notifies, Polls, hdata]
    · have hsame := read_keeps_transmitter hp
      refine ⟨hsame.count.trans htx, hsame.waiting.trans ?_⟩
      simp [Notifies, hp, Terminal.access]
  | write offset value =>
    have hp : ¬ Polls t.uart (.write offset value) := fun h => UartAccess.noConfusion h.1
    by_cases hn : Notifies t.uart (.write offset value)
    · obtain ⟨htx', hpend⟩ := notify_waits htx hn
      refine ⟨htx', fun hw => Or.inl ⟨hn, hw.1⟩, fun h => ?_⟩
      rcases h with ⟨_, hon⟩ | ⟨_, hon, _⟩
      · exact ⟨hon, hpend⟩
      · exact ⟨hon, hpend⟩
    · obtain ⟨htx', hwait⟩ := write_keeps_waiting htx hn
      refine ⟨htx', hwait.trans ?_⟩
      simp [hn, hp, Terminal.access]

/-- The terminal after the first `k` accesses. -/
def Terminal.after (t : Terminal) (accesses : Nat → UartAccess) : Nat → Terminal
  | 0 => t
  | k + 1 => (t.after accesses k).access (accesses k)

section
variable (stdin : List (BitVec 8)) (accesses : Nat → UartAccess)

/-- The UART as it is before the `k`th access, from `uart_init` on. -/
def uartAt (k : Nat) : Uart := ((Terminal.start stdin).after accesses k).uart

def NotifiesAt (k : Nat) : Prop := Notifies (uartAt stdin accesses k) (accesses k)

def PollsAt (k : Nat) : Prop := Polls (uartAt stdin accesses k) (accesses k)

theorem tx_count_zero (k : Nat) : (uartAt stdin accesses k).txCount = 0 := by
  induction k with
  | zero => rfl
  | succ k ih => exact (access_waiting ih (accesses k)).1

/-- A notification waits exactly if there has been one, the interrupt has been
enabled since then and no poll has come in between. -/
theorem waiting_iff_since (k : Nat) :
    Waiting (uartAt stdin accesses k) ↔
      Past.Since
        (fun i => NotifiesAt stdin accesses i ∧ ThreEnabled (uartAt stdin accesses (i + 1)))
        (fun i => ThreEnabled (uartAt stdin accesses (i + 1)) ∧ ¬ PollsAt stdin accesses i) k := by
  refine Past.latch (fun i => Waiting (uartAt stdin accesses i)) ?_ fun i _ => ?_
  · exact fun h => Bool.noConfusion h.2
  · exact (access_waiting (tx_count_zero stdin accesses i) (accesses i)).2

/-- However the guest and the host access the UART: after a write to the THR or
one that turns the transmit-empty interrupt on, and while that stays enabled,
the first poll reports the transmitter empty. Every poll after that reports no
interrupt until there is another such write, and with the interrupt disabled the
transmitter is never reported empty. -/
theorem transmit_notifications :
    (∀ j k, j < k → NotifiesAt stdin accesses j →
      (∀ i, j < i → i ≤ k → ThreEnabled (uartAt stdin accesses i)) →
      (∀ i, j < i → i < k → ¬ PollsAt stdin accesses i) → PollsAt stdin accesses k →
      iirCause (uartAt stdin accesses k) = uartIirThrEmpty) ∧
    (∀ j k, j < k → PollsAt stdin accesses j →
      (∀ i, j < i → i < k → ¬ NotifiesAt stdin accesses i) → PollsAt stdin accesses k →
      iirCause (uartAt stdin accesses k) = uartIirNoInterrupt) ∧
    (∀ k, ¬ ThreEnabled (uartAt stdin accesses k) →
      iirCause (uartAt stdin accesses k) ≠ uartIirThrEmpty) := by
  refine ⟨fun j k hjk hset hon hquiet hpoll => ?_, fun j k hjk hread hquiet hpoll => ?_,
    fun k hoff hcause => ?_⟩
  · have hwait : Waiting (uartAt stdin accesses k) := by
      rw [waiting_iff_since]
      refine ⟨j, hjk, ⟨hset, hon (j + 1) (by omega) (by omega)⟩, fun i hji hik => ?_⟩
      exact ⟨hon (i + 1) (by omega) (by omega), hquiet i hji hik⟩
    rcases iir_cause (uartAt stdin accesses k) with ⟨hdata, _⟩ | ⟨_, _, hc⟩ | ⟨_, hno, _⟩
    · exact absurd hdata hpoll.2
    · exact hc
    · exact absurd hwait hno
  · have hwait : ¬ Waiting (uartAt stdin accesses k) := by
      rw [waiting_iff_since]
      rintro ⟨m, hmk, ⟨hset, _⟩, hkept⟩
      rcases Nat.lt_trichotomy m j with hlt | rfl | hgt
      · exact (hkept j hlt hjk).2 hread
      · rw [NotifiesAt, hread.1] at hset
        exact hset
      · exact hquiet m hgt hmk hset
    rcases iir_cause (uartAt stdin accesses k) with ⟨hdata, _⟩ | ⟨_, hyes, _⟩ | ⟨_, _, hc⟩
    · exact absurd hdata hpoll.2
    · exact absurd hyes hwait
    · exact hc
  · rcases iir_cause (uartAt stdin accesses k) with ⟨_, hc⟩ | ⟨_, hyes, _⟩ | ⟨_, _, hc⟩
    · rw [hc] at hcause
      exact absurd hcause (by decide)
    · exact hoff hyes.1
    · rw [hc] at hcause
      exact absurd hcause (by decide)

end

/-- The guest enables both interrupts; a byte comes in before it looks. -/
def typedAhead : Nat → UartAccess
  | 0 => .write 0x01 0x03
  | 1 => .host true
  | 2 => .read uartIir
  | 3 => .read 0x00
  | _ => .read uartIir

theorem transmit_after_receive : iirCause (uartAt [0x41] typedAhead 4) = uartIirThrEmpty := by
  have hon : ∀ i < 5, 0 < i → ThreEnabled (uartAt [0x41] typedAhead i) := by decide
  refine (transmit_notifications [0x41] typedAhead).1 0 4 (by decide) ?_
    (fun i hi hi4 => hon i (by omega) hi) (fun i hi hi4 hp => ?_) ⟨rfl, by decide⟩
  · exact ⟨rfl, Or.inr ⟨rfl, by decide, by decide⟩⟩
  · -- the IIR is read at 2 only, where it reports the byte
    match i with
    | 1 => cases hp.1
    | 2 => exact hp.2 (by decide)
    | 3 => cases hp.1
    | _ + 4 => omega

end RiscvVm.Proofs
