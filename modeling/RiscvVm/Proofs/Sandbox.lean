import RiscvVm.Proofs.Visited
import RiscvVm.Proofs.Ram
import RiscvVm.Proofs.Isolation

namespace RiscvVm.Proofs
open Sv39

/-- All of the `n` bytes from `p` upwards are of this kind. -/
def Span (P : BitVec 64 → Prop) (p : BitVec 64) (n : Nat) : Prop :=
  ∀ x, (x - p).toNat < n → P x

theorem Span.mono {P : BitVec 64 → Prop} {p : BitVec 64} {n k : Nat} (h : Span P p n)
    (hk : k ≤ n) : Span P p k := fun x hx => h x (by omega)

theorem span_in_ram {P : BitVec 64 → Prop} (hP : ∀ x, P x → InRam x 1) {p : BitVec 64} {n : Nat}
    (h : Span P p n) (hn : 0 < n) (h8 : n ≤ 8) : InRam p n := by
  have hsize : memSize.toNat = 67108864 := rfl
  have hbase : memBase.toNat = 2147483648 := rfl
  have hfirst : InRam p 1 := hP p (h p (by simp [hn]))
  have hlast : InRam (p + BitVec.ofNat 64 (n - 1)) 1 := by
    refine hP _ (h _ ?_)
    rw [ByteMap.offset_toNat p (by omega)]
    omega
  unfold InRam at hfirst hlast ⊢
  rw [BitVec.toNat_add, BitVec.toNat_ofNat] at hlast
  omega

/-- What a kernel gives a user process: the bytes its page tables lie in, and
the bytes it may read and those it may write. No table is writable, and all of
it is RAM. -/
structure Zone where
  table : BitVec 64 → Prop
  reads : BitVec 64 → Prop
  writes : BitVec 64 → Prop
  apart : ∀ x, table x → ¬ writes x
  tableRam : ∀ x, table x → InRam x 1
  readsRam : ∀ x, reads x → InRam x 1
  writesRam : ∀ x, writes x → InRam x 1

/-- The CPU is in U under page tables that lie in the zone, and they lead every
access to bytes of the zone. An access reaches up to eight bytes from the one
address that is translated. -/
structure Sandboxed (zone : Zone) (cpu : Cpu) (bus : Bus) : Prop where
  user : cpu.priviledge = uMode
  paged : satpMode cpu = 8
  tables : ∀ va a, Reads cpu bus va a → Span zone.table a 8
  reads : ∀ va acc p, (translateAddress cpu bus va acc).2 = .ok p → Span zone.reads p 8
  writes : ∀ va p, (translateAddress cpu bus va .store).2 = .ok p → Span zone.writes p 8

/-- The bus has changed in the bytes the zone lets be written and in the marks
of its page tables only. -/
structure Spared (zone : Zone) (bus bus' : Bus) : Prop where
  ram : ∀ x, ¬ zone.table x → ¬ zone.writes x → ramBytes bus' x = ramBytes bus x
  tables : ∀ a : BitVec 64, a.toNat % 8 = 0 → Span zone.table a 8 →
    SameEntry (vmBusRead64 bus a) (vmBusRead64 bus' a)
  timer : bus'.timer = bus.timer
  uart : bus'.uart = bus.uart
  transmitted : bus'.transmitted = bus.transmitted

theorem Spared.refl (zone : Zone) (bus : Bus) : Spared zone bus bus :=
  ⟨fun _ _ _ => rfl, fun _ _ _ _ _ _ => rfl, rfl, rfl, rfl⟩

theorem Spared.trans {zone : Zone} {a b c : Bus} (h : Spared zone a b) (g : Spared zone b c) :
    Spared zone a c :=
  ⟨fun x ht hw => (g.ram x ht hw).trans (h.ram x ht hw),
    fun x hx ht i h6 h7 => (h.tables x hx ht i h6 h7).trans (g.tables x hx ht i h6 h7),
    g.timer.trans h.timer, g.uart.trans h.uart, g.transmitted.trans h.transmitted⟩

section
variable {zone : Zone} {cpu : Cpu} {bus bus' : Bus} {va p : BitVec 64} {acc : AccessType}

/-- Marking a leaf in the zone's tables spares everything else. -/
theorem mark_spares {a : BitVec 64} (ha : a.toNat % 8 = 0) (hleaf : Leaf (vmBusRead64 bus a))
    (ht : Span zone.table a 8) (acc : AccessType) : Spared zone bus (markAt bus a acc) := by
  have hram : InRam a 8 := span_in_ram zone.tableRam ht (by omega) (by omega)
  have hwrite := bus_write64_in_ram bus (mark (accessOf acc) (vmBusRead64 bus a)) hram
  refine ⟨fun x hx _ => ?_, fun b hb _ => mark_at_tables ha hleaf acc b hb, ?_, ?_, ?_⟩
  · have hset := (word_set_of_leaf ha hleaf (mark (accessOf acc) (vmBusRead64 bus a))).ram x
    refine hset (Nat.le_of_not_lt fun hlt => hx (ht x hlt))
  all_goals rw [markAt, hwrite]

/-- A store to bytes of the zone spares everything else, its page tables too. -/
theorem store_spares (width : Width) (hp : Span zone.writes p width.bytes) (v : BitVec 64) :
    Spared zone bus (vmBusWrite width bus p v) := by
  have hram : InRam p width.bytes :=
    span_in_ram zone.writesRam hp (Width.bytes_pos width) (Width.bytes_le width)
  have hlt := width_bytes_lt width
  rw [bus_write_in_ram width bus v hram]
  have hoff : ∀ x q : BitVec 64, x - memBase - (q - memBase) = x - q := by
    intro x q
    bv_omega
  refine ⟨fun x _ hx => ?_, fun a ha ht => ?_, rfl, rfl, rfl⟩
  · refine ByteMap.write_outside bus.ram.mem _ v hlt ?_
    rw [hoff]
    exact Nat.le_of_not_lt fun hin => hx (hp x hin)
  · have haram : InRam a 8 := span_in_ram zone.tableRam ht (by omega) (by omega)
    rw [bus_read64_in_ram bus haram, bus_read64_in_ram _ haram]
    rw [ByteMap.read_write_other bus.ram.mem v hlt (by omega) fun x hx => ?_]
    · exact fun _ _ _ => rfl
    · have htab := ht (x + memBase) (by rwa [← hoff, BitVec.add_sub_cancel])
      refine Nat.le_of_not_lt fun hin => zone.apart _ htab (hp _ ?_)
      rwa [← hoff, BitVec.add_sub_cancel]

/-- In U the accesses go by the mode the CPU is in, whatever MPRV is. -/
theorem user_effective (h : cpu.priviledge = uMode) (acc : AccessType) :
    effectivePriviledge cpu acc = uMode := by
  unfold effectivePriviledge
  dsimp only
  rw [h, if_neg fun hm => absurd hm.1 (by decide)]

theorem Sandboxed.same_reads (h : Sandboxed zone cpu bus) (hs : Spared zone bus bus')
    (va : BitVec 64) : SameReads cpu bus bus' va :=
  fun a ha => hs.tables a (reads_aligned ha) (h.tables va a ha)

/-- Translations of a confined process leave alone what is not its own. -/
theorem Sandboxed.translate (h : Sandboxed zone cpu bus) (va : BitVec 64) (acc : AccessType) :
    Spared zone bus (translateAddress cpu bus va acc).1 := by
  have hrefl : SameReads cpu bus bus va := fun _ _ _ _ _ => rfl
  rcases translate_visited hrefl acc with ⟨r, hr, _⟩ | ⟨p, a, ha, hl, hr, _⟩
  · rw [hr]
    exact .refl zone bus
  · rw [hr]
    exact mark_spares (reads_aligned ha) hl (h.tables va a ha) acc

/-- What a translation looks at in the CPU, for a process in U. -/
structure SameView (cpu cpu' : Cpu) : Prop where
  priviledge : cpu'.priviledge = cpu.priviledge
  satp : cpu'.csrs csrSatp = cpu.csrs csrSatp
  mstatus : cpu'.csrs csrMstatus = cpu.csrs csrMstatus

/-- Two translations by the same view and the same entries. -/
theorem same_result (hs : SameReads cpu bus bus' va) {cpu' : Cpu} (hv : SameView cpu cpu')
    (acc : AccessType) :
    (translateAddress cpu' bus' va acc).2 = (translateAddress cpu bus va acc).2 := by
  rw [translate_congr cpu cpu' hv.mstatus hv.satp hv.priviledge]
  exact translate_result_visited hs acc

/-- A process stays confined as long as its view and the entries it reads are the same. -/
theorem Sandboxed.same (h : Sandboxed zone cpu bus) (hs : ∀ va, SameReads cpu bus bus' va)
    {cpu' : Cpu} (hv : SameView cpu cpu') : Sandboxed zone cpu' bus' := by
  have hsatp : satpMode cpu' = satpMode cpu := by
    unfold satpMode
    rw [hv.satp]
  have hroot : rootOf cpu' = rootOf cpu := by
    unfold rootOf
    rw [hv.satp]
  refine ⟨hv.priviledge.trans h.user, hsatp.trans h.paged, fun va a ha => ?_,
    fun va acc p hp => ?_, fun va p hp => ?_⟩
  · refine h.tables va a (((hs va).iff a).mp ?_)
    rw [Reads, hroot] at ha
    exact ha
  · rw [same_result (hs va) hv] at hp
    exact h.reads va acc p hp
  · rw [same_result (hs va) hv] at hp
    exact h.writes va p hp

theorem Sandboxed.spared (h : Sandboxed zone cpu bus) (hs : Spared zone bus bus') {cpu' : Cpu}
    (hv : SameView cpu cpu') : Sandboxed zone cpu' bus' := h.same (h.same_reads hs) hv

/-- A load of a confined process does not touch a device: it changes nothing. -/
theorem Sandboxed.read (h : Sandboxed zone cpu bus)
    (ht : translateAddress cpu bus va acc = (bus', .ok p)) (width : Width) :
    (vmBusRead width bus' p).1 = bus' := by
  have hspan := (h.reads va acc p (congrArg Prod.snd ht)).mono (Width.bytes_le width)
  have hram : InRam p width.bytes :=
    span_in_ram zone.readsRam hspan (Width.bytes_pos width) (Width.bytes_le width)
  rw [bus_read_in_ram width bus' hram]

theorem Sandboxed.write (h : Sandboxed zone cpu bus)
    (ht : translateAddress cpu bus va .store = (bus', .ok p)) (width : Width) (v : BitVec 64) :
    Spared zone bus (vmBusWrite width bus' p v) := by
  have hspan := (h.writes va p (congrArg Prod.snd ht)).mono (Width.bytes_le width)
  have hwalk := h.translate va .store
  rw [ht] at hwalk
  exact hwalk.trans (store_spares width hspan v)

/-- Whatever word a confined process executes. -/
theorem Sandboxed.executes {vm done : Vm} {word : BitVec 32} (h : Sandboxed zone vm.cpu vm.bus)
    (hx : Executes vm word done) : Spared zone vm.bus done.bus := by
  have hwalk : ∀ {va acc bus' p}, translateAddress vm.cpu vm.bus va acc = (bus', .ok p) →
      Spared zone vm.bus bus' := by
    intro va acc bus' p ht
    have hs := h.translate va acc
    rwa [ht] at hs
  cases hx with
  | nop => exact .refl zone _
  | write value => exact .refl zone _
  | branch target => exact .refl zone _
  | link target value => exact .refl zone _
  | trap hfault => exact .refl zone _
  | load width va p bus extend hacc ht =>
    dsimp only
    rw [h.read ht width]
    exact hwalk ht
  | store width va p value bus hacc ht => exact h.write ht width value
  | amo width va p new old bus hwidth hacc ht => exact h.write ht width new
  | lr width va p value bus hlr hwidth hacc ht => exact hwalk ht
  | sc width va p value bus hsc hwidth hacc ht hres => exact h.write ht width value
  | scFailed width va p bus hsc hwidth hacc ht hres => exact hwalk ht
  | csr addr new old cpu hreq hw => exact .refl zone _
  | sret hword hpriv => exact absurd h.user hpriv
  | mret hword hpriv =>
    rw [h.user] at hpriv
    exact absurd hpriv (by decide)

end

end RiscvVm.Proofs
