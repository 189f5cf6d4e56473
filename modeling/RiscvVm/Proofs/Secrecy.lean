import RiscvVm.Proofs.Lockstep
import RiscvVm.Proofs.UserRuns

namespace RiscvVm.Proofs
open Sv39

/-- Two buses that a process of the zone cannot tell apart: they agree on its
tables, on the bytes it reads and on the clock. -/
structure AlikeBus (zone : Zone) (bus bus' : Bus) : Prop where
  timer : bus'.timer = bus.timer
  bytes : ∀ x, zone.table x ∨ zone.reads x → ramBytes bus' x = ramBytes bus x

/-- Two machines that the process cannot tell apart. -/
abbrev Alike (zone : Zone) : Vm → Vm → Prop := Paired (AlikeBus zone)

section
variable {zone : Zone} {cpu : Cpu} {bus bus' : Bus} {p : BitVec 64}

/-- Words of bytes on which two memories agree. -/
theorem read_agree {w n : Nat} (hb : ∀ x, (x - p).toNat < n → ramBytes bus' x = ramBytes bus x)
    (hn : n ≤ 2 ^ 64) :
    ByteMap.read w bus'.ram.mem (p - memBase) n = ByteMap.read w bus.ram.mem (p - memBase) n := by
  refine ByteMap.read_congr fun i hi => ?_
  have hx := hb (p + BitVec.ofNat 64 i) (by rwa [ByteMap.offset_toNat p (by omega)])
  rwa [ramBytes, ramBytes, ByteMap.add_sub_right_comm] at hx

theorem AlikeBus.word (h : AlikeBus zone bus bus') {a : BitVec 64} (ha : Span zone.table a 8) :
    vmBusRead64 bus' a = vmBusRead64 bus a := by
  have hram : InRam a 8 := span_in_ram zone.tableRam ha (by omega) (by omega)
  rw [bus_read64_in_ram bus' hram, bus_read64_in_ram bus hram]
  exact read_agree (fun x hx => h.bytes x (Or.inl (ha x hx))) (by omega)

theorem AlikeBus.read (h : AlikeBus zone bus bus') (hp : Span zone.reads p 8) (width : Width) :
    ∃ value, vmBusRead width bus p = (bus, value) ∧ vmBusRead width bus' p = (bus', value) := by
  have hspan := hp.mono (Width.bytes_le width)
  have hram : InRam p width.bytes :=
    span_in_ram zone.readsRam hspan (Width.bytes_pos width) (Width.bytes_le width)
  refine ⟨_, bus_read_in_ram width bus hram, ?_⟩
  rw [bus_read_in_ram width bus' hram,
    read_agree (fun x hx => h.bytes x (Or.inr (hspan x hx))) (width_bytes_lt width)]

theorem AlikeBus.write (h : AlikeBus zone bus bus') {width : Width} (hp : InRam p width.bytes)
    (v : BitVec 64) : AlikeBus zone (vmBusWrite width bus p v) (vmBusWrite width bus' p v) := by
  rw [bus_write_in_ram width bus v hp, bus_write_in_ram width bus' v hp]
  refine ⟨h.timer, fun x hx => ?_⟩
  have hsame := h.bytes x hx
  unfold ramBytes at hsame ⊢
  dsimp only
  rw [ByteMap.write_apply _ _ _ _ (width_bytes_lt width),
    ByteMap.write_apply _ _ _ _ (width_bytes_lt width), hsame]

/-- The two translations of an address: the same fault or the same place. -/
theorem AlikeBus.translate (hc : Sandboxed zone cpu bus) (h : AlikeBus zone bus bus')
    (va : BitVec 64) (acc : AccessType) :
    (∃ e, translateAddress cpu bus va acc = (bus, .error e) ∧
      translateAddress cpu bus' va acc = (bus', .error e)) ∨
    (∃ b b' p, translateAddress cpu bus va acc = (b, .ok p) ∧
      translateAddress cpu bus' va acc = (b', .ok p) ∧ AlikeBus zone b b') := by
  have hsame : SameReads cpu bus bus' va := by
    intro a ha
    rw [h.word (hc.tables va a ha)]
    exact fun _ _ _ => rfl
  rcases translate_visited hsame acc with ⟨r, hr, hr'⟩ | ⟨p, a, ha, _, hr, hr'⟩
  · cases r with
    | error e => exact Or.inl ⟨e, hr, hr'⟩
    | ok p => exact Or.inr ⟨bus, bus', p, hr, hr', h⟩
  · refine Or.inr ⟨_, _, p, hr, hr', ?_⟩
    have hspan := hc.tables va a ha
    have hram : InRam a 8 := span_in_ram zone.tableRam hspan (by omega) (by omega)
    rw [markAt, markAt, h.word hspan]
    have hwrite := @AlikeBus.write zone bus bus' a h .w64 hram
      (mark (accessOf acc) (vmBusRead64 bus a))
    exact hwrite

end

/-- What a process stores lands in RAM. -/
theorem Sandboxed.store_in_ram {zone : Zone} {cpu : Cpu} {bus b : Bus} {va p : BitVec 64}
    (h : Sandboxed zone cpu bus) (ht : translateAddress cpu bus va .store = (b, .ok p))
    (width : Width) : InRam p width.bytes :=
  span_in_ram zone.writesRam
    ((h.writes va p (congrArg Prod.snd ht)).mono (Width.bytes_le width))
    (Width.bytes_pos width) (Width.bytes_le width)

/-- A process is in lockstep on two buses that it cannot tell apart. -/
theorem AlikeBus.lockstep {zone : Zone} {cpu : Cpu} {bus bus' : Bus} (hc : Sandboxed zone cpu bus)
    (h : AlikeBus zone bus bus') : Lockstep (AlikeBus zone) cpu bus bus' where
  related := h
  timer := h.timer
  translate := h.translate hc
  read := by
    intro va acc b b' p width ht hb _
    obtain ⟨value, hv, hv'⟩ := hb.read (hc.reads va acc p (congrArg Prod.snd ht)) width
    rw [hv, hv']
  write := by
    intro va b b' p ht hb width v
    exact hb.write (hc.store_in_ram ht width) v

/-- Its loads reach nothing but RAM. -/
theorem Sandboxed.same_load {zone : Zone} {cpu : Cpu} {bus : Bus} (hc : Sandboxed zone cpu bus)
    (width : Width) (va : BitVec 64) : SameLoad (AlikeBus zone) cpu bus width va := by
  intro b b' p ht hb
  obtain ⟨value, hv, hv'⟩ := hb.read (hc.reads va .load p (congrArg Prod.snd ht)) width
  rw [hv, hv']
  exact ⟨rfl, hb⟩

section
variable {zone : Zone} {vm vm' : Vm}

/-- A step of two machines that the process cannot tell apart. -/
theorem Alike.step (h : Alike zone vm vm') (hc : Sandboxed zone vm.cpu vm.bus) :
    Alike zone (cpuStep vm) (cpuStep vm') := by
  have hbegin : Sandboxed zone (beginStep vm.cpu) vm.bus :=
    hc.spared (.refl zone vm.bus) ⟨rfl, rfl, rfl⟩
  refine Paired.step h (h.bus.lockstep hbegin) fun ht hb => ?_
  have hwalk := hbegin.translate vm.cpu.pc .fetch
  rw [ht] at hwalk
  have hready := hbegin.spared hwalk ⟨rfl, rfl, rfl⟩
  exact ⟨hb.lockstep hready, fun _ => hready.same_load _ _⟩

/-- The clock is the same for both, and what the host types stays in the UART. -/
theorem Alike.clock (h : Alike zone vm vm') (host host' : HostTurn) :
    Alike zone (clockTurn vm host) (clockTurn vm' host') := by
  obtain ⟨hram, htimer, _⟩ := clock_turn_bus vm host
  obtain ⟨hram', htimer', _⟩ := clock_turn_bus vm' host'
  refine ⟨?_, ?_, fun x hx => ?_⟩
  · unfold clockTurn
    rw [host_cpu, host_cpu]
    unfold vmTick
    dsimp only
    rw [h.cpu, h.bus.timer]
  · rw [htimer, htimer', h.bus.timer]
  · have hsame := h.bus.bytes x hx
    unfold ramBytes at hsame ⊢
    rw [hram, hram', hsame]

/-- A process sees nothing but its zone. Of two machines with the same CPU and
clock that agree on the process's page tables and on the bytes it may read,
whatever else is in their memory and devices and whatever their hosts type, the
CPUs are the same after every run of it, the step that leaves U included, and
they still agree on those bytes. -/
theorem user_secrecy (hc : Sandboxed zone vm.cpu vm.bus) (h : Alike zone vm vm')
    {hosts hosts' : List HostTurn} (hlen : hosts.length = hosts'.length)
    (hrun : UserRun vm hosts) :
    Alike zone (hosts.foldl mainLoop vm) (hosts'.foldl mainLoop vm') := by
  have hin : List.Forall₂ (fun _ _ => True) hosts hosts' :=
    List.forall₂_iff_get.mpr ⟨hlen, fun _ _ _ => trivial⟩
  have hboth : Alike zone (hosts.foldl mainLoop vm) (hosts'.foldl mainLoop vm') ∧
      ((hosts.foldl mainLoop vm).cpu.priviledge = uMode →
        Sandboxed zone (hosts.foldl mainLoop vm).cpu (hosts.foldl mainLoop vm).bus) := by
    refine hrun.related (R := fun s t => Alike zone s t ∧
      (s.cpu.priviledge = uMode → Sandboxed zone s.cpu s.bus)) (fun s t a b hs _ hu => ?_) hin
        ⟨h, fun _ => hc⟩
    have hs' := hs.2 hu
    exact ⟨(hs.1.step hs').clock a b, fun he => (hs'.iterate a he).1⟩
  exact hboth.1

end

/-- The process beside other contents of the kernel's memory. -/
def processBeside (secret : BitVec 64) : Vm :=
  { process with bus := vmBusWrite64 processBus 0x80000000 secret }

theorem process_alike (secret : BitVec 64) : Alike processZone process (processBeside secret) := by
  have hram : InRam 0x80000000 8 := by decide
  refine ⟨rfl, ?_, fun x hx => ?_⟩
  · rw [processBeside, bus_write64_in_ram _ _ hram]
    rfl
  · have hbase : memBase = 0x80000000 := rfl
    unfold ramBytes processBeside
    dsimp only
    rw [bus_write64_in_ram _ _ hram]
    refine ByteMap.write_outside _ _ _ (by omega) ?_
    simp only [processZone] at hx
    rw [hbase]
    bv_omega

/-- Two iterations of the process, beside a secret and with a key pressed. -/
theorem process_secrecy : Alike processZone ([.quiet, .quiet].foldl mainLoop process)
    ([.quiet, .poll (some 0x41)].foldl mainLoop (processBeside 0x5EC2E7)) :=
  user_secrecy process_sandboxed (process_alike 0x5EC2E7) rfl ⟨rfl, by decide +kernel, trivial⟩

end RiscvVm.Proofs
