import RiscvVm.Proofs.Console

namespace RiscvVm.Proofs

/-- The bus with other memory behind the array of its RAM. -/
def busBeyond (junk : Memory) (bus : Bus) : Bus := { bus with ram := ramLike bus.ram junk }

/-- The machine with other memory behind the array of its RAM. -/
def beyond (junk : Memory) (vm : Vm) : Vm := { vm with bus := busBeyond junk vm.bus }

section
variable {junk ram : Memory} {p : BitVec 64} {n : Nat}

/-- The bytes of an access to RAM are in the array. -/
theorem in_ram_index (h : InRam p n) {idx : BitVec 64} (hidx : (idx - (p - memBase)).toNat < n) :
    idx < ramSize := by
  have hb : memBase.toNat = 2147483648 := rfl
  have hms : memSize.toNat = 67108864 := rfl
  have hs : ramSize.toNat = 67108864 := rfl
  have hi := idx.isLt
  unfold InRam at h
  rw [BitVec.toNat_sub, BitVec.toNat_sub] at hidx
  rw [BitVec.lt_def]
  omega

theorem mem_read_beyond {w : Nat} (hn : 0 < n) (h8 : n ≤ 8) :
    memReadN w n (ramLike ram junk) p = memReadN w n ram p := by
  unfold memReadN
  split
  · rename_i hvalid
    have hin := (valid_access_iff p hn h8).mp hvalid
    refine ByteMap.read_congr fun k hk => if_pos (in_ram_index hin ?_)
    rw [addressToIndex, ByteMap.offset_toNat _ (by omega)]
    exact hk
  · rfl

theorem mem_write_beyond {w : Nat} (hn : 0 < n) (h8 : n ≤ 8) (v : BitVec w) :
    memWriteN n (ramLike ram junk) p v = ramLike (memWriteN n ram p v) junk := by
  unfold memWriteN
  split
  · rename_i hvalid
    have hin := (valid_access_iff p hn h8).mp hvalid
    have hbig : n ≤ 2 ^ 64 := by omega
    refine congrArg Memory.mk (funext fun idx => ?_)
    dsimp only [ramLike]
    rw [ByteMap.write_apply _ _ _ _ hbig, ByteMap.write_apply _ _ _ _ hbig]
    by_cases hat : (idx - addressToIndex p).toNat < n
    · rw [if_pos hat, if_pos hat, if_pos (in_ram_index hin hat)]
    · rw [if_neg hat, if_neg hat]
  · rfl

end

section
variable (junk : Memory) (bus : Bus)

theorem read_beyond (width : Width) (p : BitVec 64) :
    vmBusRead width (busBeyond junk bus) p =
      (busBeyond junk (vmBusRead width bus p).1, (vmBusRead width bus p).2) := by
  cases width with
  | w8 =>
    simp only [vmBusRead, vmBusRead8, busBeyond, memRead8]
    rw [mem_read_beyond (by decide) (by decide)]
    repeat' split
    all_goals rfl
  | w16 =>
    simp only [vmBusRead, vmBusRead16, busBeyond, memRead16]
    rw [mem_read_beyond (by decide) (by decide)]
  | w32 =>
    simp only [vmBusRead, vmBusRead32, busBeyond, memRead32]
    rw [mem_read_beyond (by decide) (by decide)]
  | w64 =>
    simp only [vmBusRead, vmBusRead64, busBeyond, memRead64]
    rw [mem_read_beyond (by decide) (by decide)]

theorem write_beyond (width : Width) (p v : BitVec 64) :
    vmBusWrite width (busBeyond junk bus) p v = busBeyond junk (vmBusWrite width bus p v) := by
  cases width with
  | w8 =>
    simp only [vmBusWrite, vmBusWrite8, busBeyond, memWrite8]
    rw [mem_write_beyond (by decide) (by decide)]
    repeat' split
    all_goals rfl
  | w16 =>
    simp only [vmBusWrite, vmBusWrite16, busBeyond, memWrite16]
    rw [mem_write_beyond (by decide) (by decide)]
    repeat' split
    all_goals rfl
  | w32 =>
    simp only [vmBusWrite, vmBusWrite32, busBeyond, memWrite32]
    rw [mem_write_beyond (by decide) (by decide)]
    repeat' split
    all_goals rfl
  | w64 =>
    simp only [vmBusWrite, vmBusWrite64, busBeyond, memWrite64]
    rw [mem_write_beyond (by decide) (by decide)]
    repeat' split
    all_goals rfl

theorem beyond_lockstep (cpu : Cpu) :
    Lockstep (fun b b' => b' = busBeyond junk b) cpu bus (busBeyond junk bus) := by
  refine lockstep_of_accesses rfl rfl (fun {b b'} hb width _ p => ?_) fun {b b'} hb width p v => ?_
  · rw [hb, read_beyond]
  · rw [hb, write_beyond]

theorem step_beyond (vm : Vm) : cpuStep (beyond junk vm) = beyond junk (cpuStep vm) := by
  have hstart : Paired (fun b b' => b' = busBeyond junk b) vm (beyond junk vm) := ⟨rfl, rfl⟩
  obtain ⟨hcpu, hbus⟩ := hstart.step (beyond_lockstep junk _ _) fun {b b' p} _ hb => by
    subst hb
    refine ⟨beyond_lockstep junk _ _, fun _ b b' q _ hb => ?_⟩
    rw [hb, read_beyond]
    exact ⟨rfl, rfl⟩
  have hmk : Vm.mk (cpuStep (beyond junk vm)).cpu (cpuStep (beyond junk vm)).bus =
      Vm.mk (cpuStep vm).cpu (busBeyond junk (cpuStep vm).bus) := congr (congrArg Vm.mk hcpu) hbus
  exact hmk

theorem run_beyond (vm : Vm) (hosts : List HostTurn) :
    hosts.foldl mainLoop (beyond junk vm) = beyond junk (hosts.foldl mainLoop vm) := by
  induction hosts generalizing vm with
  | nil => rfl
  | cons host hosts ih =>
    have hturn : mainLoop (beyond junk vm) host = beyond junk (mainLoop vm host) := by
      rw [main_loop_eq, main_loop_eq, step_beyond]
      cases host <;> rfl
    rw [List.foldl_cons, List.foldl_cons, hturn]
    exact ih _

end

section
variable {vm : Vm}

theorem host_indexed {uart : Uart} (h : Indexed uart) (input : Option (BitVec 8)) :
    Indexed (uartHandleHostInput uart input) := by
  by_cases hfull : uart.rxCount = uartFifoSize
  · unfold uartHandleHostInput
    rw [if_pos hfull]
    exact h
  · cases input with
    | none =>
      unfold uartHandleHostInput
      rw [if_neg hfull]
      exact h
    | some byte => exact (host_input_pushes h hfull byte).2

theorem turn_indexed (h : Indexed vm.bus.uart) (host : HostTurn) :
    Indexed (mainLoop vm host).bus.uart := by
  have hserves := congrArg Terminal.uart ((@step_serves vm).uart [])
  dsimp only at hserves
  have hstep : Indexed (cpuStep vm).bus.uart := by
    rw [hserves]
    exact (@run_refines { uart := vm.bus.uart, stdin := [] } h _).1
  cases host with
  | quiet => exact hstep
  | poll input => exact host_indexed hstep input

/-- Nothing that the guest does comes out of the arrays of the VM. A run of any
program from any state neither writes to what is behind the array of the RAM nor
depends on it, and the indices of the receiver stay in its FIFO. -/
theorem arrays_bounded (vm : Vm) (hosts : List HostTurn) :
    (∀ junk, hosts.foldl mainLoop (beyond junk vm) = beyond junk (hosts.foldl mainLoop vm)) ∧
    (∀ idx, ¬ idx < ramSize →
      (hosts.foldl mainLoop vm).bus.ram.mem idx = vm.bus.ram.mem idx) ∧
    (Indexed vm.bus.uart → Indexed (hosts.foldl mainLoop vm).bus.uart) := by
  refine ⟨fun junk => run_beyond junk vm hosts, fun idx hidx => ?_, fun h => ?_⟩
  · have hown : beyond vm.bus.ram vm = vm := by
      have hram : ramLike vm.bus.ram vm.bus.ram = vm.bus.ram :=
        congrArg Memory.mk (funext fun idx => ite_self _)
      rw [beyond, busBeyond, hram]
    have hrun := run_beyond vm.bus.ram vm hosts
    rw [hown] at hrun
    have hbyte := congrArg (fun vm : Vm => vm.bus.ram.mem idx) hrun
    exact hbyte.trans (if_neg hidx)
  · induction hosts generalizing vm with
    | nil => exact h
    | cons host hosts ih => exact ih _ (turn_indexed h host)

end

end RiscvVm.Proofs
