import RiscvVm.Proofs.Precise
import RiscvVm.Proofs.Programs

namespace RiscvVm.Proofs
open Rv64i Rv64im Sv39

/-- Where the page tables put the byte at an address, if any access to it is
translated. -/
def pageMap (vm : Vm) (va : BitVec 64) : BitVec 64 :=
  let found := [AccessType.load, .store, .fetch].findSome? fun acc =>
    (translateAddress vm.cpu vm.bus va acc).2.toOption
  found.getD va

section
variable {zone : Zone} {cpu : Cpu} {bus : Bus} {va p q : BitVec 64} {acc acc' : AccessType}

/-- All accesses to an address that are translated go to one place. -/
theorem Sandboxed.one_place (h : Sandboxed zone cpu bus)
    (hp : (translateAddress cpu bus va acc).2 = .ok p)
    (hq : (translateAddress cpu bus va acc').2 = .ok q) : p = q := by
  have hwalk : ∀ {acc p}, (translateAddress cpu bus va acc).2 = .ok p → ∃ level a,
      Walk (vmBusRead64 bus) va 2 (pageAddr (rootOf cpu)) level a ∧
        p = physical (vmBusRead64 bus a) va level := by
    intro acc p hp
    rcases translate_cases cpu bus va acc with ⟨hbare, _⟩ | ⟨_, _, _, he⟩ | ⟨_, _, _, he⟩
    · rw [h.paged, user_effective h.user] at hbare
      exact absurd hbare (by decide)
    · rw [he] at hp
      obtain ⟨level, a, hw, _, _, hphys, _⟩ :=
        (sv39_loop_ok cpu bus va acc _ (Nat.le_refl 2) _ _ p).mp (Prod.ext rfl hp)
      exact ⟨level, a, hw, hphys⟩
    · rw [he] at hp
      cases hp
  obtain ⟨level, a, hw, rfl⟩ := hwalk hp
  obtain ⟨level', a', hw', rfl⟩ := hwalk hq
  obtain ⟨rfl, rfl⟩ := hw.unique hw'
  rfl

/-- A walk changes no memory but the tables. -/
theorem Sandboxed.walk_ram (h : Sandboxed zone cpu bus) (va : BitVec 64) (acc : AccessType)
    {x : BitVec 64} (hx : ¬ zone.table x) :
    ramBytes (translateAddress cpu bus va acc).1 x = ramBytes bus x := by
  have hrefl : SameReads cpu bus bus va := fun _ _ _ _ _ => rfl
  rcases translate_visited hrefl acc with ⟨r, hr, _⟩ | ⟨p, a, ha, hl, hr, _⟩
  · rw [hr]
  · rw [hr]
    have hset := word_set_of_leaf (reads_aligned ha) hl (mark (accessOf acc) (vmBusRead64 bus a))
    exact hset.ram x (Nat.le_of_not_lt fun hlt => hx (h.tables va a ha x hlt))

end

theorem Sandboxed.page_map {zone : Zone} {vm : Vm} (h : Sandboxed zone vm.cpu vm.bus)
    {va p : BitVec 64} {acc : AccessType}
    (hp : (translateAddress vm.cpu vm.bus va acc).2 = .ok p) : pageMap vm va = p := by
  have hfound : ∀ acc, acc ∈ [AccessType.load, .store, .fetch] := by
    intro acc
    cases acc <;> simp
  unfold pageMap
  dsimp only
  cases hsome : [AccessType.load, .store, .fetch].findSome? fun acc =>
      (translateAddress vm.cpu vm.bus va acc).2.toOption with
  | none =>
    have hnone := List.findSome?_eq_none_iff.mp hsome acc (hfound acc)
    rw [hp] at hnone
    cases hnone
  | some q =>
    obtain ⟨acc', _, hq⟩ := List.exists_of_findSome?_eq_some hsome
    refine @Sandboxed.one_place zone vm.cpu vm.bus va q p acc' acc h ?_ hp
    cases hr : (translateAddress vm.cpu vm.bus va acc').2 with
    | error e =>
      rw [hr] at hq
      cases hq
    | ok p' =>
      rw [hr] at hq
      cases hq
      rfl

/-- A step that stays in U has raised no exception. -/
theorem user_untrapped {vm : Vm} (hu : vm.cpu.priviledge = uMode)
    (he : (cpuStep vm).cpu.priviledge = uMode) : (processed vm).cpu.trapTaken = false := by
  obtain ⟨_, hproc, _, _⟩ := user_stays hu he
  cases htaken : (processed vm).cpu.trapTaken with
  | false => rfl
  | true =>
    obtain ⟨_, hentry⟩ | ⟨_, hentry⟩ := exception_entry htaken
    · rw [hentry, trap_to_s_priviledge] at hproc
      exact absurd hproc (by decide)
    · rw [hentry, trap_to_m_priviledge] at hproc
      exact absurd hproc (by decide)

/-- A step without an exception has fetched. -/
theorem untrapped_fetches {vm : Vm} (h : (processed vm).cpu.trapTaken = false) :
    ∃ bus p, translateAddress vm.cpu vm.bus vm.cpu.pc .fetch = (bus, .ok p) ∧
      (dispatchInstruction (fetched vm bus) (vmBusRead32 bus p)).cpu.trapTaken = false ∧
      processed vm = retire (dispatchInstruction (fetched vm bus) (vmBusRead32 bus p)) ∧
      cpuStep vm = finish (processed vm) := by
  obtain ⟨ht, _⟩ | ⟨bus, p, ht, _⟩ := fetch_cases vm
  · have hfault : fetchedWord vm = none := by
      unfold fetchedWord
      rw [ht]
    rw [(step_of_fault hfault).2, raise_exception_cpu, raise_exception_taken] at h
    cases h
  · obtain ⟨hp, hs⟩ := step_of_fetch ht
    rw [hp, retire_taken] at h
    exact ⟨bus, p, ht, h, hp, hs⟩

section
variable {vm : Vm} {bus : Bus} {e : BitVec 64}

theorem load_op_traps {instruction : IType} (width : Width) (extend : BitVec 64 → BitVec 64)
    (ht : translateAddress vm.cpu vm.bus
      (instruction.imm + cpuReadReg vm.cpu instruction.rs1) .load = (bus, .error e)) :
    (loadOp width extend vm instruction).cpu.trapTaken = true := by
  unfold loadOp cpuLoad
  dsimp only
  rw [ht]
  exact raise_exception_taken _ _ _

theorem store_op_traps {instruction : SType} (width : Width)
    (ht : translateAddress vm.cpu vm.bus
      (cpuReadReg vm.cpu instruction.rs1 + instruction.imm) .store = (bus, .error e)) :
    (storeOp width vm instruction).cpu.trapTaken = true := by
  unfold storeOp cpuStore
  dsimp only
  rw [ht]
  exact raise_exception_taken _ _ _

theorem load_traps (op : LoadOp) (rd rs1 : BitVec 5) (imm : BitVec 12)
    (ht : translateAddress vm.cpu vm.bus (cpuReadReg vm.cpu rs1 + wrap imm.toInt) .load =
      (bus, .error e)) :
    (dispatchInstruction vm (Rv64i.encode (.load op rd rs1 imm))).cpu.trapTaken = true := by
  have hop : Opcode.ofRaw 0b0000011 = some .load := rfl
  rw [BitVec.add_comm, wrap_imm] at ht
  unfold Rv64i.encode
  rw [dispatch_word, opcode_i, hop]
  simp only [decode_i]
  cases op <;> exact load_op_traps _ _ ht

theorem store_traps (op : StoreOp) (rs1 rs2 : BitVec 5) (imm : BitVec 12)
    (ht : translateAddress vm.cpu vm.bus (cpuReadReg vm.cpu rs1 + wrap imm.toInt) .store =
      (bus, .error e)) :
    (dispatchInstruction vm (Rv64i.encode (.store op rs1 rs2 imm))).cpu.trapTaken = true := by
  have hop : Opcode.ofRaw 0b0100011 = some .store := rfl
  rw [wrap_imm] at ht
  unfold Rv64i.encode
  rw [dispatch_word, opcode_s, hop]
  simp only [decode_s]
  cases op <;> exact store_op_traps _ ht

end

/-- An instruction that has not trapped has had its access translated. -/
theorem access_translated {vm : Vm} (h : vm.cpu.regs 0 = 0) {i : Rv64im.Instr}
    (hno : (dispatchInstruction vm i.encode).cpu.trapTaken = false) {a : Rv64i.Access}
    (ha : i.access (stateOf vm h) = some a) :
    ∃ p, (translateAddress vm.cpu vm.bus a.addr (kindOf a)).2 = .ok p := by
  have htraps : ∀ e, (translateAddress vm.cpu vm.bus a.addr (kindOf a)).2 = .error e →
      (dispatchInstruction vm i.encode).cpu.trapTaken = true := by
    intro e he
    cases i with
    | word => cases ha
    | mul => cases ha
    | base i =>
      cases i with
      | load op rd rs1 imm =>
        cases ha
        refine load_traps (e := e) op rd rs1 imm (Prod.ext rfl ?_)
        rw [read_reg_eq h]
        exact he
      | store op rs1 rs2 imm =>
        cases ha
        refine store_traps (e := e) op rs1 rs2 imm (Prod.ext rfl ?_)
        rw [read_reg_eq h]
        exact he
      | _ => cases ha
  cases hr : (translateAddress vm.cpu vm.bus a.addr (kindOf a)).2 with
  | ok p => exact ⟨p, rfl⟩
  | error e =>
    rw [htraps e hr] at hno
    cases hno

theorem access_bytes {s : State} {i : Rv64im.Instr} {a : Rv64i.Access}
    (ha : i.access s = some a) : 0 < a.bytes ∧ a.bytes ≤ 8 := by
  cases i with
  | word => cases ha
  | mul => cases ha
  | base i =>
    cases i with
    | load op =>
      cases ha
      have hbytes := load_bytes_cases op
      dsimp only
      omega
    | store op =>
      cases ha
      have hbytes := store_bytes_cases op
      dsimp only
      omega
    | _ => cases ha

/-- Bytes that a process does not see, its page tables among them. -/
structure Hides (zone : Zone) (hidden : BitVec 64 → Prop) : Prop where
  tables : ∀ x, zone.table x → hidden x
  unread : ∀ x, hidden x → ¬ zone.reads x

/-- Whatever access the machine translates goes where the map puts it. -/
def Placed (place : BitVec 64 → BitVec 64) (vm : Vm) : Prop :=
  ∀ va acc p, Reaches vm va acc p → place va = p

section
variable {zone : Zone} {vm : Vm} {place : BitVec 64 → BitVec 64} {hidden : BitVec 64 → Prop}
  {s : State} {i : Rv64im.Instr}

theorem reaches_same {vm' : Vm} {va p : BitVec 64} {acc : AccessType}
    (hs : SameReads vm.cpu vm.bus vm'.bus va) (hv : SameView vm.cpu vm'.cpu) :
    Reaches vm' va acc p ↔ Reaches vm va acc p := by
  unfold Reaches
  rw [same_result hs hv]

/-- Pages stay where they are as long as the view and the entries are the same. -/
theorem Placed.same (h : Placed place vm) {vm' : Vm}
    (hs : ∀ va, SameReads vm.cpu vm.bus vm'.bus va) (hv : SameView vm.cpu vm'.cpu) :
    Placed place vm' := fun va acc p hp => h va acc p ((reaches_same (hs va) hv).mp hp)

/-- Where the bytes of an access that stays in its page lie. -/
theorem Placed.bytes (h : Placed place vm) {va p : BitVec 64} {acc : AccessType}
    (hp : Reaches vm va acc p) {n : Nat} (hn : n ≤ 8) (hcross : ¬ CrossesPage va n) :
    ∀ k < n, place (va + BitVec.ofNat 64 k) = p + BitVec.ofNat 64 k :=
  fun k hk => h _ _ _ ((bytes_reach_iff hp hn).mpr (fun hc => absurd hc hcross) k hk)

theorem Sandboxed.reaches_ram (h : Sandboxed zone vm.cpu vm.bus) {va p : BitVec 64}
    {acc : AccessType} (hp : Reaches vm va acc p) {n : Nat} (hn : 0 < n) (h8 : n ≤ 8) : InRam p n :=
  span_in_ram zone.readsRam ((h.reads va acc p hp).mono h8) hn h8

/-- A process reaches none of the bytes that are hidden from it. -/
theorem Sandboxed.reaches_seen (h : Sandboxed zone vm.cpu vm.bus) (hhide : Hides zone hidden)
    {va p : BitVec 64} {acc : AccessType} (hp : Reaches vm va acc p) {n : Nat} (h8 : n ≤ 8) :
    ∀ k < n, ¬ hidden (p + BitVec.ofNat 64 k) := by
  intro k hk htable
  refine hhide.unread _ htable (h.reads va acc p hp _ ?_)
  rw [ByteMap.offset_toNat p (by omega)]
  omega

variable (h : Sandboxed zone vm.cpu vm.bus) (hhide : Hides zone hidden)
  (hplace : Placed place vm) (hset : vm.cpu.regs 0 = 0)
  (hs : Agree hidden s (stateOf vm hset))
include h hhide hplace hs

/-- The word that the machine finds where its pc reaches is the one that the
hart fetches. -/
theorem Sandboxed.fetches {p : BitVec 64} (hp : Reaches vm vm.cpu.pc .fetch p)
    (hcross : ¬ CrossesPage s.pc 4) : vmBusRead32 vm.bus p = Rv64im.fetch place s := by
  have hpc : vm.cpu.pc = s.pc := hs.pc
  have hram := h.reaches_ram hp (n := 4) (by omega) (by omega)
  have hseen := h.reaches_seen hhide hp (n := 4) (by omega)
  rw [hpc] at hp
  have hbytes := hplace.bytes hp (by omega) hcross
  have hread : Rv64im.fetch place s =
      ByteMap.read 32 (fun a => (stateOf vm hset).mem (place a)) s.pc 4 := by
    refine (hs.read fun k hk => ?_).symm
    rw [hbytes k hk]
    exact hseen k hk
  rw [hread, vmBusRead32, if_pos ((ram_range_iff _).mpr (hram.mono (by omega))), memRead32,
    mem_read_in_ram vm.bus.ram (by omega) (by omega) hram]
  refine ByteMap.read_congr fun k hk => ?_
  rw [hbytes k hk, ← ByteMap.add_sub_right_comm]
  rfl

/-- An instruction of the process that does not trap. -/
theorem Sandboxed.performs (hpc : vm.cpu.pcWritten = false)
    (hwithin : Within (fun va n => ¬ CrossesPage va n) s i) (hshort : ShortSraw s i)
    (hno : (dispatchInstruction vm i.encode).cpu.trapTaken = false) :
    ∃ bus hit s', Agree hidden (Rv64im.exec place s i) s' ∧
      Performs vm.cpu (dispatchInstruction vm i.encode) s' bus hit := by
  have hshort' : ShortSraw (stateOf vm hset) i := by
    intro rd rs1 rs2 hi
    rw [hs.regs]
    exact hshort rd rs1 rs2 hi
  cases hacc : i.access (stateOf vm hset) with
  | none =>
    have hno' : ∀ a, i.access (stateOf vm hset) ≠ some a := by simp [hacc]
    obtain ⟨hit, hdone⟩ := @instr_performs vm hset hpc i place vm.bus hshort' (fun _ => rfl)
      fun a ha => absurd ha (hno' a)
    exact ⟨_, hit, _, hs.exec i fun a ha => absurd (hs.access_eq i ▸ ha) (hno' a), hdone⟩
  | some a =>
    have hacc' : i.access s = some a := hs.access_eq i ▸ hacc
    obtain ⟨p, hp⟩ := access_translated hset hno hacc
    obtain ⟨h0, h8⟩ := access_bytes hacc
    have hbytes := hplace.bytes hp h8 (hwithin.accessed a hacc')
    have hwalked : Agree hidden s
        (stateOf { vm with bus := (translateAddress vm.cpu vm.bus a.addr (kindOf a)).1 } hset) :=
      hs.trans ⟨rfl, rfl, fun x hx =>
        h.walk_ram a.addr (kindOf a) fun ht => hx (hhide.tables x ht)⟩
    obtain ⟨hit, hdone⟩ := @instr_performs vm hset hpc i place
      (translateAddress vm.cpu vm.bus a.addr (kindOf a)).1 hshort'
      (fun hn => by simp [hacc] at hn) fun a' ha' => by
        cases hacc.symm.trans ha'
        exact ⟨p, Prod.ext rfl hp, h.reaches_ram hp h0 h8, hbytes⟩
    refine ⟨_, hit, _, hwalked.exec i fun a' ha' k hk => ?_, hdone⟩
    cases hacc'.symm.trans ha'
    rw [hbytes k hk]
    exact h.reaches_seen hhide hp h8 k hk

omit hset hs in
/-- An instruction of the process that raises no exception, whether or not an
interrupt is taken after it. -/
theorem Sandboxed.executed (hset : Settled vm.cpu)
    (hs : Agree hidden s (stateOf vm hset.zero)) (hword : Rv64im.fetch place s = i.encode)
    (hwithin : Within (fun va n => ¬ CrossesPage va n) s i) (hshort : ShortSraw s i)
    (hno : (processed vm).cpu.trapTaken = false) :
    ∃ done bus hit s', Agree hidden (Rv64im.exec place s i) s' ∧
      Performs (beginStep vm.cpu) done s' bus hit ∧ processed vm = retire done ∧
      cpuStep vm = finish (retire done) := by
  obtain ⟨bus, p, ht, hno, hproc, hstep⟩ := untrapped_fetches hno
  have hp : Reaches vm vm.cpu.pc .fetch p := congrArg Prod.snd ht
  have hbus : (translateAddress vm.cpu vm.bus vm.cpu.pc .fetch).1 = bus := congrArg Prod.fst ht
  have hwalk := h.translate vm.cpu.pc .fetch
  have hmark := fun {x} => h.walk_ram vm.cpu.pc .fetch (x := x)
  rw [hbus] at hwalk hmark
  have hview : SameView vm.cpu (fetched vm bus).cpu := ⟨rfl, rfl, rfl⟩
  have hready : Sandboxed zone (fetched vm bus).cpu (fetched vm bus).bus := h.spared hwalk hview
  have hreads : ∀ va, SameReads vm.cpu vm.bus (fetched vm bus).bus va := h.same_reads hwalk
  have hplaced : Placed place (fetched vm bus) := hplace.same hreads hview
  have hagree : Agree hidden s (stateOf (fetched vm bus) hset.zero) :=
    hs.trans ⟨rfl, rfl, fun x hx => hmark fun htable => hx (hhide.tables x htable)⟩
  have hreach : Reaches (fetched vm bus) vm.cpu.pc .fetch p :=
    (reaches_same (hreads vm.cpu.pc) hview).mpr hp
  have hfetch : vmBusRead32 bus p = i.encode :=
    (hready.fetches hhide hplaced hset.zero hagree hreach hwithin.fetched).trans hword
  rw [hfetch] at hno hproc
  obtain ⟨bus', hit, s', hs', hdone⟩ := hready.performs hhide hplaced hset.zero hagree
    hset.pcWritten hwithin hshort hno
  exact ⟨_, bus', hit, s', hs', hdone, hproc, hproc ▸ hstep⟩

end

/-- The machine of a process is where the hart is, in what the process sees. -/
structure Tracks (zone : Zone) (hidden : BitVec 64 → Prop) (place : BitVec 64 → BitVec 64)
    (vm : Vm) (s : State) : Prop where
  inside : Sandboxed zone vm.cpu vm.bus
  placed : Placed place vm
  settled : Settled vm.cpu
  hart : Agree hidden s (stateOf vm settled.zero)

section
variable {zone : Zone} {hidden : BitVec 64 → Prop} {place : BitVec 64 → BitVec 64} {vm : Vm}
  {s : State}

/-- The clock and the host move no page. -/
theorem Placed.clock (h : Placed place vm) (host : HostTurn)
    (hbox : Sandboxed zone vm.cpu vm.bus) : Placed place (clockTurn vm host) := by
  refine h.same (fun va a ha => ?_) ⟨clock_turn_priviledge vm host,
    clock_turn_csrs vm host (by decide), clock_turn_csrs vm host (by decide)⟩
  rw [clock_turn_reads (span_in_ram zone.tableRam (hbox.tables va a ha) (by omega) (by omega))]
  exact fun _ _ _ => rfl

/-- A step of the process that stays in U. -/
theorem Tracks.refines (h : Tracks zone hidden place vm s) (hhide : Hides zone hidden)
    {i : Rv64im.Instr} (hword : Rv64im.fetch place s = i.encode)
    (hwithin : Within (fun va n => ¬ CrossesPage va n) s i) (hshort : ShortSraw s i)
    (hu : (cpuStep vm).cpu.priviledge = uMode) :
    ∃ bus hit s', Agree hidden (Rv64im.exec place s i) s' ∧ cpuStep vm = refined vm s' bus hit := by
  obtain ⟨inside, placed, settled, hart⟩ := h
  obtain ⟨done, bus, hit, s', hs', hdone, hproc, hstep⟩ :=
    inside.executed hhide placed settled hart hword hwithin hshort (user_untrapped inside.user hu)
  obtain ⟨hsel, _, _, _⟩ := user_stays inside.user hu
  rw [hproc] at hsel
  exact ⟨bus, hit, s', hs', hstep.trans (finish_performs hdone hsel)⟩

theorem Tracks.step (h : Tracks zone hidden place vm s) (hhide : Hides zone hidden)
    {i : Rv64im.Instr} (hword : Rv64im.fetch place s = i.encode)
    (hwithin : Within (fun va n => ¬ CrossesPage va n) s i) (hshort : ShortSraw s i)
    (host : HostTurn) (hu : (mainLoop vm host).cpu.priviledge = uMode) :
    Tracks zone hidden place (mainLoop vm host) (Rv64im.exec place s i) := by
  rw [main_loop_eq] at hu ⊢
  rw [clock_turn_priviledge] at hu
  obtain ⟨bus, hit, s', hs', hstep⟩ := h.refines hhide hword hwithin hshort hu
  obtain ⟨inside, placed, settled, hart⟩ := h
  obtain ⟨_, _, _, hcsrs⟩ := user_stays inside.user hu
  have hview : SameView vm.cpu (cpuStep vm).cpu :=
    ⟨hu.trans inside.user.symm, hcsrs _ (by decide) (by decide), hcsrs _ (by decide) (by decide)⟩
  have hspared := inside.step
  have hinside : Sandboxed zone (cpuStep vm).cpu (cpuStep vm).bus := inside.spared hspared hview
  have hplaced : Placed place (cpuStep vm) := placed.same (inside.same_reads hspared) hview
  have hsettled := step_settled settled
  refine ⟨hinside.clock host, hplaced.clock host hinside, tick_settled hsettled host, ?_⟩
  rw [clock_turn_state host hsettled.zero]
  simp only [hstep] at hsettled ⊢
  rw [refined_state hsettled.zero]
  exact hs'

end

/-- Every iteration of the run ends in U. -/
def StaysUser (vm : Vm) (hosts : List HostTurn) : Prop :=
  Past.Along mainLoop (fun vm host => (mainLoop vm host).cpu.priviledge = uMode) vm hosts

/-- What a run of `n` instructions of a process from `vm` has come to in `vm'`
when the hart is in `s`. -/
structure Follows (zone : Zone) (place : BitVec 64 → BitVec 64) (vm vm' : Vm) (s : State)
    (n : Nat) : Prop extends Tracks zone zone.table place vm' s where
  cycles : vm'.cpu.csrs csrMcycle = vm.cpu.csrs csrMcycle + BitVec.ofNat 64 n
  instret : vm'.cpu.csrs csrMinstret = vm.cpu.csrs csrMinstret + BitVec.ofNat 64 n

section
variable {zone : Zone} {place : BitVec 64 → BitVec 64} {vm vm' : Vm} {s : State} {n : Nat}

theorem Follows.step (h : Follows zone place vm vm' s n)
    (hapart : ∀ x, zone.table x → ¬ zone.reads x) {i : Rv64im.Instr}
    (hword : Rv64im.fetch place s = i.encode)
    (hwithin : Within (fun va n => ¬ CrossesPage va n) s i) (hshort : ShortSraw s i)
    (host : HostTurn) (hu : (mainLoop vm' host).cpu.priviledge = uMode) :
    Follows zone place vm (mainLoop vm' host) (Rv64im.exec place s i) (n + 1) := by
  have hhide : Hides zone zone.table := ⟨fun _ ht => ht, hapart⟩
  refine ⟨h.toTracks.step hhide hword hwithin hshort host hu, ?_, ?_⟩
  all_goals
    rw [main_loop_eq, clock_turn_priviledge] at hu
    obtain ⟨bus, hit, s', _, hstep⟩ := h.toTracks.refines hhide hword hwithin hshort hu
    have hnext (x : BitVec 64) : x + BitVec.ofNat 64 (n + 1) = x + BitVec.ofNat 64 n + 1 := by
      rw [BitVec.ofNat_add, ← BitVec.add_assoc]
      rfl
  · rw [main_loop_eq, clock_turn_csrs _ host (by decide), hnext, ← h.cycles, hstep]
    simp [refined]
  · rw [main_loop_eq, clock_turn_csrs _ host (by decide), hnext, ← h.instret, hstep]
    simp [refined]

theorem Follows.run (h : Follows zone place vm vm' s n)
    (hapart : ∀ x, zone.table x → ¬ zone.reads x) {instrs : List Rv64im.Instr}
    (htraces : Traces place (fun va n => ¬ CrossesPage va n) ShortSraw s instrs)
    {hosts : List HostTurn} (hlen : hosts.length = instrs.length) (hstays : StaysUser vm' hosts) :
    Follows zone place vm (hosts.foldl mainLoop vm') (instrs.foldl (Rv64im.exec place) s)
      (n + instrs.length) := by
  induction instrs generalizing vm' s n hosts with
  | nil =>
    rw [List.eq_nil_of_length_eq_zero hlen]
    exact h
  | cons i instrs ih =>
    obtain ⟨⟨hword, hwithin, hshort⟩, hrest⟩ := htraces
    obtain ⟨host, hosts, rfl⟩ := List.exists_cons_of_length_eq_add_one hlen
    have hend := ih (h.step hapart hword hwithin hshort host hstays.1) hrest (by simpa using hlen)
      hstays.2
    rw [Nat.add_right_comm] at hend
    exact hend

/-- The machine runs the programs of a process in its virtual memory. As long
as a process stays in U, `n` iterations take its registers and all memory but
the page tables where `n` instructions of RV64IM take them on memory as the
tables have mapped it from the start, each instruction fetched as the program
has left it by then. The tables must be out of the process's sight. -/
theorem user_program_refines (h : Sandboxed zone vm.cpu vm.bus) (hset : Settled vm.cpu)
    (hapart : ∀ x, zone.table x → ¬ zone.reads x) (instrs : List Rv64im.Instr)
    (htraces : Traces (pageMap vm) (fun va n => ¬ CrossesPage va n) ShortSraw
      (stateOf vm hset.zero) instrs) (hosts : List HostTurn) (hlen : hosts.length = instrs.length)
    (hstays : StaysUser vm hosts) :
    Follows zone (pageMap vm) vm (hosts.foldl mainLoop vm)
      (instrs.foldl (Rv64im.exec (pageMap vm)) (stateOf vm hset.zero)) instrs.length := by
  have hstart : Follows zone (pageMap vm) vm vm (stateOf vm hset.zero) 0 :=
    ⟨⟨h, fun va acc p hp => h.page_map hp, hset, ⟨rfl, rfl, fun _ _ => rfl⟩⟩, by simp, by simp⟩
  have hend := hstart.run hapart htraces hlen hstays
  rw [Nat.zero_add] at hend
  exact hend

end

/-- The code of the process: it stores to its own page and loops. -/
def processCode : List Rv64im.Instr :=
  [.base (.lui 1 1), .base (.store .sd 1 1 64), .base (.jal 0 0), .base (.jal 0 0)]

theorem process_settled : Settled process.cpu := ⟨rfl, rfl⟩

theorem process_apart : ∀ x, processZone.table x → ¬ processZone.reads x := by
  intro x ht hr
  simp only [processZone] at ht hr
  bv_omega

theorem process_traces : Traces (pageMap process) (fun va n => ¬ CrossesPage va n) ShortSraw
    (stateOf process process_settled.zero) processCode := by
  have hwhole : ∀ {va : BitVec 64} {n : Nat}, (offsetOf va).toNat + n ≤ 4096 → ¬ CrossesPage va n :=
    fun h => Nat.not_lt.mpr h
  refine ⟨⟨by decide +kernel, ⟨hwhole (by decide), fun a ha => ?_⟩, short_other _ (by simp)⟩,
    ⟨by decide +kernel, ⟨hwhole (by decide), fun a ha => ?_⟩, short_other _ (by simp)⟩,
    ⟨by decide +kernel, ⟨hwhole (by decide), fun a ha => ?_⟩, short_other _ (by simp)⟩,
    ⟨by decide +kernel, ⟨hwhole (by decide), fun a ha => ?_⟩, short_other _ (by simp)⟩, trivial⟩
  all_goals cases ha
  exact hwhole (by decide)

theorem process_refines :
    Follows processZone (pageMap process) process
      ([.quiet, .poll (some 0x41), .quiet, .quiet].foldl mainLoop process)
      (processCode.foldl (Rv64im.exec (pageMap process)) (stateOf process process_settled.zero))
      4 :=
  user_program_refines process_sandboxed process_settled process_apart processCode process_traces
    [.quiet, .poll (some 0x41), .quiet, .quiet] rfl
    ⟨by decide +kernel, by decide +kernel, by decide +kernel, by decide +kernel, trivial⟩

end RiscvVm.Proofs
