import RiscvVm.Loading
import RiscvVm.Proofs.Bus

namespace RiscvVm.Proofs

/-- A row of bytes from this index on lies in the array. -/
def FitsFrom (idx : BitVec 64) (bytes : List (BitVec 8)) : Prop :=
  ∀ i < bytes.length, idx.toNat + i < memSize.toNat

section
variable (mem : Memory) (dst : BitVec 64)

theorem fits_nil : FitsFrom dst [] := fun i hi => absurd hi (Nat.not_lt_zero i)

theorem fits_cons (value : BitVec 8) (src : List (BitVec 8)) :
    FitsFrom dst (value :: src) ↔ dst < memSize ∧ FitsFrom (dst + 1) src := by
  have hsize : memSize.toNat = 0x4000000 := rfl
  have hnext : dst.toNat < memSize.toNat → (dst + 1).toNat = dst.toNat + 1 := by
    intro h
    rw [BitVec.toNat_add]
    exact Nat.mod_eq_of_lt (by simp; omega)
  constructor
  · intro h
    have h0 : dst.toNat < memSize.toNat := h 0 (by simp)
    refine ⟨h0, fun i hi => ?_⟩
    have := h (i + 1) (by simpa using hi)
    rw [hnext h0]
    omega
  · rintro ⟨h0, h⟩ i hi
    cases i with
    | zero => exact h0
    | succ i =>
      have := h i (by simpa using hi)
      rw [hnext h0] at this
      omega

instance (bytes : List (BitVec 8)) : Decidable (FitsFrom dst bytes) := by
  unfold FitsFrom
  infer_instance

/-- A copy stores all its bytes, or it leaves the array. -/
theorem memcpy_eq (src : List (BitVec 8)) :
    memcpy mem dst src =
      if FitsFrom dst src then some { mem := ByteMap.store mem.mem dst src } else none := by
  induction src generalizing mem dst with
  | nil =>
    rw [if_pos (fits_nil dst)]
    rfl
  | cons value src ih =>
    by_cases h0 : dst < memSize
    · have hset : mem.setByte dst value =
          some { mem := fun x => if x = dst then value else mem.mem x } := if_pos h0
      refine (congrArg (Option.bind · _) hset).trans ((Option.bind_some _ _).trans ?_)
      rw [ih]
      refine ite_congr (propext ?_) (fun _ => rfl) fun _ => rfl
      rw [fits_cons]
      exact (and_iff_right h0).symm
    · have hset : mem.setByte dst value = none := if_neg h0
      rw [if_neg fun h => h0 ((fits_cons dst value src).mp h).1]
      exact congrArg (Option.bind · _) hset

/-- Two copies, one after the other, are one copy. -/
theorem memcpy_append (xs ys : List (BitVec 8)) :
    (memcpy mem dst xs).bind (fun mem => memcpy mem (dst + BitVec.ofNat 64 xs.length) ys) =
      memcpy mem dst (xs ++ ys) := by
  induction xs generalizing mem dst with
  | nil => simp [memcpy]
  | cons x xs ih =>
    simp only [List.cons_append, List.length_cons, ByteMap.offset_succ, memcpy]
    cases hset : mem.setByte dst x with
    | none => rfl
    | some mem' => exact ih mem' (dst + 1)

/-- A file is copied by copying a chunk and then the rest. -/
theorem memcpy_chunk (size : Nat) (file : List (BitVec 8)) :
    (memcpy mem dst (file.take size)).bind (fun mem =>
      memcpy mem (dst + BitVec.ofNat 64 (file.take size).length) (file.drop size)) =
      memcpy mem dst file := by
  rw [memcpy_append, List.take_append_drop]

theorem drop_shorter {size : Nat} {file : List (BitVec 8)} (hsize : 0 < size)
    (h : 0 < (file.take size).length) : (file.drop size).length < file.length := by
  rw [List.length_take] at h
  rw [List.length_drop]
  omega

end

/-- The chunks of `vm_load_bin` are one copy of the file. -/
theorem load_bin_loop_eq (mem : Memory) (addr offset : BitVec 64) (file : List (BitVec 8)) :
    loadBinLoop mem addr offset file = memcpy mem (addr - memBase + offset) file := by
  induction hlen : file.length using Nat.strongRecOn generalizing mem offset file with
  | ind n ih =>
    rw [loadBinLoop]
    by_cases hmore : 0 < (file.take 256).length
    · have hless : (file.drop 256).length < n := by
        rw [← hlen]
        exact drop_shorter (by decide) hmore
      have hrest : ∀ mem, loadBinLoop mem addr (offset + BitVec.ofNat 64 (file.take 256).length)
          (file.drop 256) = memcpy mem (addr - memBase + offset +
            BitVec.ofNat 64 (file.take 256).length) (file.drop 256) := by
        intro mem
        rw [ih _ hless mem _ _ rfl, BitVec.add_assoc]
      simp only [if_pos hmore, hrest]
      exact memcpy_chunk mem _ 256 file
    · have hend : file = [] := by
        cases file with
        | nil => rfl
        | cons => simp at hmore
      subst hend
      rfl

/-- The chunks of `cmd_load` are one copy of the file too. -/
theorem load_loop_eq (mem : Memory) (offset : BitVec 64) (file : List (BitVec 8)) :
    loadLoop mem offset file = memcpy mem offset file := by
  induction hlen : file.length using Nat.strongRecOn generalizing mem offset file with
  | ind n ih =>
    rw [loadLoop]
    by_cases hmore : (file.take 1024).length = 1024
    · have hless : (file.drop 1024).length < n := by
        rw [← hlen]
        exact drop_shorter (by decide) (by omega)
      have hrest : ∀ mem, loadLoop mem (offset + BitVec.ofNat 64 (file.take 1024).length)
          (file.drop 1024) = memcpy mem (offset + BitVec.ofNat 64 (file.take 1024).length)
            (file.drop 1024) := fun mem => ih _ hless mem _ _ rfl
      simp only [if_pos hmore, hrest]
      exact memcpy_chunk mem _ 1024 file
    · have hlast : file.take 1024 = file := by
        rw [List.length_take] at hmore
        exact List.take_of_length_le (by omega)
      simp only [if_neg hmore]
      rw [hlast]
      exact bind_pure _

/-- What a load promises when it reports no error: the image lies in the array
from this address on, and nothing else of the array has changed. -/
structure Copied (vm vm' : Vm) (addr : BitVec 64) (image : List (BitVec 8)) : Prop where
  fits : FitsFrom (addressToIndex addr) image
  bytes : ∀ i (h : i < image.length),
    vm'.bus.ram.mem (addressToIndex addr + BitVec.ofNat 64 i) = image[i]
  others : ∀ idx, ¬ ByteMap.Covers (addressToIndex addr) image.length idx →
    vm'.bus.ram.mem idx = vm.bus.ram.mem idx

/-- And what it promises when it reports one. -/
structure Untouched (vm vm' : Vm) : Prop where
  cpu : vm'.cpu = vm.cpu
  ram : ∀ idx < memSize, vm'.bus.ram.mem idx = vm.bus.ram.mem idx

/-- Either of the two, for the image that the file holds; `true` is a load that
reports no error. -/
def AllOrNothing (vm : Vm) (file : Option (List (BitVec 8))) (addr : Option (BitVec 64)) :
    Option (Vm × Bool) → Prop
  | none => False
  | some (vm', true) => ∃ image start, file = some image ∧ addr = some start ∧
      Copied vm vm' start image
  | some (vm', false) => Untouched vm vm'

def afterCopy (vm : Vm) (addr : BitVec 64) (image : List (BitVec 8)) : Vm :=
  { vm with bus :=
    { vm.bus with ram := { mem := ByteMap.store vm.bus.ram.mem (addressToIndex addr) image } } }

theorem after_copy_copied (vm : Vm) (cpu : Cpu) {addr : BitVec 64} {image : List (BitVec 8)}
    (h : FitsFrom (addressToIndex addr) image) :
    Copied vm (afterCopy { vm with cpu := cpu } addr image) addr image where
  fits := h
  bytes := by
    intro i hi
    have hsize : memSize.toNat = 0x4000000 := rfl
    have hlast := h (image.length - 1) (by omega)
    exact ByteMap.store_inside _ _ (by omega) hi
  others := by
    intro idx hidx
    exact ByteMap.store_outside _ _ _ hidx

section
variable (fopen : String → Option (List (BitVec 8))) (vm : Vm)

theorem vm_load_bin_eq {path : String} {image : List (BitVec 8)} (hfile : fopen path = some image)
    (addr : BitVec 64) :
    vmLoadBin fopen vm path addr =
      if FitsFrom (addressToIndex addr) image then some (afterCopy vm addr image, 0) else none := by
  have hloop : loadBinLoop vm.bus.ram addr 0 image =
      if FitsFrom (addressToIndex addr) image then
        some { mem := ByteMap.store vm.bus.ram.mem (addressToIndex addr) image } else none := by
    have hstart : addr - memBase + 0 = addressToIndex addr := BitVec.add_zero _
    rw [load_bin_loop_eq, hstart, memcpy_eq]
  rw [vmLoadBin, hfile]
  dsimp only
  rw [hloop]
  split <;> rfl

/-- `vm_load_bin` and whether it has returned 0. -/
def binResult (path : String) (addr : BitVec 64) : Option (Vm × Bool) :=
  (vmLoadBin fopen vm path addr).map fun done => (done.1, done.2 == 0)

theorem bin_all_or_nothing (path : String) (addr : BitVec 64) :
    AllOrNothing vm (fopen path) (some addr) (binResult fopen vm path addr) ↔
      ∀ image, fopen path = some image → FitsFrom (addressToIndex addr) image := by
  cases hfile : fopen path with
  | none =>
    have hres : binResult fopen vm path addr = some (vm, false) := by
      rw [binResult, vmLoadBin, hfile]
      rfl
    rw [hres]
    exact iff_of_true ⟨rfl, fun _ _ => rfl⟩ fun image h => by cases h
  | some image =>
    by_cases hfits : FitsFrom (addressToIndex addr) image
    · have hres : binResult fopen vm path addr = some (afterCopy vm addr image, true) := by
        rw [binResult, vm_load_bin_eq fopen vm hfile, if_pos hfits]
        rfl
      rw [hres]
      refine iff_of_true ⟨image, addr, rfl, rfl, after_copy_copied vm vm.cpu hfits⟩ fun other h => ?_
      cases h
      exact hfits
    · have hres : binResult fopen vm path addr = none := by
        rw [binResult, vm_load_bin_eq fopen vm hfile, if_neg hfits]
        rfl
      rw [hres]
      exact iff_of_false id fun h => hfits (h image rfl)

def isLoaded : LoadMessage → Bool
  | .loaded _ _ => true
  | _ => false

/-- The machine after a load and whether it has said so. -/
def reported (done : Vm × LoadMessage) : Vm × Bool := (done.1, isLoaded done.2)

/-- The file opens and its start is in the array, or else nothing was changed before
that was found out. -/
def LoadFits (file : Option (List (BitVec 8))) (addr : BitVec 64) (kept : Prop) : Prop :=
  match file with
  | none => kept
  | some image =>
    if addressToIndex addr < memSize then FitsFrom (addressToIndex addr) image else kept

theorem untouched_iff (cpu : Cpu) : Untouched vm { vm with cpu := cpu } ↔ cpu = vm.cpu :=
  ⟨fun h => h.cpu, fun h => ⟨h, fun _ _ => rfl⟩⟩

theorem load_file_eq {path : String} {image : List (BitVec 8)} (hfile : fopen path = some image)
    (addr : BitVec 64) :
    loadFile fopen vm path addr =
      if addressToIndex addr < memSize then
        if FitsFrom (addressToIndex addr) image then
          some (afterCopy vm addr image, .loaded path addr)
        else none
      else some (vm, .notInRam addr) := by
  rw [loadFile, hfile]
  dsimp only
  rw [load_loop_eq, memcpy_eq]
  by_cases hstart : addressToIndex addr < memSize
  · have hin : ¬ addr - ramBase ≥ ramSize := BitVec.not_le.mpr hstart
    rw [if_pos hstart, if_neg hin]
    by_cases hfits : FitsFrom (addressToIndex addr) image
    · have hoff : FitsFrom (addr - ramBase) image := hfits
      rw [if_pos hfits, if_pos hoff]
      rfl
    · have hoff : ¬ FitsFrom (addr - ramBase) image := hfits
      rw [if_neg hfits, if_neg hoff]
      rfl
  · have hout : addr - ramBase ≥ ramSize := BitVec.not_lt.mp hstart
    rw [if_neg hstart, if_pos hout]

theorem load_file_all_or_nothing (cpu : Cpu) (path : String) (addr : BitVec 64) :
    AllOrNothing vm (fopen path) (some addr)
        ((loadFile fopen { vm with cpu := cpu } path addr).map reported) ↔
      LoadFits (fopen path) addr (cpu = vm.cpu) := by
  cases hfile : fopen path with
  | none =>
    have hres : loadFile fopen { vm with cpu := cpu } path addr =
        some ({ vm with cpu := cpu }, .fopenError) := by
      rw [loadFile, hfile]
    rw [hres]
    exact untouched_iff vm cpu
  | some image =>
    rw [load_file_eq fopen _ hfile, LoadFits]
    by_cases hstart : addressToIndex addr < memSize
    · rw [if_pos hstart, if_pos hstart]
      by_cases hfits : FitsFrom (addressToIndex addr) image
      · rw [if_pos hfits]
        exact iff_of_true ⟨image, addr, rfl, rfl, after_copy_copied vm cpu hfits⟩ hfits
      · rw [if_neg hfits]
        exact iff_of_false id hfits
    · rw [if_neg hstart, if_neg hstart]
      exact untouched_iff vm cpu

/-- The address that `load` is given, or its default. -/
def loadAddress (argv : List String) : Option (BitVec 64) :=
  match argv[2]? with
  | none => some ramBase
  | some arg => numberArg arg

/-- One path and one address. -/
theorem all_of_one {path : String} {start : BitVec 64} (P : String → BitVec 64 → Prop) :
    (∀ path' addr, some path = some path' → some start = some addr → P path' addr) ↔
      P path start := by
  constructor
  · intro h
    exact h path start rfl rfl
  · intro h path' addr hp ha
    cases hp
    cases ha
    exact h

theorem load_all_or_nothing (argv : List String) :
    AllOrNothing vm (argv[1]?.bind fopen) (loadAddress argv)
        ((cmdLoad fopen vm argv).map reported) ↔
      ∀ path addr, argv[1]? = some path → loadAddress argv = some addr →
        LoadFits (fopen path) addr (argv[2]? = none ∨ vm.cpu.pc = addr) := by
  have hhelp : ∀ file addr, AllOrNothing vm file addr (some (reported (vm, .help))) :=
    fun _ _ => ⟨rfl, fun _ _ => rfl⟩
  rw [cmdLoad, loadAddress]
  cases hpath : argv[1]? with
  | none => exact iff_of_true (hhelp _ _) fun _ _ h => by cases h
  | some path =>
    cases harg : argv[2]? with
    | none =>
      have hkept : (none = (none : Option String) ∨ vm.cpu.pc = ramBase) ↔ vm.cpu = vm.cpu :=
        iff_of_true (Or.inl rfl) rfl
      refine Iff.trans ?_ (all_of_one fun path addr =>
        LoadFits (fopen path) addr (none = (none : Option String) ∨ vm.cpu.pc = addr)).symm
      rw [hkept]
      exact load_file_all_or_nothing fopen vm vm.cpu path ramBase
    | some arg =>
      dsimp only
      cases hnum : numberArg arg with
      | none => exact iff_of_true (hhelp _ _) fun _ _ _ h => by cases h
      | some addr =>
        have hkept : (some arg = none ∨ vm.cpu.pc = addr) ↔
            { vm.cpu with pc := addr } = vm.cpu := by
          constructor
          · rintro (h | h)
            · cases h
            · rw [← h]
          · intro h
            exact Or.inr (congrArg Cpu.pc h).symm
        refine Iff.trans ?_ (all_of_one fun path addr =>
          LoadFits (fopen path) addr (some arg = none ∨ vm.cpu.pc = addr)).symm
        rw [hkept]
        exact load_file_all_or_nothing fopen vm { vm.cpu with pc := addr } path addr

/-- `vm_load_bin` and `load` keep what they promise just where the whole image fits
from the address on, or the file does not open, or `load` sees that the address is
not in the array; and `load` has not set the pc to another address before it fails. -/
theorem loading_all_or_nothing_iff :
    (∀ path addr, AllOrNothing vm (fopen path) (some addr) (binResult fopen vm path addr) ↔
      ∀ image, fopen path = some image → FitsFrom (addressToIndex addr) image) ∧
    ∀ argv, AllOrNothing vm (argv[1]?.bind fopen) (loadAddress argv)
        ((cmdLoad fopen vm argv).map reported) ↔
      ∀ path addr, argv[1]? = some path → loadAddress argv = some addr →
        LoadFits (fopen path) addr (argv[2]? = none ∨ vm.cpu.pc = addr) :=
  ⟨bin_all_or_nothing fopen vm, load_all_or_nothing fopen vm⟩

end

/-- One byte at the end of the memory, and a file that is not there. -/
theorem loading_fails :
    (¬ ∀ fopen vm path addr,
      AllOrNothing vm (fopen path) (some addr) (binResult fopen vm path addr)) ∧
    ¬ ∀ fopen vm argv, AllOrNothing vm (argv[1]?.bind fopen) (loadAddress argv)
      ((cmdLoad fopen vm argv).map reported) := by
  constructor
  · intro h
    have hfits := (bin_all_or_nothing (fun _ => some [0x13]) (vmInit (ramOf [])) "image"
      0x84000000).mp (h _ _ _ _) [0x13] rfl
    exact absurd hfits (by decide)
  · intro h
    have hfits := (load_all_or_nothing (fun _ => none) (vmInit (ramOf []))
      ["load", "image", "0x80001000"]).mp (h _ _ _) "image" 0x80001000 rfl (by decide)
    exact absurd hfits (by unfold LoadFits; decide)

end RiscvVm.Proofs
