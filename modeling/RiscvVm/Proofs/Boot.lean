import RiscvVm.Main
import RiscvVm.Proofs.Loading

namespace RiscvVm.Proofs

/-- The images that `main` loads. -/
structure Images where
  fw : List (BitVec 8)
  dtb : List (BitVec 8)
  kernel : List (BitVec 8)

/-- The files hold these images. -/
structure Opens (fopen : String → Option (List (BitVec 8))) (images : Images) : Prop where
  fw : fopen "src/vm/fw_jump.bin" = some images.fw
  dtb : fopen "build/vm.dtb" = some images.dtb
  kernel : fopen "src/vm/kernel.img" = some images.kernel

def fwIndex : BitVec 64 := 0
def dtbIndex : BitVec 64 := 0x02200000
def kernelIndex : BitVec 64 := 0x00200000

/-- Every image fits into the array from its index on. -/
structure Fits (images : Images) : Prop where
  fw : FitsFrom fwIndex images.fw
  dtb : FitsFrom dtbIndex images.dtb
  kernel : FitsFrom kernelIndex images.kernel

/-- The RAM after the loading, one image after the other. -/
def bootRam (ram : Memory) (images : Images) : Memory :=
  { mem := ByteMap.store (ByteMap.store (ByteMap.store ram.mem fwIndex images.fw)
      dtbIndex images.dtb) kernelIndex images.kernel }

/-- The image lies in the memory from this index on. -/
def Holds (mem : Memory) (index : BitVec 64) (image : List (BitVec 8)) : Prop :=
  ∀ i (h : i < image.length), mem.mem (index + BitVec.ofNat 64 i) = image[i]

/-- Two images of which the upper one starts so many bytes into the lower one
are the same where they overlap. -/
def AgreeAt (upper lower : List (BitVec 8)) (shift : Nat) : Prop :=
  ∀ i (hu : i < upper.length) (hl : shift + i < lower.length), upper[i] = lower[shift + i]

section
variable {fopen : String → Option (List (BitVec 8))} {vm : Vm} {path : String}

/-- A load of a file that opens, and what comes after it. -/
theorem load_then {α : Type} {image : List (BitVec 8)} (hfile : fopen path = some image)
    (addr : BitVec 64) (next : Vm × BitVec 32 → Option α) :
    (vmLoadBin fopen vm path addr >>= next) =
      if FitsFrom (addressToIndex addr) image then next (afterCopy vm addr image, 0) else none := by
  rw [vm_load_bin_eq fopen vm hfile]
  split <;> rfl

theorem missing_then {α : Type} (hfile : fopen path = none) (addr : BitVec 64)
    (next : Vm × BitVec 32 → Option α) :
    (vmLoadBin fopen vm path addr >>= next) = next (vm, 1) := by
  unfold vmLoadBin
  rw [hfile]
  rfl

end

section
variable (fopen : String → Option (List (BitVec 8))) (ram : Memory)

theorem main_boot_eq {images : Images} (h : Opens fopen images) :
    mainBoot fopen ram =
      if FitsFrom fwIndex images.fw then
        if FitsFrom dtbIndex images.dtb then
          if FitsFrom kernelIndex images.kernel then
            some (.ok (vmBoot (bootRam ram images)))
          else none
        else none
      else none := by
  have hdtb : addressToIndex (ramBase + 0x02200000) = dtbIndex := by decide
  have hkernel : addressToIndex 0x80200000 = kernelIndex := by decide
  unfold mainBoot
  rw [load_then h.fw]
  refine ite_congr rfl (fun _ => ?_) fun _ => rfl
  dsimp only
  rw [if_neg (not_not_intro rfl), load_then h.dtb, hdtb]
  refine ite_congr rfl (fun _ => ?_) fun _ => rfl
  dsimp only
  rw [if_neg (not_not_intro rfl), load_then h.kernel, hkernel]
  exact ite_congr rfl (fun _ => rfl) fun _ => rfl

/-- Where a file is missing, `main` exits unless an image before it is too long. -/
theorem main_boot_missing (h : ∀ images, ¬ Opens fopen images) :
    mainBoot fopen ram = some (.error 1) ∨ mainBoot fopen ram = none := by
  unfold mainBoot
  cases hfw : fopen "src/vm/fw_jump.bin" with
  | none =>
    rw [missing_then hfw]
    exact Or.inl rfl
  | some fw =>
    rw [load_then hfw]
    split
    case isFalse => exact Or.inr rfl
    dsimp only
    rw [if_neg (not_not_intro rfl)]
    cases hdtb : fopen "build/vm.dtb" with
    | none =>
      rw [missing_then hdtb]
      exact Or.inl rfl
    | some dtb =>
      rw [load_then hdtb]
      split
      case isFalse => exact Or.inr rfl
      dsimp only
      rw [if_neg (not_not_intro rfl)]
      cases hkernel : fopen "src/vm/kernel.img" with
      | none =>
        rw [missing_then hkernel]
        exact Or.inl rfl
      | some kernel => exact absurd ⟨hfw, hdtb, hkernel⟩ (h ⟨fw, dtb, kernel⟩)

/-- `main` gets to its loop just if all files open and all images fit. -/
theorem main_boot_iff (vm : Vm) :
    mainBoot fopen ram = some (.ok vm) ↔
      ∃ images, Opens fopen images ∧ Fits images ∧ vm = vmBoot (bootRam ram images) := by
  constructor
  · intro hboot
    have hopens : ∃ images, Opens fopen images := by
      refine Classical.byContradiction fun hno => ?_
      rcases main_boot_missing fopen ram (not_exists.mp hno) with he | he <;>
        · rw [he] at hboot
          cases hboot
    obtain ⟨images, hopen⟩ := hopens
    rw [main_boot_eq fopen ram hopen] at hboot
    split at hboot
    case isFalse => cases hboot
    rename_i hfw
    split at hboot
    case isFalse => cases hboot
    rename_i hdtb
    split at hboot
    case isFalse => cases hboot
    rename_i hkernel
    cases hboot
    exact ⟨images, hopen, ⟨hfw, hdtb, hkernel⟩, rfl⟩
  · rintro ⟨images, hopen, ⟨hfw, hdtb, hkernel⟩, rfl⟩
    rw [main_boot_eq fopen ram hopen, if_pos hfw, if_pos hdtb, if_pos hkernel]

end

theorem fits_length {index : BitVec 64} {image : List (BitVec 8)} (h : FitsFrom index image) :
    image.length ≤ 0x4000000 - index.toNat := by
  have hsize : memSize.toNat = 0x4000000 := rfl
  cases hlen : image.length with
  | zero => omega
  | succ n =>
    have := h n (by omega)
    omega

/-- Where a byte of one image lies in another that reaches it. -/
theorem index_gap {p q : BitVec 64} {i n : Nat} (hi : p.toNat + i < 2 ^ 64)
    (hn : q.toNat + n ≤ 2 ^ 64) (hlt : (p + BitVec.ofNat 64 i - q).toNat < n) :
    q.toNat ≤ p.toNat + i ∧ (p + BitVec.ofNat 64 i - q).toNat = p.toNat + i - q.toNat := by
  rw [BitVec.toNat_sub, BitVec.toNat_add, BitVec.toNat_ofNat] at hlt ⊢
  have := q.isLt
  omega

/-- Images that are both in the memory are the same where they overlap. -/
theorem holds_agree {mem : Memory} {p q : BitVec 64} {upper lower : List (BitVec 8)} {shift : Nat}
    (hu : Holds mem p upper) (hl : Holds mem q lower) (hp : p = q + BitVec.ofNat 64 shift) :
    AgreeAt upper lower shift := by
  intro i hiu hil
  rw [← hu i hiu, ← hl (shift + i) hil, hp, BitVec.add_assoc, ← BitVec.ofNat_add]

section
variable {images : Images} (h : Fits images) (ram : Memory)
include h

/-- A byte of the memory is one of the image loaded last of those that reach it. -/
theorem boot_ram_byte (idx : BitVec 64) : (bootRam ram images).mem idx =
    if hk : (idx - kernelIndex).toNat < images.kernel.length then
      images.kernel[(idx - kernelIndex).toNat]
    else if hd : (idx - dtbIndex).toNat < images.dtb.length then
      images.dtb[(idx - dtbIndex).toNat]
    else if hf : (idx - fwIndex).toNat < images.fw.length then images.fw[(idx - fwIndex).toNat]
    else ram.mem idx := by
  have hfw := fits_length h.fw
  have hdtb := fits_length h.dtb
  have hkernel := fits_length h.kernel
  unfold bootRam
  dsimp only
  rw [ByteMap.store_apply _ _ (by omega)]
  refine dite_congr rfl (fun _ => rfl) fun _ => ?_
  rw [ByteMap.store_apply _ _ (by omega)]
  refine dite_congr rfl (fun _ => rfl) fun _ => ?_
  rw [ByteMap.store_apply _ _ (by omega)]

theorem kernel_held : Holds (bootRam ram images) kernelIndex images.kernel := by
  intro i hi
  have hkernel := fits_length h.kernel
  have hoff := ByteMap.offset_toNat kernelIndex (n := i) (by omega)
  rw [boot_ram_byte h, dif_pos (by rwa [hoff])]
  simp only [hoff]

theorem dtb_held (hagree : AgreeAt images.dtb images.kernel 0x2000000) :
    Holds (bootRam ram images) dtbIndex images.dtb := by
  intro i hi
  have hdtb := fits_length h.dtb
  have hkernel := fits_length h.kernel
  have hd : dtbIndex.toNat = 0x2200000 := rfl
  have hk : kernelIndex.toNat = 0x200000 := rfl
  have hoff := ByteMap.offset_toNat dtbIndex (n := i) (by omega)
  rw [boot_ram_byte h]
  split
  · rename_i hin
    have hgap : (dtbIndex + BitVec.ofNat 64 i - kernelIndex).toNat = 0x2000000 + i := by
      have := (index_gap (by omega) (by omega) hin).2
      omega
    simp only [hgap] at hin ⊢
    exact (hagree i hi hin).symm
  · rw [dif_pos (by rwa [hoff])]
    simp only [hoff]

theorem fw_held (hkernel : AgreeAt images.kernel images.fw 0x200000)
    (hdtb : AgreeAt images.dtb images.fw 0x2200000) :
    Holds (bootRam ram images) fwIndex images.fw := by
  intro i hi
  have hfw := fits_length h.fw
  have hf : fwIndex.toNat = 0 := rfl
  have hoff := ByteMap.offset_toNat fwIndex (n := i) (by omega)
  have hover : ∀ {q : BitVec 64} {upper : List (BitVec 8)}, FitsFrom q upper →
      AgreeAt upper images.fw q.toNat →
      ∀ hin : (fwIndex + BitVec.ofNat 64 i - q).toNat < upper.length,
        upper[(fwIndex + BitVec.ofNat 64 i - q).toNat] = images.fw[i] := by
    intro q upper hfits hagree hin
    have hlength := fits_length hfits
    obtain ⟨hle, hgap⟩ := index_gap (by omega) (by omega) hin
    have hindex : q.toNat + (fwIndex + BitVec.ofNat 64 i - q).toNat = i := by omega
    have hsame := hagree _ hin (by omega)
    simp only [hindex] at hsame
    exact hsame
  rw [boot_ram_byte h]
  split
  · exact hover h.kernel hkernel _
  split
  · exact hover h.dtb hdtb _
  · rw [dif_pos (by rwa [hoff])]
    simp only [hoff]

end

/-- How `main` comes to its loop. It gets there just if all files open and all
images fit; a missing file ends the program, unless an image before it is too
long. The kernel lies in the memory then, and the other two do just if images
that overlap are the same there; no byte that belongs to none is changed. -/
theorem main_boots (fopen : String → Option (List (BitVec 8))) (ram : Memory) :
    (∀ vm, mainBoot fopen ram = some (.ok vm) ↔
      ∃ images, Opens fopen images ∧ Fits images ∧ vm = vmBoot (bootRam ram images)) ∧
    ((∀ images, ¬ Opens fopen images) →
      mainBoot fopen ram = some (.error 1) ∨ mainBoot fopen ram = none) ∧
    ∀ images, Fits images →
      Holds (bootRam ram images) kernelIndex images.kernel ∧
      (Holds (bootRam ram images) fwIndex images.fw ∧
          Holds (bootRam ram images) dtbIndex images.dtb ↔
        AgreeAt images.kernel images.fw 0x200000 ∧ AgreeAt images.dtb images.fw 0x2200000 ∧
          AgreeAt images.dtb images.kernel 0x2000000) ∧
      ∀ idx, images.kernel.length ≤ (idx - kernelIndex).toNat →
        images.dtb.length ≤ (idx - dtbIndex).toNat → images.fw.length ≤ (idx - fwIndex).toNat →
        (bootRam ram images).mem idx = ram.mem idx := by
  refine ⟨main_boot_iff fopen ram, main_boot_missing fopen ram, fun images h => ?_⟩
  have hkernel := kernel_held h ram
  refine ⟨hkernel, ⟨fun ⟨hf, hd⟩ => ?_, fun ⟨hkf, hdf, hdk⟩ => ?_⟩, fun idx hk hd hf => ?_⟩
  · exact ⟨holds_agree hkernel hf (by decide), holds_agree hd hf (by decide),
      holds_agree hd hkernel (by decide)⟩
  · exact ⟨fw_held h ram hkf hdf, dtb_held h ram hdk⟩
  · rw [boot_ram_byte h, dif_neg (Nat.not_lt.mpr hk), dif_neg (Nat.not_lt.mpr hd),
      dif_neg (Nat.not_lt.mpr hf)]

end RiscvVm.Proofs
