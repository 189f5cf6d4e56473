import RiscvVm.Proofs.Reset

namespace RiscvVm.Proofs

/-- The sums of `cpu_invalidate_reservation` do not wrap. -/
def EndsFit (r : BitVec 64) (width : Width) (p : BitVec 64) (other : Width) : Prop :=
  r.toNat + width.bytes < 2 ^ 64 ∧ p.toNat + other.bytes < 2 ^ 64

/-- The store at `p` and the reservation at `r` have an address in common. -/
def SharesByte (r : BitVec 64) (width : Width) (p : BitVec 64) (other : Width) : Prop :=
  ByteMap.Meets r width.bytes p other.bytes

theorem shares_byte_iff (r : BitVec 64) (width : Width) (p : BitVec 64) (other : Width) :
    SharesByte r width p other ↔
      (p - r).toNat < width.bytes ∨ (r - p).toNat < other.bytes := by
  have hw := Width.bytes_le width
  have ho := Width.bytes_le other
  have hw0 := Width.bytes_pos width
  have ho0 := Width.bytes_pos other
  unfold SharesByte
  rw [ByteMap.meets_iff (by omega) (by omega)]
  simp only [hw0, ho0, true_and]

instance (r : BitVec 64) (width : Width) (p : BitVec 64) (other : Width) :
    Decidable (SharesByte r width p other) :=
  decidable_of_iff _ (shares_byte_iff r width p other).symm

/-- An aligned reservation is hit by the stores that share a byte with it,
unless one of the two ends at the end of the address space or after it. -/
theorem hits_shares {cpu : Cpu} {r : BitVec 64} {width : Width}
    (hwidth : width = .w32 ∨ width = .w64) (hal : AtomicAligned width r)
    (hres : cpu.reservation = reservationOf r width) (p : BitVec 64) (other : Width) :
    Hits cpu p (BitVec.ofNat 8 other.bytes) ↔
      SharesByte r width p other ∧ EndsFit r width p other := by
  have halign := (atomic_aligned_iff width r).mp hal
  have ho := Width.bytes_le other
  have ho0 := Width.bytes_pos other
  have hr := r.isLt
  have hp := p.isLt
  rw [shares_byte_iff]
  unfold Hits EndsFit
  rw [hres, gt_iff_lt, BitVec.lt_def, BitVec.lt_def]
  simp only [reservationOf, BitVec.toNat_add, BitVec.toNat_sub, BitVec.toNat_setWidth,
    BitVec.toNat_ofNat, true_and]
  rcases hwidth with rfl | rfl <;> simp only [Width.bytes] at * <;> omega

theorem invalidate_valid {cpu : Cpu} (hv : cpu.reservation.valid = true) (p : BitVec 64)
    (size : BitVec 8) :
    (cpuInvalidateReservation cpu p size).reservation.valid = false ↔ Hits cpu p size := by
  rw [invalidate_eq]
  simp [hv]

/-- A store clears a reservation exactly when they share a byte, except for
stores and reservations at the end of the address space: there only when they
share none. -/
theorem reservation_cleared_iff {cpu : Cpu} {r : BitVec 64} {width : Width}
    (hwidth : width = .w32 ∨ width = .w64) (hal : AtomicAligned width r)
    (hres : cpu.reservation = reservationOf r width) (p : BitVec 64) (other : Width) :
    ((cpuInvalidateReservation cpu p (BitVec.ofNat 8 other.bytes)).reservation.valid = false ↔
        SharesByte r width p other) ↔
      EndsFit r width p other ∨ ¬ SharesByte r width p other := by
  have hv : cpu.reservation.valid = true := by rw [hres]; rfl
  rw [invalidate_valid hv, hits_shares hwidth hal hres]
  constructor
  · intro h
    by_cases hs : SharesByte r width p other
    · exact Or.inl (h.mpr hs).2
    · exact Or.inr hs
  · rintro (hfit | hs)
    · exact ⟨fun h => h.1, fun h => ⟨h, hfit⟩⟩
    · exact ⟨fun h => h.1, fun h => absurd h hs⟩

/-- The last doubleword but one, which no end wraps for. -/
theorem doubleword_clears :
    ((cpuInvalidateReservation
        { cpuInit with reservation := reservationOf 0xFFFFFFFFFFFFFFF0 .w64 }
        0xFFFFFFFFFFFFFFF0 8).reservation.valid = false ↔
      SharesByte 0xFFFFFFFFFFFFFFF0 .w64 0xFFFFFFFFFFFFFFF0 .w64) ↔
      EndsFit 0xFFFFFFFFFFFFFFF0 .w64 0xFFFFFFFFFFFFFFF0 .w64 ∨
        ¬ SharesByte 0xFFFFFFFFFFFFFFF0 .w64 0xFFFFFFFFFFFFFFF0 .w64 :=
  reservation_cleared_iff (Or.inr rfl) (by decide) rfl 0xFFFFFFFFFFFFFFF0 .w64

/-- `addi x1, x0, -8`, `lr.d x2, (x1)` and `sd x0, 0(x1)`. -/
def topProgram : Memory := ramOf [(0, 0x1000B12FFF800093), (8, 0x0000B023)]

/-- The last doubleword is reserved, and the store to it leaves it reserved. -/
theorem top_reservation_survives :
    (quietly 2 (vmInit topProgram)).cpu.reservation = reservationOf 0xFFFFFFFFFFFFFFF8 .w64 ∧
    (quietly 3 (vmInit topProgram)).cpu.reservation = reservationOf 0xFFFFFFFFFFFFFFF8 .w64 ∧
    ¬ ((cpuInvalidateReservation (quietly 2 (vmInit topProgram)).cpu
        0xFFFFFFFFFFFFFFF8 8).reservation.valid = false ↔
      SharesByte 0xFFFFFFFFFFFFFFF8 .w64 0xFFFFFFFFFFFFFFF8 .w64) := by
  refine ⟨by decide, by decide, ?_⟩
  decide

end RiscvVm.Proofs
