import Mathlib.Algebra.Group.Nat.Defs

/-!
Little-endian words in a map from addresses to bytes. The address width and
the word width are parameters, and addresses wrap at the end of the space.
-/

namespace ByteMap

variable {a w : Nat}

/-- The `n` bytes from `p` upwards, least significant first. -/
def read (w : Nat) (m : BitVec a → BitVec 8) (p : BitVec a) : Nat → BitVec w
  | 0 => 0
  | n + 1 => read w m p n ||| ((m (p + BitVec.ofNat a n)).setWidth w <<< (8 * n))

/-- The map after the low `n` bytes of `v` have been put at `p` and upwards. -/
def write (m : BitVec a → BitVec 8) (p : BitVec a) (v : BitVec w) : Nat → BitVec a → BitVec 8
  | 0 => m
  | n + 1 => fun x =>
    if x = p + BitVec.ofNat a n then (v >>> (8 * n)).setWidth 8 else write m p v n x

/-- Byte `i` of a word. -/
def byte (v : BitVec w) (i : Nat) : BitVec 8 := (v >>> (8 * i)).setWidth 8

theorem sub_toNat_offset (p x : BitVec a) {n : Nat} (hn : n < 2 ^ a) :
    x = p + BitVec.ofNat a n ↔ (x - p).toNat = n := by
  constructor
  · intro h
    subst h
    rw [BitVec.add_comm, BitVec.add_sub_cancel, BitVec.toNat_ofNat, Nat.mod_eq_of_lt hn]
  · intro h
    have hx : x - p = BitVec.ofNat a n := by
      apply BitVec.eq_of_toNat_eq
      rw [h, BitVec.toNat_ofNat, Nat.mod_eq_of_lt hn]
    rw [← hx, BitVec.add_comm, BitVec.sub_add_cancel]

theorem offset_toNat (p : BitVec a) {n : Nat} (hn : n < 2 ^ a) :
    (p + BitVec.ofNat a n - p).toNat = n :=
  (sub_toNat_offset p _ hn).mp rfl

/-- The addresses of the `n` bytes from `p` upwards. -/
def Covers (p : BitVec a) (n : Nat) (x : BitVec a) : Prop := ∃ i < n, x = p + BitVec.ofNat a i

theorem covers_iff {p x : BitVec a} {n : Nat} (hn : n ≤ 2 ^ a) :
    Covers p n x ↔ (x - p).toNat < n := by
  constructor
  · rintro ⟨i, hi, hx⟩
    rwa [(sub_toNat_offset p x (by omega)).mp hx]
  · intro h
    exact ⟨(x - p).toNat, h, (sub_toNat_offset p x (by omega)).mpr rfl⟩

/-- Two ranges with an address in common. -/
def Meets (p : BitVec a) (n : Nat) (q : BitVec a) (k : Nat) : Prop :=
  ∃ x, Covers p n x ∧ Covers q k x

/-- Where an address is `i` bytes after `p` and `j` after `q`, `q` is no more than
`i` after `p`. -/
theorem later_start {p q : BitVec a} {i j : Nat} (hij : j ≤ i) (hi : i < 2 ^ a)
    (h : p + BitVec.ofNat a i = q + BitVec.ofNat a j) : (q - p).toNat = i - j := by
  refine (sub_toNat_offset p q (by omega)).mp ((BitVec.add_left_inj (BitVec.ofNat a j)).mp ?_)
  rw [BitVec.add_assoc, ← BitVec.ofNat_add, Nat.sub_add_cancel hij, h]

/-- Of two ranges that meet one starts inside the other. -/
theorem meets_iff {p q : BitVec a} {n k : Nat} (hn : n ≤ 2 ^ a) (hk : k ≤ 2 ^ a) :
    Meets p n q k ↔ 0 < n ∧ 0 < k ∧ ((q - p).toNat < n ∨ (p - q).toNat < k) := by
  constructor
  · rintro ⟨x, ⟨i, hi, hp⟩, ⟨j, hj, hq⟩⟩
    refine ⟨by omega, by omega, ?_⟩
    have hx := hp.symm.trans hq
    rcases Nat.le_total j i with hij | hij
    · have hlater := later_start hij (by omega) hx
      exact Or.inl (by omega)
    · have hlater := later_start hij (by omega) hx.symm
      exact Or.inr (by omega)
  · rintro ⟨hn0, hk0, h | h⟩
    · exact ⟨q, (covers_iff hn).mpr h, ⟨0, hk0, by simp⟩⟩
    · exact ⟨p, ⟨0, hn0, by simp⟩, (covers_iff hk).mpr h⟩

/-- A write sets the `n` bytes of its range and no others. -/
theorem write_apply (m : BitVec a → BitVec 8) (p : BitVec a) (v : BitVec w) (n : Nat)
    (hn : n ≤ 2 ^ a) (x : BitVec a) :
    write m p v n x = if (x - p).toNat < n then byte v (x - p).toNat else m x := by
  induction n with
  | zero => simp [write]
  | succ n ih =>
    simp only [write]
    by_cases hx : x = p + BitVec.ofNat a n
    · have hd := (sub_toNat_offset p x (by omega)).mp hx
      rw [if_pos hx, if_pos (by omega), hd]
      rfl
    · have hd : (x - p).toNat ≠ n := fun h => hx ((sub_toNat_offset p x (by omega)).mpr h)
      rw [if_neg hx, ih (by omega)]
      by_cases hlt : (x - p).toNat < n
      · rw [if_pos hlt, if_pos (by omega)]
      · rw [if_neg hlt, if_neg (by omega)]

theorem write_inside (m : BitVec a → BitVec 8) (p : BitVec a) (v : BitVec w) {n i : Nat}
    (hn : n ≤ 2 ^ a) (hi : i < n) : write m p v n (p + BitVec.ofNat a i) = byte v i := by
  rw [write_apply m p v n hn, offset_toNat p (by omega), if_pos hi]

theorem write_outside (m : BitVec a → BitVec 8) (p : BitVec a) (v : BitVec w) {n : Nat}
    (hn : n ≤ 2 ^ a) {x : BitVec a} (hx : n ≤ (x - p).toNat) : write m p v n x = m x := by
  rw [write_apply m p v n hn, if_neg (by omega)]

theorem read_getLsbD (m : BitVec a → BitVec 8) (p : BitVec a) (n i : Nat) :
    (read w m p n).getLsbD i =
      (decide (i < 8 * n) && decide (i < w) && (m (p + BitVec.ofNat a (i / 8))).getLsbD (i % 8)) := by
  induction n with
  | zero => simp [read]
  | succ n ih =>
    simp only [read, BitVec.getLsbD_or, ih, BitVec.getLsbD_shiftLeft, BitVec.getLsbD_setWidth]
    by_cases hw : i < w
    · by_cases hlt : i < 8 * n
      · simp [hw, hlt, show i < 8 * (n + 1) by omega]
      · by_cases htop : i < 8 * (n + 1)
        · have hq : i / 8 = n := by omega
          have hr : i - 8 * n = i % 8 := by omega
          simp [hw, hlt, htop, hq, hr, show i % 8 < w by omega]
        · have hz : (m (p + BitVec.ofNat a n)).getLsbD (i - 8 * n) = false :=
            BitVec.getLsbD_of_ge _ _ (by omega)
          simp [hlt, htop, hz]
    · simp [hw]

/-- Byte `i` of a word read is the byte of the map at `p + i`. -/
theorem byte_read (m : BitVec a → BitVec 8) (p : BitVec a) {n i : Nat} (hi : i < n)
    (hw : 8 * n ≤ w) : byte (read w m p n) i = m (p + BitVec.ofNat a i) := by
  apply BitVec.eq_of_getLsbD_eq
  intro j hj
  have hq : (8 * i + j) / 8 = i := by omega
  have hr : (8 * i + j) % 8 = j := by omega
  have hlt : 8 * i + j < 8 * n := by omega
  simp only [byte, BitVec.getLsbD_setWidth, BitVec.getLsbD_ushiftRight, read_getLsbD, hq, hr]
  simp [hj, hlt, show 8 * i + j < w by omega]

/-- A word is determined by the bytes it is read from. -/
theorem read_congr {m m' : BitVec a → BitVec 8} {p q : BitVec a} {n : Nat}
    (h : ∀ i < n, m (p + BitVec.ofNat a i) = m' (q + BitVec.ofNat a i)) :
    read w m p n = read w m' q n := by
  induction n with
  | zero => rfl
  | succ n ih =>
    simp only [read]
    rw [ih (fun i hi => h i (by omega)), h n (by omega)]

/-- Reading back a word that fills its type gives the word. -/
theorem read_write (m : BitVec a → BitVec 8) (p : BitVec a) (v : BitVec w) {n : Nat}
    (hn : n ≤ 2 ^ a) (hw : w = 8 * n) : read w (write m p v n) p n = v := by
  apply BitVec.eq_of_getLsbD_eq
  intro i hi
  have hq : i / 8 < n := by omega
  have hr : 8 * (i / 8) + i % 8 = i := by omega
  rw [read_getLsbD, write_inside m p v hn hq]
  simp [byte, hr, hi, show i < 8 * n by omega, show i % 8 < 8 by omega]

/-- Writing back the bytes just read changes nothing. -/
theorem write_read (m : BitVec a → BitVec 8) (p : BitVec a) {n : Nat}
    (hn : n ≤ 2 ^ a) (hw : 8 * n ≤ w) : write m p (read w m p n) n = m := by
  funext x
  rw [write_apply m p _ n hn]
  split
  · rename_i hx
    rw [byte_read m p hx hw]
    congr 1
    exact ((sub_toNat_offset p x (by omega)).mpr rfl).symm
  · rfl

/-- The second of two writes to a range is what counts. -/
theorem write_write (m : BitVec a → BitVec 8) (p : BitVec a) (v v' : BitVec w) {n : Nat}
    (hn : n ≤ 2 ^ a) : write (write m p v n) p v' n = write m p v' n := by
  funext x
  simp only [write_apply _ _ _ _ hn]
  split <;> rfl

/-- Writes to ranges without a common byte commute. -/
theorem write_comm (m : BitVec a → BitVec 8) {p q : BitVec a} (v : BitVec w) {u : Nat}
    (v' : BitVec u) {n k : Nat} (hn : n ≤ 2 ^ a) (hk : k ≤ 2 ^ a)
    (h : ∀ x : BitVec a, (x - p).toNat < n → k ≤ (x - q).toNat) :
    write (write m p v n) q v' k = write (write m q v' k) p v n := by
  funext x
  simp only [write_apply _ _ _ _ hn, write_apply _ _ _ _ hk]
  by_cases hp : (x - p).toNat < n
  · have hq := h x hp
    rw [if_pos hp, if_pos hp, if_neg (by omega)]
  · rw [if_neg hp, if_neg hp]

/-- A write leaves what is read of a range without a common byte. -/
theorem read_write_other (m : BitVec a → BitVec 8) {p q : BitVec a} {u : Nat} (v : BitVec u)
    {n k : Nat} (hn : n ≤ 2 ^ a) (hk : k ≤ 2 ^ a)
    (h : ∀ x : BitVec a, (x - q).toNat < k → n ≤ (x - p).toNat) :
    read w (write m p v n) q k = read w m q k := by
  refine read_congr fun i hi => ?_
  refine write_outside m p v hn (h _ ?_)
  rw [offset_toNat q (by omega)]
  exact hi

/-- The width of the word read does not matter once its bytes fit. -/
theorem read_set_width {u : Nat} (m : BitVec a → BitVec 8) (p : BitVec a) {n : Nat}
    (hw : 8 * n ≤ w) : (read w m p n).setWidth u = read u m p n := by
  apply BitVec.eq_of_getLsbD_eq
  intro i hi
  rw [BitVec.getLsbD_setWidth, read_getLsbD, read_getLsbD]
  by_cases hn : i < 8 * n
  · simp [hi, hn, show i < w by omega]
  · simp [hn]

theorem byte_set_width {u : Nat} (v : BitVec w) {i : Nat} (hu : 8 * i + 8 ≤ u) :
    byte (v.setWidth u) i = byte v i := by
  apply BitVec.eq_of_getLsbD_eq
  intro j hj
  simp only [byte, BitVec.getLsbD_setWidth, BitVec.getLsbD_ushiftRight]
  simp [show 8 * i + j < u by omega]

/-- Only the bytes that are written matter. -/
theorem write_set_width {u : Nat} (m : BitVec a → BitVec 8) (p : BitVec a) (v : BitVec w) {n : Nat}
    (hn : n ≤ 2 ^ a) (hu : 8 * n ≤ u) : write m p (v.setWidth u) n = write m p v n := by
  funext x
  rw [write_apply m p _ n hn, write_apply m p _ n hn]
  by_cases hx : (x - p).toNat < n
  · rw [if_pos hx, if_pos hx, byte_set_width v (by omega)]
  · rw [if_neg hx, if_neg hx]

theorem add_sub_right_comm (p q b : BitVec a) : p + q - b = p - b + q := by
  rw [BitVec.sub_eq_add_neg, BitVec.sub_eq_add_neg, BitVec.add_assoc, BitVec.add_assoc,
    BitVec.add_comm q]

/-- Reading a map that starts at `b`. -/
theorem read_based (m : BitVec a → BitVec 8) (b p : BitVec a) (n : Nat) :
    read w (fun x => m (x - b)) p n = read w m (p - b) n := by
  refine read_congr fun i _ => ?_
  rw [add_sub_right_comm]

/-- Writing to a map that starts at `b`. -/
theorem write_based (m : BitVec a → BitVec 8) (b p : BitVec a) (v : BitVec w) (n : Nat) :
    write (fun x => m (x - b)) p v n = fun x => write m (p - b) v n (x - b) := by
  induction n with
  | zero => rfl
  | succ n ih =>
    funext x
    have he : x = p + BitVec.ofNat a n ↔ x - b = p - b + BitVec.ofNat a n := by
      rw [← add_sub_right_comm, BitVec.sub_left_inj]
    simp only [write, ih, he]

/-- The map after a row of bytes has been put at `p` and upwards. -/
def store (m : BitVec a → BitVec 8) (p : BitVec a) : List (BitVec 8) → BitVec a → BitVec 8
  | [] => m
  | b :: bytes => store (fun x => if x = p then b else m x) (p + 1) bytes

theorem offset_succ (p : BitVec a) (i : Nat) :
    p + BitVec.ofNat a (i + 1) = p + 1 + BitVec.ofNat a i := by
  rw [Nat.add_comm, BitVec.ofNat_add, ← BitVec.add_assoc]
  rfl

/-- Storing a row leaves the addresses that are none of its own. -/
theorem store_outside (m : BitVec a → BitVec 8) (p : BitVec a) (bytes : List (BitVec 8))
    {x : BitVec a} (hx : ¬ Covers p bytes.length x) : store m p bytes x = m x := by
  induction bytes generalizing m p with
  | nil => rfl
  | cons b bytes ih =>
    have hne : x ≠ p := fun h => hx ⟨0, by simp, by simp [h]⟩
    have hrest : ¬ Covers (p + 1) bytes.length x := by
      rintro ⟨i, hi, he⟩
      exact hx ⟨i + 1, by simpa using hi, by rw [he, offset_succ]⟩
    rw [store, ih _ _ hrest, if_neg hne]

/-- A row that does not meet its own beginning again is read back as it was stored. -/
theorem store_inside (m : BitVec a → BitVec 8) (p : BitVec a) {bytes : List (BitVec 8)}
    (hn : bytes.length ≤ 2 ^ a) {i : Nat} (hi : i < bytes.length) :
    store m p bytes (p + BitVec.ofNat a i) = bytes[i] := by
  induction bytes generalizing m p i with
  | nil => simp at hi
  | cons b bytes ih =>
    have hlen : bytes.length + 1 ≤ 2 ^ a := by simpa using hn
    cases i with
    | zero =>
      have hout : ¬ Covers (p + 1) bytes.length (p + BitVec.ofNat a 0) := by
        rintro ⟨j, hj, he⟩
        have hback : p + BitVec.ofNat a 0 = p + BitVec.ofNat a (j + 1) := by
          rw [offset_succ, he]
        have := (sub_toNat_offset p _ (by omega)).mp hback
        have := offset_toNat p (show 0 < 2 ^ a by omega)
        omega
      rw [store, store_outside _ _ _ hout]
      simp
    | succ i =>
      rw [offset_succ, store]
      exact ih _ _ (by omega) (by simpa using hi)

theorem store_apply (m : BitVec a → BitVec 8) (p : BitVec a) {bytes : List (BitVec 8)}
    (hn : bytes.length ≤ 2 ^ a) (x : BitVec a) :
    store m p bytes x =
      if h : (x - p).toNat < bytes.length then bytes[(x - p).toNat] else m x := by
  split
  · rename_i h
    have hx := (sub_toNat_offset p x (by omega)).mpr (rfl : (x - p).toNat = _)
    have hin := store_inside m p hn h
    rwa [← hx] at hin
  · rename_i h
    exact store_outside m p bytes fun hc => h ((covers_iff hn).mp hc)

end ByteMap
