import Mathlib.Tactic.Ring
import GEngine.Pb.CodedStream

/-!
# GEngine.Pb.Varint

All ways in which the coded streams read a base-128 integer read the same one, and all ways
in which they write one write its shortest form.

The readers collect digits in words of 32 and 64 bits.  The arguments are made in the ring
of the word's type, where a digit at index `i` counts `128 ^ i` times and what does not fit
is dropped by itself.
-/

namespace GEngine

namespace Pb

open Varint

/-! ## The unrolled readers -/

section

variable {σ α : Type} {add : Nat → σ → UInt8 → σ} {more : Nat → σ → σ} {value : σ → α}
  {bs rest : List UInt8} {i v n : Nat} {result : σ}

/-- What an unrolled reader has to do with a byte at index `i`: `R i result n` says that the
result stands for `n` after `i` bytes, and `ofNat` is the value of a number. -/
structure Collects (add : Nat → σ → UInt8 → σ) (more : Nat → σ → σ) (value : σ → α)
    (ofNat : Nat → α) (R : Nat → σ → Nat → Prop) : Prop where
  last : ∀ i result n (b : UInt8), i < kMaxVarintBytes → R i result n → b < 128 →
    value (add i result b) = ofNat (n + b.toNat * 128 ^ i)
  more : ∀ i result n (b : UInt8), i < kMaxVarintBytes → R i result n → ¬ b < 128 →
    R (i + 1) (more i (add i result b)) (n + (b.toNat - 128) * 128 ^ i)

/-- An unrolled reader reads what `decode` reads. -/
theorem readFromArrayAt_of_some {ofNat : Nat → α} {R : Nat → σ → Nat → Prop}
    (hc : Collects add more value ofNat R) (hi : i ≤ kMaxVarintBytes) (hR : R i result n)
    (h : decode (kMaxVarintBytes - i) bs = some (v, rest)) :
    readFromArrayAt add more value i result bs = .done (ofNat (n + v * 128 ^ i)) rest := by
  induction bs generalizing i result n v with
  | nil => simp at h
  | cons b bs ih =>
      cases hleft : kMaxVarintBytes - i with
      | zero => simp [hleft, decode] at h
      | succ k =>
          have hlt : i < kMaxVarintBytes := by omega
          have hnext : kMaxVarintBytes - (i + 1) = k := by omega
          rw [hleft] at h
          simp only [readFromArrayAt, if_neg (Nat.ne_of_lt hlt), and_high_eq_zero_iff]
          by_cases hb : b < 128
          · rw [decode_last hb] at h
            cases h
            rw [if_pos hb, hc.last i result n b hlt hR hb]
          · rw [decode_more hb, Option.map_eq_some_iff] at h
            obtain ⟨⟨v', rest'⟩, hrec, heq⟩ := h
            cases heq
            rw [← hnext] at hrec
            rw [if_neg hb, ih hlt (hc.more i result n b hlt hR hb) hrec]
            congr 2
            rw [Nat.pow_succ]
            ring

/-- A reader that ends with a value has read an integer. -/
theorem exists_decode_of_done {x : α} (hi : i ≤ kMaxVarintBytes)
    (h : readFromArrayAt add more value i result bs = .done x rest) :
    ∃ v, decode (kMaxVarintBytes - i) bs = some (v, rest) := by
  induction bs generalizing i result with
  | nil =>
      rw [readFromArrayAt] at h
      split at h <;> cases h
  | cons b bs ih =>
      by_cases hten : i = kMaxVarintBytes
      · simp [readFromArrayAt, hten] at h
      · obtain ⟨k, hleft⟩ : ∃ k, kMaxVarintBytes - i = k + 1 :=
          Nat.exists_eq_succ_of_ne_zero (by omega)
        have hnext : kMaxVarintBytes - (i + 1) = k := by omega
        simp only [readFromArrayAt, if_neg hten, and_high_eq_zero_iff] at h
        rw [hleft]
        by_cases hb : b < 128
        · rw [if_pos hb] at h
          cases h
          exact ⟨_, decode_last hb⟩
        · rw [if_neg hb] at h
          obtain ⟨v, hv⟩ := ih (by omega) h
          rw [hnext] at hv
          exact ⟨_, by rw [decode_more hb, hv, Option.map_some]⟩

/-- A reader leaves the buffer only if it is short and none of its bytes ends an integer. -/
theorem short_of_overrun (hi : i ≤ kMaxVarintBytes)
    (h : readFromArrayAt add more value i result bs = .overrun) :
    bs.length < kMaxVarintBytes - i ∧ ∀ b ∈ bs, ¬ b < 128 := by
  induction bs generalizing i result with
  | nil =>
      rw [readFromArrayAt] at h
      split at h
      · cases h
      · refine ⟨?_, by simp⟩
        rw [List.length_nil]
        omega
  | cons b bs ih =>
      by_cases hten : i = kMaxVarintBytes
      · simp [readFromArrayAt, hten] at h
      · simp only [readFromArrayAt, if_neg hten, and_high_eq_zero_iff] at h
        by_cases hb : b < 128
        · rw [if_pos hb] at h
          cases h
        · rw [if_neg hb] at h
          obtain ⟨hlen, hall⟩ := ih (by omega) h
          refine ⟨?_, List.forall_mem_cons.mpr ⟨hb, hall⟩⟩
          rw [List.length_cons]
          omega

end

/-! ## 32 bits -/

section

variable {i : Nat}

theorem toUInt32_eq (b : UInt8) : b.toUInt32 = UInt32.ofNat b.toNat := by
  rw [← UInt32.toNat_inj, UInt8.toNat_toUInt32, UInt32.toNat_ofNat']
  have := b.toNat_lt
  omega

theorem pow_seven_mul (i : Nat) : 2 ^ (7 * i) = 128 ^ i := by
  rw [Nat.pow_mul]

/-- From the fifth digit on nothing is left in 32 bits. -/
theorem ofNat_pow_eq_zero (h : kMaxVarint32Bytes ≤ i) : UInt32.ofNat (128 ^ i) = 0 := by
  obtain ⟨j, rfl⟩ := Nat.exists_eq_add_of_le h
  have hfive : UInt32.ofNat (128 ^ kMaxVarint32Bytes) = 0 := by decide
  rw [Nat.pow_add, UInt32.ofNat_mul, hfive]
  simp

/-- A byte is added at its place. -/
theorem add32_eq (i : Nat) (result : UInt32) (b : UInt8) :
    add32 i result b = result + UInt32.ofNat (b.toNat * 128 ^ i) := by
  unfold add32
  split
  · rename_i hi
    unfold kMaxVarint32Bytes at hi
    rw [shiftLeft_32 _ (by omega), pow_seven_mul, toUInt32_eq, ← UInt32.ofNat_mul]
  · rename_i hi
    rw [UInt32.ofNat_mul, ofNat_pow_eq_zero (by omega)]
    simp

/-- Its high bit is taken off. -/
theorem more32_eq (i : Nat) (result : UInt32) :
    more32 i result = result - UInt32.ofNat (128 * 128 ^ i) := by
  unfold more32
  split
  · rename_i hi
    unfold kMaxVarint32Bytes at hi
    rw [shiftLeft_32 _ (by omega), pow_seven_mul, UInt32.ofNat_mul]
    rfl
  · rename_i hi
    rw [← Nat.pow_succ', ofNat_pow_eq_zero (by omega)]
    simp

/-- The 32-bit reader stands for its number up to `2 ^ 32`. -/
theorem collects32 : Collects add32 more32 id UInt32.ofNat
    fun _ result n => result = UInt32.ofNat n where
  last i result n b _ hR _ := by
    rw [id, add32_eq, hR, UInt32.ofNat_add]
  more i result n b _ hR hb := by
    obtain ⟨c, hc⟩ : ∃ c, b.toNat = c + 128 :=
      ⟨_, (Nat.sub_add_cancel (le_toNat_of_not_lt hb)).symm⟩
    rw [more32_eq, add32_eq, hR, hc, Nat.add_sub_cancel, Nat.add_mul, UInt32.ofNat_add,
      UInt32.ofNat_add]
    grind

end

/-- The unrolled read of 32 bits. -/
theorem readVarint32FromArray_of_some {bs rest : List UInt8} {v : Nat}
    (h : decode kMaxVarintBytes bs = some (v, rest)) :
    readVarint32FromArray bs = .done (UInt32.ofNat v) rest := by
  have hread := readFromArrayAt_of_some collects32 (Nat.zero_le _)
    (show (0 : UInt32) = UInt32.ofNat 0 from rfl) h
  simpa [readVarint32FromArray] using hread

/-! ## 64 bits -/

section

variable {i n : Nat} {p : Parts} {b : UInt8}

/-- What the three pieces stand for. -/
structure Parts.Means (p : Parts) (i n : Nat) : Prop where
  lt : n < 128 ^ i
  part0 : p.part0.toNat = n % 2 ^ 28
  part1 : p.part1.toNat = n / 2 ^ 28 % 2 ^ 28
  part2 : p.part2.toNat = n / 2 ^ 56

/-- A digit at one of the first four places stays below the next place. -/
theorem digit_add_le (hb : b < 128) (h : i < 4) : b.toNat * 128 ^ i + 128 ^ i ≤ 2 ^ 28 := by
  have hpow : 128 ^ (i + 1) ≤ 128 ^ 4 := Nat.pow_le_pow_right (by decide) h
  have hmul : (b.toNat + 1) * 128 ^ i ≤ 128 * 128 ^ i :=
    Nat.mul_le_mul_right _ (toNat_lt_of_lt hb)
  rw [Nat.pow_succ'] at hpow
  rw [Nat.add_mul, Nat.one_mul] at hmul
  exact hmul.trans hpow

/-- What a byte adds to its piece. -/
theorem toNat_digit (hb : b < 128) (h : i < 4) :
    (b.toUInt32 <<< UInt32.ofNat (7 * i)).toNat = b.toNat * 128 ^ i := by
  have hle : b.toNat * 128 ^ i ≤ 2 ^ 28 := (Nat.le_add_right _ _).trans (digit_add_le hb h)
  rw [shiftLeft_32 _ (by omega), pow_seven_mul, toUInt32_eq, ← UInt32.ofNat_mul,
    UInt32.toNat_ofNat', Nat.mod_eq_of_lt (by omega)]

/-- A byte in one piece leaves the other two as they are. -/
theorem pieces_add {d : Nat} (h : n + d < 2 ^ 28) :
    (n % 2 ^ 28 + d) % 2 ^ 32 = (n + d) % 2 ^ 28 ∧
      n / 2 ^ 28 % 2 ^ 28 = (n + d) / 2 ^ 28 % 2 ^ 28 ∧ n / 2 ^ 56 = (n + d) / 2 ^ 56 := by
  omega

theorem pieces_add_second {d : Nat} (h : n / 2 ^ 28 + d < 2 ^ 28) :
    n % 2 ^ 28 = (n + d * 2 ^ 28) % 2 ^ 28 ∧
      (n / 2 ^ 28 % 2 ^ 28 + d) % 2 ^ 32 = (n + d * 2 ^ 28) / 2 ^ 28 % 2 ^ 28 ∧
      n / 2 ^ 56 = (n + d * 2 ^ 28) / 2 ^ 56 := by
  omega

theorem pieces_add_third {d : Nat} (h : n / 2 ^ 56 + d < 2 ^ 28) :
    n % 2 ^ 28 = (n + d * 2 ^ 56) % 2 ^ 28 ∧
      n / 2 ^ 28 % 2 ^ 28 = (n + d * 2 ^ 56) / 2 ^ 28 % 2 ^ 28 ∧
      (n / 2 ^ 56 + d) % 2 ^ 32 = (n + d * 2 ^ 56) / 2 ^ 56 := by
  omega

/-- A byte is added to the piece that its index is in. -/
theorem Parts.means_add (hi : i < kMaxVarintBytes) (h : p.Means i n) (hb : b < 128) :
    (Parts.add i p b).Means (i + 1) (n + b.toNat * 128 ^ i) := by
  obtain ⟨hlt, h0, h1, h2⟩ := h
  have hnext : n + b.toNat * 128 ^ i < 128 ^ (i + 1) := by
    have hbyte : b.toNat * 128 ^ i ≤ 127 * 128 ^ i :=
      Nat.mul_le_mul_right _ (Nat.le_of_lt_succ (toNat_lt_of_lt hb))
    rw [Nat.pow_succ]
    omega
  unfold kMaxVarintBytes at hi
  unfold Parts.add
  -- `j` is the place in the piece, and the piece is at `2 ^ 28` or `2 ^ 56` in the number
  split
  · rename_i h4
    obtain ⟨e0, e1, e2⟩ := pieces_add (n := n) (d := b.toNat * 128 ^ i)
      (by have := digit_add_le hb h4; omega)
    exact ⟨hnext, by rw [UInt32.toNat_add, toNat_digit hb h4, h0, e0], h1.trans e1, h2.trans e2⟩
  · split
    · rename_i h4 h8
      obtain ⟨j, rfl⟩ := Nat.exists_eq_add_of_le' (Nat.not_lt.mp h4)
      have hj : j < 4 := by omega
      have hpow : 128 ^ (j + 4) = 128 ^ j * 2 ^ 28 := Nat.pow_add 128 j 4
      rw [hpow] at hlt
      rw [hpow, ← Nat.mul_assoc] at hnext ⊢
      have hdiv : n / 2 ^ 28 < 128 ^ j := Nat.div_lt_of_lt_mul (by rwa [Nat.mul_comm])
      obtain ⟨e0, e1, e2⟩ := pieces_add_second (n := n) (d := b.toNat * 128 ^ j)
        (by have := digit_add_le hb hj; omega)
      refine ⟨hnext, h0.trans e0, ?_, h2.trans e2⟩
      rw [Nat.add_sub_cancel, UInt32.toNat_add, toNat_digit hb hj, h1, e1]
    · rename_i h4 h8
      obtain ⟨j, rfl⟩ := Nat.exists_eq_add_of_le' (Nat.not_lt.mp h8)
      have hj : j < 4 := by omega
      have hpow : 128 ^ (j + 8) = 128 ^ j * 2 ^ 56 := Nat.pow_add 128 j 8
      rw [hpow] at hlt
      rw [hpow, ← Nat.mul_assoc] at hnext ⊢
      have hdiv : n / 2 ^ 56 < 128 ^ j := Nat.div_lt_of_lt_mul (by rwa [Nat.mul_comm])
      obtain ⟨e0, e1, e2⟩ := pieces_add_third (n := n) (d := b.toNat * 128 ^ j)
        (by have := digit_add_le hb hj; omega)
      refine ⟨hnext, h0.trans e0, h1.trans e1, ?_⟩
      rw [Nat.add_sub_cancel, UInt32.toNat_add, toNat_digit hb hj, h2, e2]

theorem toNat_sub_high (hb : ¬ b < 128) : (b - 128).toNat = b.toNat - 128 :=
  UInt8.toNat_sub_of_le _ _ (UInt8.not_lt.mp hb)

theorem sub_high_lt (hb : ¬ b < 128) : b - 128 < 128 := by
  have := b.toNat_lt
  rw [UInt8.lt_iff_toNat_lt, toNat_sub_high hb]
  simp only [UInt8.reduceToNat]
  omega

/-- Taking the high bit out again leaves what the low bits add. -/
theorem Parts.more_add (hi : i + 1 < kMaxVarintBytes) (p : Parts) (hb : ¬ b < 128) :
    Parts.more i (Parts.add i p b) = Parts.add i p (b - 128) := by
  have hlow : (b - 128).toUInt32 = b.toUInt32 - 128 := by
    have hge := le_toNat_of_not_lt hb
    rw [toUInt32_eq, toUInt32_eq, toNat_sub_high hb, UInt32.ofNat_sub hge]
    rfl
  have hshift : ∀ k < 4, ∀ x : UInt32,
      x + b.toUInt32 <<< UInt32.ofNat (7 * k) - (0x80 : UInt32) <<< UInt32.ofNat (7 * k) =
        x + (b - 128).toUInt32 <<< UInt32.ofNat (7 * k) := by
    intro k hk x
    rw [shiftLeft_32 _ (by omega), shiftLeft_32 _ (by omega), shiftLeft_32 _ (by omega), hlow]
    grind
  unfold kMaxVarintBytes at hi
  unfold Parts.more Parts.add
  split
  · rename_i h4
    simp only [hshift i h4]
  · split
    · rename_i h4 h8
      simp only [hshift (i - 4) (by omega)]
    · rename_i h4 h8
      simp only [hshift (i - 8) (by omega), if_pos (show i < 9 by omega)]

/-- The value of the pieces. -/
theorem Parts.value_of_means (h : p.Means i n) : p.value = UInt64.ofNat n := by
  have h0 : p.part0.toUInt64 = UInt64.ofNat (n % 2 ^ 28) := by
    rw [← UInt64.toNat_inj, UInt32.toNat_toUInt64, h.part0, UInt64.toNat_ofNat']
    omega
  have h1 : p.part1.toUInt64 = UInt64.ofNat (n / 2 ^ 28 % 2 ^ 28) := by
    rw [← UInt64.toNat_inj, UInt32.toNat_toUInt64, h.part1, UInt64.toNat_ofNat']
    omega
  have h2 : p.part2.toUInt64 = UInt64.ofNat (n / 2 ^ 56) := by
    rw [← UInt64.toNat_inj, UInt32.toNat_toUInt64, ← h.part2, UInt64.toNat_ofNat']
    have := p.part2.toNat_lt
    omega
  have hlow : p.part0.toUInt64 ||| p.part1.toUInt64 <<< UInt64.ofNat 28 =
      UInt64.ofNat (n % 2 ^ 56) := by
    rw [or_shiftLeft_64 _ _ (by omega), h0, h1, ← UInt64.ofNat_mul, ← UInt64.ofNat_add]
    · congr 1
      omega
    · rw [UInt32.toNat_toUInt64, h.part0]
      omega
  have hfit : (UInt64.ofNat (n % 2 ^ 56)).toNat < 2 ^ 56 := by
    rw [UInt64.toNat_ofNat']
    omega
  unfold Parts.value
  rw [hlow, or_shiftLeft_64 _ _ (by omega) hfit, h2, ← UInt64.ofNat_mul, ← UInt64.ofNat_add]
  congr 1
  omega

/-- The three pieces collect the digits of a number. -/
theorem collects64 : Collects Parts.add Parts.more Parts.value UInt64.ofNat
    fun i p n => i < kMaxVarintBytes → p.Means i n where
  last i p n b hi hR hb := Parts.value_of_means (Parts.means_add hi (hR hi) hb)
  more i p n b hi hR hb hnext := by
    have hmeans := Parts.means_add hi (hR hi) (sub_high_lt hb)
    rw [toNat_sub_high hb] at hmeans
    rw [Parts.more_add hnext p hb]
    exact hmeans

end

/-- The unrolled read of 64 bits. -/
theorem readVarint64FromArray_of_some {bs rest : List UInt8} {v : Nat}
    (h : decode kMaxVarintBytes bs = some (v, rest)) :
    readVarint64FromArray bs = .done (UInt64.ofNat v) rest := by
  have hzero : Parts.Means ⟨0, 0, 0⟩ 0 0 := ⟨by simp, rfl, rfl, rfl⟩
  have hread := readFromArrayAt_of_some collects64 (Nat.zero_le _) (fun _ => hzero) h
  simpa [readVarint64FromArray] using hread

/-! ## The loop with a check -/

section

variable {bs rest : List UInt8} {i v : Nat} {result : UInt64}

/-- What a byte adds at index `i`. -/
theorem or_digit (hi : i < kMaxVarintBytes) (hlt : result.toNat < 128 ^ i) (b : UInt8) :
    result ||| (b &&& 0x7F).toUInt64 <<< UInt64.ofNat (7 * i) =
      result + UInt64.ofNat (b.toNat % 128 * 128 ^ i) := by
  have hdigit : (b &&& 0x7F).toUInt64 = UInt64.ofNat (b.toNat % 128) := by
    rw [← UInt64.toNat_inj, UInt8.toNat_toUInt64, toNat_and_low, UInt64.toNat_ofNat']
    omega
  unfold kMaxVarintBytes at hi
  rw [← pow_seven_mul] at hlt ⊢
  rw [or_shiftLeft_64 _ _ (by omega) hlt, hdigit, ← UInt64.ofNat_mul]

/-- The digits so far stay below the next place. -/
theorem toNat_add_digit_lt (hlt : result.toNat < 128 ^ i) (b : UInt8) :
    (result + UInt64.ofNat (b.toNat % 128 * 128 ^ i)).toNat < 128 ^ (i + 1) := by
  have hdigit : b.toNat % 128 * 128 ^ i ≤ 127 * 128 ^ i :=
    Nat.mul_le_mul_right _ (by omega)
  have hle : (result + UInt64.ofNat (b.toNat % 128 * 128 ^ i)).toNat ≤
      result.toNat + b.toNat % 128 * 128 ^ i := by
    rw [UInt64.toNat_add, UInt64.toNat_ofNat', Nat.add_mod_mod]
    exact Nat.mod_le _ _
  rw [Nat.pow_succ]
  omega

/-- The loop reads what `decode` reads. -/
theorem readVarint64SlowAt_of_some (hlt : result.toNat < 128 ^ i)
    (h : decode (kMaxVarintBytes - i) bs = some (v, rest)) :
    CodedInputStream.readVarint64SlowAt i result bs =
      (some (result + UInt64.ofNat (v * 128 ^ i)), rest) := by
  induction bs generalizing i result v with
  | nil => simp at h
  | cons b bs ih =>
      cases hleft : kMaxVarintBytes - i with
      | zero => simp [hleft, decode] at h
      | succ k =>
          have hi : i < kMaxVarintBytes := by omega
          have hnext : kMaxVarintBytes - (i + 1) = k := by omega
          rw [hleft] at h
          simp only [CodedInputStream.readVarint64SlowAt, if_neg (Nat.ne_of_lt hi),
            and_high_eq_zero_iff, or_digit hi hlt]
          by_cases hb : b < 128
          · rw [decode_last hb] at h
            cases h
            rw [if_pos hb, Nat.mod_eq_of_lt (toNat_lt_of_lt hb)]
          · rw [decode_more hb, Option.map_eq_some_iff] at h
            obtain ⟨⟨v', rest'⟩, hrec, heq⟩ := h
            cases heq
            rw [← hnext] at hrec
            have hge := le_toNat_of_not_lt hb
            have hbyte := b.toNat_lt
            have hmod : b.toNat % 128 = b.toNat - 128 := by omega
            rw [if_neg hb, ih (toNat_add_digit_lt hlt b) hrec, hmod]
            simp only [Prod.mk.injEq, Option.some.injEq, and_true, Nat.add_mul, Nat.pow_succ,
              UInt64.ofNat_add, UInt64.ofNat_mul]
            grind

/-- The loop fails where there is no integer. -/
theorem readVarint64SlowAt_of_none (hi : i ≤ kMaxVarintBytes)
    (h : decode (kMaxVarintBytes - i) bs = none) :
    (CodedInputStream.readVarint64SlowAt i result bs).1 = none := by
  induction bs generalizing i result with
  | nil => rfl
  | cons b bs ih =>
      by_cases hten : i = kMaxVarintBytes
      · simp [CodedInputStream.readVarint64SlowAt, hten]
      · obtain ⟨k, hleft⟩ : ∃ k, kMaxVarintBytes - i = k + 1 :=
          Nat.exists_eq_succ_of_ne_zero (by omega)
        have hnext : kMaxVarintBytes - (i + 1) = k := by omega
        rw [hleft] at h
        by_cases hb : b < 128
        · rw [decode_last hb] at h
          cases h
        · rw [decode_more hb, Option.map_eq_none_iff, ← hnext] at h
          simp only [CodedInputStream.readVarint64SlowAt, if_neg hten, and_high_eq_zero_iff,
            if_neg hb]
          exact ih (by omega) h

end

/-! ## The stream -/

namespace CodedInputStream

variable {s : CodedInputStream} {b : UInt8} {rest : List UInt8} {v : Nat}

/-- **Unrolled reads stay in the buffer**: if ten bytes are left or the last one ends an
integer, they never need the byte behind the last one. -/
theorem unchecked_ne_overrun (h : s.unchecked = true) :
    readVarint32FromArray s.buffer ≠ .overrun ∧ readVarint64FromArray s.buffer ≠ .overrun := by
  have hno : ¬ (s.buffer.length < kMaxVarintBytes - 0 ∧ ∀ b ∈ s.buffer, ¬ b < 128) := by
    rintro ⟨hlen, hall⟩
    simp only [unchecked, bufferSize, Bool.or_eq_true, decide_eq_true_eq, Option.any_eq_true,
      and_high_eq_zero_iff] at h
    rcases h with hten | ⟨b, hlast, hb⟩
    · omega
    · exact hall b (List.mem_of_getLast? hlast) hb
  exact ⟨fun hover => hno (short_of_overrun (Nat.zero_le _) hover),
    fun hover => hno (short_of_overrun (Nat.zero_le _) hover)⟩

/-- Either way reads the integer. -/
theorem readVarint64Fallback_of_some (h : decode kMaxVarintBytes s.buffer = some (v, rest)) :
    s.readVarint64Fallback = (some (UInt64.ofNat v), { s with buffer := rest }) := by
  unfold readVarint64Fallback
  split
  · rw [readVarint64FromArray_of_some h]
  · have hslow := readVarint64SlowAt_of_some (show (0 : UInt64).toNat < 128 ^ 0 by simp) h
    simp [readVarint64Slow, hslow]

theorem readVarint64Fallback_of_none (h : decode kMaxVarintBytes s.buffer = none) :
    s.readVarint64Fallback.1 = none := by
  unfold readVarint64Fallback
  split
  · split
    · rename_i value rest hdone
      obtain ⟨v, hv⟩ := exists_decode_of_done (Nat.zero_le _) hdone
      rw [Nat.sub_zero, h] at hv
      cases hv
    · rfl
  · exact readVarint64SlowAt_of_none (Nat.zero_le _) h

/-- The 32-bit version reads its low half. -/
theorem readVarint32Fallback_of_some (h : decode kMaxVarintBytes s.buffer = some (v, rest)) :
    s.readVarint32Fallback = (some (UInt32.ofNat v), { s with buffer := rest }) := by
  unfold readVarint32Fallback
  split
  · rw [readVarint32FromArray_of_some h]
  · simp [readVarint32Slow, readVarint64Fallback_of_some h]

theorem readVarint32Fallback_of_none (h : decode kMaxVarintBytes s.buffer = none) :
    s.readVarint32Fallback.1 = none := by
  unfold readVarint32Fallback
  split
  · split
    · rename_i value rest hdone
      obtain ⟨v, hv⟩ := exists_decode_of_done (Nat.zero_le _) hdone
      rw [Nat.sub_zero, h] at hv
      cases hv
    · rfl
  · simp only [readVarint32Slow, readVarint64Fallback_of_none h, Option.map_none]

/-! ### The unrolled readers and the loop -/

section

variable {σ α : Type} {add : Nat → σ → UInt8 → σ} {more : Nat → σ → σ} {value : σ → α}

/-- Without an integer in front, a reader that stays in the buffer gives up. -/
theorem readFromArrayAt_of_none {bs : List UInt8} {result : σ}
    (hin : readFromArrayAt add more value 0 result bs ≠ .overrun)
    (h : decode kMaxVarintBytes bs = none) :
    readFromArrayAt add more value 0 result bs = .corrupt := by
  cases hread : readFromArrayAt add more value 0 result bs with
  | overrun => exact absurd hread hin
  | corrupt => rfl
  | done x rest =>
      obtain ⟨v, hv⟩ := exists_decode_of_done (Nat.zero_le _) hread
      rw [Nat.sub_zero, h] at hv
      cases hv

end

/-- What the loop ends with, as an outcome of an unrolled reader. -/
def ofLoop {α : Type} : Option α × List UInt8 → FromArray α
  | (some value, rest) => .done value rest
  | (none, _) => .corrupt

/-- **The unrolled readers read what the loop reads**: they find the same integer and stop
behind the same byte, they give up where the loop does, and so they stay in the buffer; the
32-bit one keeps the low bits. -/
theorem unrolled_eq_loop (s : CodedInputStream) (h : s.unchecked = true) :
    readVarint64FromArray s.buffer = ofLoop (readVarint64SlowAt 0 0 s.buffer) ∧
      readVarint32FromArray s.buffer =
        ofLoop ((readVarint64SlowAt 0 0 s.buffer).map (Option.map UInt64.toUInt32) id) := by
  obtain ⟨hin32, hin64⟩ := unchecked_ne_overrun h
  cases hdecode : decode kMaxVarintBytes s.buffer with
  | none =>
      have hloop : (readVarint64SlowAt 0 0 s.buffer).1 = none :=
        readVarint64SlowAt_of_none (Nat.zero_le _) hdecode
      generalize readVarint64SlowAt 0 0 s.buffer = loop at hloop
      obtain ⟨value, rest⟩ := loop
      simp only at hloop
      subst hloop
      exact ⟨readFromArrayAt_of_none hin64 hdecode, readFromArrayAt_of_none hin32 hdecode⟩
  | some read =>
      obtain ⟨v, rest⟩ := read
      have hloop := readVarint64SlowAt_of_some (show (0 : UInt64).toNat < 128 ^ 0 by simp) hdecode
      rw [readVarint64FromArray_of_some hdecode, readVarint32FromArray_of_some hdecode, hloop]
      simp [ofLoop]

/-- The three bytes of 2 ^ 20 in front of another integer. -/
theorem unrolled_eq_loop_two :
    readVarint64FromArray [0x80, 0x80, 0x40, 0x05] =
      ofLoop (readVarint64SlowAt 0 0 [0x80, 0x80, 0x40, 0x05]) :=
  (unrolled_eq_loop (ofArray [0x80, 0x80, 0x40, 0x05]) rfl).1

/-! ### One-byte integers first -/

/-- `ReadVarint32` reads the low half of any integer that is there. -/
theorem readVarint32_of_some (h : decode kMaxVarintBytes s.buffer = some (v, rest)) :
    s.readVarint32 = (some (UInt32.ofNat v), { s with buffer := rest }) := by
  unfold readVarint32
  split
  · rename_i b behind hbuffer
    split
    · rename_i hb
      rw [hbuffer, kMaxVarintBytes, decode_last hb] at h
      cases h
      rw [toUInt32_eq]
    · exact readVarint32Fallback_of_some h
  · exact readVarint32Fallback_of_some h

theorem readVarint32_of_none (h : decode kMaxVarintBytes s.buffer = none) :
    s.readVarint32.1 = none := by
  unfold readVarint32
  split
  · rename_i b behind hbuffer
    split
    · rename_i hb
      rw [hbuffer, kMaxVarintBytes, decode_last hb] at h
      cases h
    · exact readVarint32Fallback_of_none h
  · exact readVarint32Fallback_of_none h

theorem toUInt64_eq (b : UInt8) : b.toUInt64 = UInt64.ofNat b.toNat := by
  rw [← UInt64.toNat_inj, UInt8.toNat_toUInt64, UInt64.toNat_ofNat']
  have := b.toNat_lt
  omega

/-- `ReadVarint64` reads any integer that is there. -/
theorem readVarint64_of_some (h : decode kMaxVarintBytes s.buffer = some (v, rest)) :
    s.readVarint64 = (some (UInt64.ofNat v), { s with buffer := rest }) := by
  unfold readVarint64
  split
  · rename_i b behind hbuffer
    split
    · rename_i hb
      rw [hbuffer, kMaxVarintBytes, decode_last hb] at h
      cases h
      rw [toUInt64_eq]
    · exact readVarint64Fallback_of_some h
  · exact readVarint64Fallback_of_some h

theorem readVarint64_of_none (h : decode kMaxVarintBytes s.buffer = none) :
    s.readVarint64.1 = none := by
  unfold readVarint64
  split
  · rename_i b behind hbuffer
    split
    · rename_i hb
      rw [hbuffer, kMaxVarintBytes, decode_last hb] at h
      cases h
    · exact readVarint64Fallback_of_none h
  · exact readVarint64Fallback_of_none h

end CodedInputStream

/-! ## Writing -/

namespace CodedOutputStream

theorem toUInt8_or_high (x : UInt32) :
    (x ||| 0x80).toUInt8 = UInt8.ofNat (x.toNat % 128 + 128) := by
  rw [← UInt8.toNat_inj, UInt32.toNat_toUInt8, UInt32.toNat_or, toNat_byte (by omega)]
  exact or_high_mod x.toNat

theorem toUInt8_low {x : UInt32} (h : x.toNat < 128) :
    x.toUInt8 = UInt8.ofNat (x.toNat % 128) := by
  rw [← UInt8.toNat_inj, UInt32.toNat_toUInt8, toNat_byte (by omega)]
  omega

/-- The unrolled 32-bit writer writes the shortest form. -/
theorem writeVarint32FallbackToArray_eq (value : UInt32) :
    writeVarint32FallbackToArray value = encode value.toNat := by
  have hvalue := value.toNat_lt
  have hlast : (value >>> 28).toUInt8 = UInt8.ofNat (value.toNat / 2 ^ 28 % 128) := by
    rw [toUInt8_low] <;> simp [Nat.shiftRight_eq_div_pow]
    omega
  unfold writeVarint32FallbackToArray
  simp only [UInt32.le_iff_toNat_le, toUInt8_or_high, ofNat_and_low, UInt32.toNat_shiftRight,
    UInt32.toNat_shiftLeft, UInt32.reduceToNat, Nat.shiftRight_eq_div_pow, Nat.reduceMod,
    Nat.reduceShiftLeft, Nat.reducePow, hlast]
  split
  · split
    · split
      · split
        · rw [encode_digits (k := 4) (by omega) (by omega)]
          simp [List.range_succ]
        · rw [encode_digits (k := 3) (by omega) (by omega)]
          simp [List.range_succ]
      · rw [encode_digits (k := 2) (by omega) (by omega)]
        simp [List.range_succ]
    · rw [encode_digits (k := 1) (by omega) (by omega)]
      simp [List.range_succ]
  · rw [encode_digits (k := 0) (by omega) (by omega)]
    simp

/-- `WriteVarint32ToArray` writes the shortest form. -/
@[simp] theorem writeVarint32ToArray_eq (value : UInt32) :
    writeVarint32ToArray value = encode value.toNat := by
  unfold writeVarint32ToArray
  split
  · rename_i hlt
    have hlt' : value.toNat < 128 := UInt32.lt_iff_toNat_lt.mp hlt
    rw [encode_small hlt', toUInt8_low hlt', Nat.mod_eq_of_lt hlt']
  · exact writeVarint32FallbackToArray_eq value

/-- `WriteTagToArray` writes the same bytes. -/
@[simp] theorem writeTagToArray_eq (value : UInt32) :
    writeTagToArray value = encode value.toNat := by
  unfold writeTagToArray
  split
  · rename_i hlt
    have hlt' : value.toNat < 128 := UInt32.lt_iff_toNat_lt.mp hlt
    rw [encode_small hlt', toUInt8_low hlt', Nat.mod_eq_of_lt hlt']
  · split
    · rename_i hge hlt
      have hge' : ¬ value.toNat < 128 := fun h => hge (UInt32.lt_iff_toNat_lt.mpr h)
      have hlt' : value.toNat < 16384 := UInt32.lt_iff_toNat_lt.mp hlt
      have hhigh : (value >>> 7).toNat = value.toNat / 128 := by
        simp [Nat.shiftRight_eq_div_pow]
      rw [encode_large (by omega), encode_small (by omega), toUInt8_or_high,
        toUInt8_low (by omega), hhigh, Nat.mod_eq_of_lt (show value.toNat / 128 < 128 by omega)]
    · exact writeVarint32FallbackToArray_eq value

/-- The search tree finds the number of digits. -/
theorem varint64ToArraySize_spec (value : UInt64) {size : Nat}
    (h : varint64ToArraySize value.toUInt32 (value >>> 28).toUInt32 (value >>> 56).toUInt32 =
      size) :
    0 < size ∧ size ≤ 10 ∧ value.toNat < 128 ^ size ∧
      (size - 1 = 0 ∨ 128 ^ (size - 1) ≤ value.toNat) := by
  have hvalue := value.toNat_lt
  subst h
  unfold varint64ToArraySize
  simp only [UInt32.lt_iff_toNat_lt, ← UInt32.toNat_inj, UInt64.toNat_toUInt32,
    UInt64.toNat_shiftRight, UInt32.toNat_shiftLeft, UInt32.reduceToNat,
    Nat.shiftRight_eq_div_pow, UInt64.reduceToNat, Nat.reduceMod, Nat.reduceShiftLeft,
    Nat.reducePow]
  split <;> split <;> (try split) <;> (try split) <;> simp <;> omega

theorem varint64Target_eq (value : UInt64) :
    varint64Target value.toUInt32 (value >>> 28).toUInt32 (value >>> 56).toUInt32 =
      (List.range 10).map fun j => UInt8.ofNat (value.toNat / 128 ^ j % 128 + 128) := by
  have hrange : List.range 10 = [0, 1, 2, 3, 4, 5, 6, 7, 8, 9] := rfl
  simp only [varint64Target, toUInt8_or_high, UInt64.toNat_toUInt32, UInt64.toNat_shiftRight,
    UInt32.toNat_shiftRight, Nat.shiftRight_eq_div_pow, UInt64.reduceToNat, UInt32.reduceToNat,
    Nat.reduceMod, Nat.reducePow, hrange, List.map_cons, List.map_nil, List.cons.injEq, and_true]
  refine ⟨?_, ?_, ?_, ?_, ?_, ?_, ?_, ?_, ?_, ?_⟩ <;> congr 2 <;> omega

theorem modify_append_singleton {α : Type} (l : List α) (x : α) (g : α → α) :
    (l ++ [x]).modify l.length g = l ++ [g x] := by
  induction l with
  | nil => rfl
  | cons a l ih => simpa using ih

/-- `WriteVarint64ToArray` writes the shortest form. -/
@[simp] theorem writeVarint64ToArray_eq (value : UInt64) :
    writeVarint64ToArray value = encode value.toNat := by
  simp only [writeVarint64ToArray, varint64Target_eq]
  generalize hsize : varint64ToArraySize value.toUInt32 (value >>> 28).toUInt32
    (value >>> 56).toUInt32 = size
  obtain ⟨hpos, hten, hlt, hge⟩ := varint64ToArraySize_spec value hsize
  obtain ⟨k, rfl⟩ : ∃ k, size = k + 1 := ⟨size - 1, by omega⟩
  have hmodify := modify_append_singleton ((List.range k).map fun j =>
    UInt8.ofNat (value.toNat / 128 ^ j % 128 + 128))
    (UInt8.ofNat (value.toNat / 128 ^ k % 128 + 128)) (· &&& 0x7F)
  rw [List.length_map, List.length_range] at hmodify
  rw [encode_digits hlt hge, ← List.map_take, List.take_range, Nat.min_eq_left hten,
    Nat.add_sub_cancel, List.range_succ, List.map_append, List.map_singleton, hmodify,
    ofNat_and_low]

/-! ### Sizes -/

/-- `VarintSize32` is the length of what is written. -/
@[simp] theorem varintSize32_eq (value : UInt32) :
    varintSize32 value = (encode value.toNat).length := by
  have hvalue := value.toNat_lt
  unfold varintSize32 varintSize32Fallback
  simp only [UInt32.lt_iff_toNat_lt, UInt32.toNat_shiftLeft, UInt32.reduceToNat, Nat.reduceMod,
    Nat.reduceShiftLeft, Nat.reducePow]
  split
  · rw [length_encode (k := 0) (by omega) (by omega)]
  · split
    · rw [length_encode (k := 1) (by omega) (by omega)]
    · split
      · rw [length_encode (k := 2) (by omega) (by omega)]
      · split
        · rw [length_encode (k := 3) (by omega) (by omega)]
        · rw [length_encode (k := 4) (by omega) (by omega)]

/-- `VarintSize64` is the length of what is written. -/
@[simp] theorem varintSize64_eq (value : UInt64) :
    varintSize64 value = (encode value.toNat).length := by
  have hvalue := value.toNat_lt
  unfold varintSize64
  simp only [UInt64.lt_iff_toNat_lt, UInt64.toNat_shiftLeft, UInt64.reduceToNat, Nat.reduceMod,
    Nat.reduceShiftLeft, Nat.reducePow]
  split
  · split
    · rw [length_encode (k := 0) (by omega) (by omega)]
    · split
      · rw [length_encode (k := 1) (by omega) (by omega)]
      · split
        · rw [length_encode (k := 2) (by omega) (by omega)]
        · split
          · rw [length_encode (k := 3) (by omega) (by omega)]
          · rw [length_encode (k := 4) (by omega) (by omega)]
  · split
    · rw [length_encode (k := 5) (by omega) (by omega)]
    · split
      · rw [length_encode (k := 6) (by omega) (by omega)]
      · split
        · rw [length_encode (k := 7) (by omega) (by omega)]
        · split
          · rw [length_encode (k := 8) (by omega) (by omega)]
          · rw [length_encode (k := 9) (by omega) (by omega)]

end CodedOutputStream

/-! ## Reading what was written -/

/-- The same stream, in front of other bytes. -/
def CodedInputStream.withBuffer (s : CodedInputStream) (bs : List UInt8) : CodedInputStream :=
  { s with buffer := bs }

open CodedOutputStream in
/-- **Integers come back**: wherever a stream stands, and whatever is behind, both readers read
what either writer has written, up to the bits that they have; the computed sizes are those
of the bytes, and tags are written as other integers are. -/
theorem varint_roundtrip (s : CodedInputStream) (rest : List UInt8) :
    (∀ value : UInt64,
      (s.withBuffer (writeVarint64ToArray value ++ rest)).readVarint64 =
        (some value, s.withBuffer rest) ∧
      (s.withBuffer (writeVarint64ToArray value ++ rest)).readVarint32 =
        (some value.toUInt32, s.withBuffer rest) ∧
      varintSize64 value = (writeVarint64ToArray value).length) ∧
    ∀ value : UInt32,
      (s.withBuffer (writeVarint32ToArray value ++ rest)).readVarint32 =
        (some value, s.withBuffer rest) ∧
      (s.withBuffer (writeVarint32ToArray value ++ rest)).readVarint64 =
        (some value.toUInt64, s.withBuffer rest) ∧
      varintSize32 value = (writeVarint32ToArray value).length ∧
      writeTagToArray value = writeVarint32ToArray value := by
  have hread : ∀ n, n < 2 ^ 64 →
      decode kMaxVarintBytes (s.withBuffer (encode n ++ rest)).buffer = some (n, rest) :=
    fun n hn => decode_encode (Nat.lt_trans hn (by decide)) rest
  refine ⟨fun value => ?_, fun value => ?_⟩
  · have hvalue := hread value.toNat value.toNat_lt
    have hcut : UInt32.ofNat value.toNat = value.toUInt32 := by
      rw [← UInt32.toNat_inj, UInt32.toNat_ofNat', UInt64.toNat_toUInt32]
    refine ⟨?_, ?_, by simp⟩
    · rw [writeVarint64ToArray_eq, CodedInputStream.readVarint64_of_some hvalue,
        UInt64.ofNat_toNat]
      rfl
    · rw [writeVarint64ToArray_eq, CodedInputStream.readVarint32_of_some hvalue, hcut]
      rfl
  · have hvalue := hread value.toNat (Nat.lt_trans value.toNat_lt (by decide))
    have hwide : UInt64.ofNat value.toNat = value.toUInt64 := by
      rw [← UInt64.toNat_inj, UInt64.toNat_ofNat', UInt32.toNat_toUInt64]
      have := value.toNat_lt
      omega
    refine ⟨?_, ?_, by simp, by simp⟩
    · rw [writeVarint32ToArray_eq, CodedInputStream.readVarint32_of_some hvalue,
        UInt32.ofNat_toNat]
      rfl
    · rw [writeVarint32ToArray_eq, CodedInputStream.readVarint64_of_some hvalue, hwide]
      rfl

end Pb

end GEngine
