import Mathlib.Algebra.Order.Ring.Nat
import Mathlib.Data.List.Basic

/-!
# GEngine.Varint

Base-128 integers: seven bits a byte, the low ones first, and the high bit of a byte says
that another one follows.

`encode` is the shortest form of a number.  `decode` reads at most a given number of bytes
and takes longer forms too.  Reading what was written gives the number back, with any
bytes behind it (`decode_encode`).  Nothing in this module refers to the server.
-/

namespace GEngine

namespace Varint

/-- The shortest form of `n`. -/
def encode (n : Nat) : List UInt8 :=
  if n < 128 then [UInt8.ofNat n]
  else UInt8.ofNat (n % 128 + 128) :: encode (n / 128)
termination_by n
decreasing_by omega

/-- The number in front of `bs`, which has at most `k` bytes, and what is behind it. -/
def decode : Nat → List UInt8 → Option (Nat × List UInt8)
  | 0, _ => none
  | _ + 1, [] => none
  | k + 1, b :: bs =>
      if b < 128 then some (b.toNat, bs)
      else (decode k bs).map fun (v, rest) => (b.toNat - 128 + 128 * v, rest)

/-! ## One byte -/

section

variable {b : UInt8} {bs rest : List UInt8} {k n v : Nat}

@[simp] theorem decode_nil (k : Nat) : decode k [] = none := by
  cases k <;> rfl

/-- A byte without the high bit ends the number. -/
theorem decode_last (h : b < 128) : decode (k + 1) (b :: bs) = some (b.toNat, bs) := by
  rw [decode, if_pos h]

/-- A byte with the high bit is the low digit of the number behind it. -/
theorem decode_more (h : ¬ b < 128) : decode (k + 1) (b :: bs) =
    (decode k bs).map fun (v, rest) => (b.toNat - 128 + 128 * v, rest) := by
  rw [decode, if_neg h]

theorem toNat_lt_of_lt (h : b < 128) : b.toNat < 128 := by
  simpa using UInt8.lt_iff_toNat_lt.mp h

theorem le_toNat_of_not_lt (h : ¬ b < 128) : 128 ≤ b.toNat := by
  have hle := UInt8.le_iff_toNat_le.mp (UInt8.not_lt.mp h)
  simpa using hle

theorem toNat_byte (h : n < 256) : (UInt8.ofNat n).toNat = n := by
  rw [UInt8.toNat_ofNat', Nat.mod_eq_of_lt h]

/-- The last byte of a number has no high bit. -/
theorem ofNat_lt (h : n < 128) : UInt8.ofNat n < 128 := by
  rw [UInt8.lt_iff_toNat_lt, toNat_byte (by omega)]
  simpa using h

/-- All others have it. -/
theorem not_ofNat_lt (n : Nat) : ¬ UInt8.ofNat (n % 128 + 128) < 128 := by
  rw [UInt8.lt_iff_toNat_lt, toNat_byte (by omega)]
  simp

/-- A number of one digit. -/
theorem encode_small (h : n < 128) : encode n = [UInt8.ofNat n] := by
  rw [encode, if_pos h]

/-- The low digit of a longer number, and the rest. -/
theorem encode_large (h : 128 ≤ n) :
    encode n = UInt8.ofNat (n % 128 + 128) :: encode (n / 128) := by
  rw [encode, if_neg (by omega)]

/-! ## The high bit -/

/-- How the code tests the high bit. -/
theorem and_high_eq_zero_iff (b : UInt8) : b &&& 0x80 = 0 ↔ b < 128 := by
  have hall : ∀ n : Fin 256, n.val &&& 128 = 0 ↔ n.val < 128 := by decide +kernel
  rw [← UInt8.toNat_inj, UInt8.toNat_and, UInt8.lt_iff_toNat_lt]
  exact hall ⟨b.toNat, b.toNat_lt⟩

/-- How it takes the bit off. -/
theorem toNat_and_low (b : UInt8) : (b &&& 0x7F).toNat = b.toNat % 128 := by
  rw [UInt8.toNat_and]
  exact Nat.and_two_pow_sub_one_eq_mod b.toNat 7

/-- How it sets the bit in the byte that a word is cut to. -/
theorem or_high_mod (n : Nat) : (n ||| 128) % 256 = n % 128 + 128 := by
  have hall : ∀ n : Fin 256, n.val ||| 128 = n.val % 128 + 128 := by decide +kernel
  have hcut : (n ||| 128) % 2 ^ 8 = n % 2 ^ 8 ||| 128 % 2 ^ 8 := Nat.or_mod_two_pow
  have hbyte : n % 256 ||| 128 = n % 256 % 128 + 128 :=
    hall ⟨n % 256, Nat.mod_lt _ (by decide)⟩
  have hmod : (n ||| 128) % 256 = n % 256 ||| 128 := hcut
  omega

/-! ## Digits in words

A word of 32 or 64 bits takes up digits by shifting them to their place.  In the ring of
the word's type a shift is a product, and `|` with bits that are still free is a sum. -/

/-- A shift of a word is a product in its ring. -/
theorem shiftLeft_32 (x : UInt32) (h : k < 32) :
    x <<< UInt32.ofNat k = x * UInt32.ofNat (2 ^ k) := by
  have hk : k % 2 ^ 32 % 32 = k := by omega
  rw [← UInt32.toNat_inj, UInt32.toNat_shiftLeft, UInt32.toNat_mul, UInt32.toNat_ofNat',
    UInt32.toNat_ofNat', Nat.shiftLeft_eq, hk, Nat.mul_mod_mod]

theorem shiftLeft_64 (x : UInt64) (h : k < 64) :
    x <<< UInt64.ofNat k = x * UInt64.ofNat (2 ^ k) := by
  have hk : k % 2 ^ 64 % 64 = k := by omega
  rw [← UInt64.toNat_inj, UInt64.toNat_shiftLeft, UInt64.toNat_mul, UInt64.toNat_ofNat',
    UInt64.toNat_ofNat', Nat.shiftLeft_eq, hk, Nat.mul_mod_mod]

/-- Bits that are put above all others are added. -/
theorem or_shiftLeft_64 (a x : UInt64) (hk : k < 64) (h : a.toNat < 2 ^ k) :
    a ||| x <<< UInt64.ofNat k = a + x * UInt64.ofNat (2 ^ k) := by
  have hplace : k % 2 ^ 64 % 64 = k := by omega
  have hcut : x.toNat <<< k % 2 ^ 64 = 2 ^ k * (x.toNat % 2 ^ (64 - k)) := by
    have hsplit : 2 ^ 64 = 2 ^ k * 2 ^ (64 - k) := by
      rw [← Nat.pow_add, Nat.add_sub_cancel' (by omega)]
    rw [Nat.shiftLeft_eq, hsplit, Nat.mul_comm, Nat.mul_mod_mul_left]
  have hfit : 2 ^ k * (x.toNat % 2 ^ (64 - k)) + a.toNat < 2 ^ 64 := by
    rw [Nat.two_pow_add_eq_or_of_lt h]
    refine Nat.or_lt_two_pow ?_ a.toNat_lt
    rw [← hcut]
    exact Nat.mod_lt _ (by decide)
  rw [← shiftLeft_64 x hk, ← UInt64.toNat_inj, UInt64.toNat_or, UInt64.toNat_add,
    UInt64.toNat_shiftLeft, UInt64.toNat_ofNat', hplace, hcut, Nat.or_comm,
    ← Nat.two_pow_add_eq_or_of_lt h, Nat.add_comm a.toNat, Nat.mod_eq_of_lt hfit]

/-! ## Reading what was written -/

theorem encode_ne_nil (n : Nat) : encode n ≠ [] := by
  rw [encode]
  split <;> simp

/-- Reading back. -/
theorem decode_encode (h : n < 128 ^ (k + 1)) (rest : List UInt8) :
    decode (k + 1) (encode n ++ rest) = some (n, rest) := by
  induction k generalizing n with
  | zero =>
      have hn : n < 128 := by simpa using h
      rw [encode_small hn, List.singleton_append, decode_last (ofNat_lt hn),
        toNat_byte (by omega)]
  | succ k ih =>
      by_cases hn : n < 128
      · rw [encode_small hn, List.singleton_append, decode_last (ofNat_lt hn),
          toNat_byte (by omega)]
      · have hdiv : n / 128 < 128 ^ (k + 1) := by
          rw [Nat.pow_succ] at h
          exact Nat.div_lt_of_lt_mul (by omega)
        rw [encode_large (by omega), List.cons_append, decode_more (not_ofNat_lt n), ih hdiv,
          Option.map_some, toNat_byte (by omega)]
        simp only [Option.some.injEq, Prod.mk.injEq, and_true]
        omega

/-! ## What is read -/

/-- What is behind a number is a proper end of the input. -/
theorem decode_suffix (h : decode k bs = some (v, rest)) :
    rest <:+ bs ∧ rest.length < bs.length := by
  induction k generalizing bs v with
  | zero => cases h
  | succ k ih =>
      cases bs with
      | nil => cases h
      | cons b bs =>
          by_cases hb : b < 128
          · rw [decode_last hb] at h
            cases h
            exact ⟨List.suffix_cons b rest, Nat.lt_succ_self _⟩
          · rw [decode_more hb, Option.map_eq_some_iff] at h
            obtain ⟨⟨v', rest'⟩, hrec, heq⟩ := h
            cases heq
            obtain ⟨hsuf, hlen⟩ := ih hrec
            exact ⟨hsuf.trans (List.suffix_cons b bs), Nat.lt_succ_of_lt hlen⟩

/-! ## Digits -/

/-- The bytes of a number with `k + 1` digits. -/
theorem encode_digits (hlt : n < 128 ^ (k + 1)) (hge : k = 0 ∨ 128 ^ k ≤ n) :
    encode n = (List.range k).map (fun j => UInt8.ofNat (n / 128 ^ j % 128 + 128)) ++
      [UInt8.ofNat (n / 128 ^ k % 128)] := by
  induction k generalizing n with
  | zero =>
      have hn : n < 128 := by simpa using hlt
      simp [encode_small hn, Nat.mod_eq_of_lt hn]
  | succ k ih =>
      have hge' : 128 ^ (k + 1) ≤ n := hge.resolve_left (by omega)
      have hpow : 128 ≤ 128 ^ (k + 1) := Nat.le_self_pow (by omega) 128
      have hdiv : n / 128 < 128 ^ (k + 1) := by
        rw [Nat.pow_succ] at hlt
        exact Nat.div_lt_of_lt_mul (by omega)
      have hdiv' : 128 ^ k ≤ n / 128 := by
        rw [Nat.le_div_iff_mul_le (by omega), ← Nat.pow_succ]
        exact hge'
      rw [encode_large (by omega), ih hdiv (.inr hdiv'), List.range_succ_eq_map, List.map_cons,
        List.map_map]
      simp [Function.comp_def, Nat.div_div_eq_div_mul, Nat.pow_succ']

/-- As many bytes as digits. -/
theorem length_encode (hlt : n < 128 ^ (k + 1)) (hge : k = 0 ∨ 128 ^ k ≤ n) :
    (encode n).length = k + 1 := by
  rw [encode_digits hlt hge]
  simp

/-! ## Lengths -/

theorem length_encode_pos (n : Nat) : 0 < (encode n).length :=
  List.length_pos_iff.mpr (encode_ne_nil n)

/-- A number has no more digits than it is written in bytes. -/
theorem lt_pow_length_encode (n : Nat) : n < 128 ^ (encode n).length := by
  induction n using Nat.strong_induction_on with
  | _ n ih =>
      by_cases hn : n < 128
      · simpa [encode_small hn] using hn
      · have hdiv := ih (n / 128) (by omega)
        rw [encode_large (by omega), List.length_cons, Nat.pow_succ]
        omega

/-- A number of `k` digits is written in at most `k` bytes. -/
theorem length_encode_le (hpos : 0 < k) (h : n < 128 ^ k) : (encode n).length ≤ k := by
  induction k generalizing n with
  | zero => omega
  | succ k ih =>
      by_cases hn : n < 128
      · simp [encode_small hn]
      · have hk : 0 < k := by
          refine Nat.pos_of_ne_zero fun hzero => hn ?_
          simpa [hzero] using h
        have hdiv : n / 128 < 128 ^ k := by
          rw [Nat.pow_succ] at h
          exact Nat.div_lt_of_lt_mul (by omega)
        rw [encode_large (by omega), List.length_cons]
        exact Nat.succ_le_succ (ih hk hdiv)

/-- Smaller numbers are not longer. -/
theorem length_encode_mono {m : Nat} (h : m ≤ n) : (encode m).length ≤ (encode n).length :=
  length_encode_le (length_encode_pos n) (Nat.lt_of_le_of_lt h (lt_pow_length_encode n))

/-- A sum is at most as long as its parts together, since each part has a digit. -/
theorem length_encode_add (m n : Nat) :
    (encode (m + n)).length ≤ (encode m).length + (encode n).length := by
  have htwo (n : Nat) : 2 ≤ 128 ^ (encode n).length :=
    Nat.le_trans (by decide) (Nat.le_self_pow (length_encode_pos n).ne' 128)
  have hsum : 128 ^ (encode m).length + 128 ^ (encode n).length ≤
      128 ^ ((encode m).length + (encode n).length) := by
    rw [Nat.pow_add]
    exact Nat.add_le_mul (htwo m) (htwo n)
  have hm := lt_pow_length_encode m
  have hn := lt_pow_length_encode n
  exact length_encode_le (Nat.add_pos_left (length_encode_pos m) _) (by omega)

/-- A number is read from no fewer bytes than it is written in. -/
theorem decode_length (h : decode k bs = some (v, rest)) :
    (encode v).length + rest.length ≤ bs.length := by
  induction k generalizing bs v with
  | zero => cases h
  | succ k ih =>
      cases bs with
      | nil => cases h
      | cons b bs =>
          by_cases hb : b < 128
          · rw [decode_last hb] at h
            cases h
            simp [encode_small (toNat_lt_of_lt hb), Nat.add_comm]
          · rw [decode_more hb, Option.map_eq_some_iff] at h
            obtain ⟨⟨v', rest'⟩, hrec, heq⟩ := h
            cases heq
            have hlen := ih hrec
            have hlow := b.toNat_lt
            by_cases hv : v' = 0
            · subst hv
              have hone : (encode (b.toNat - 128 + 128 * 0)).length = 1 := by
                rw [encode_small (by omega), List.length_singleton]
              have hpos := length_encode_pos 0
              rw [hone, List.length_cons]
              omega
            · have hdiv : (b.toNat - 128 + 128 * v') / 128 = v' := by omega
              rw [encode_large (by omega), hdiv, List.length_cons, List.length_cons]
              omega

/-- A byte with the high bit, without it. -/
theorem ofNat_and_low (n : Nat) : UInt8.ofNat (n % 128 + 128) &&& 0x7F = UInt8.ofNat (n % 128) := by
  rw [← UInt8.toNat_inj, toNat_and_low, toNat_byte (by omega), toNat_byte (by omega)]
  omega

end

end Varint

end GEngine
