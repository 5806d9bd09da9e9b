import Mathlib.Algebra.Group.Int.Defs
import Mathlib.Algebra.Group.Nat.Defs
import Mathlib.Data.List.Basic
import Mathlib.Data.List.Flatten

/-!
# GEngine.Bytes

Byte-list plumbing shared by every layer: little-endian words, slices of a
buffer, and the two ways C code writes into one (`memset` with zero and
`memcpy` at an offset).

Everything here is proved once so that the layers above never redo list
arithmetic.  Nothing in this module refers to the server.
-/

namespace GEngine

/-! ## Little-endian words -/

/-- The `w` bytes of `n` in little-endian order; what does not fit is cut off,
as a conversion to a `w`-byte unsigned integer does. -/
def leBytes : Nat → Nat → List UInt8
  | 0, _ => []
  | w + 1, n => UInt8.ofNat (n % 256) :: leBytes w (n / 256)

/-- The unsigned integer whose little-endian bytes are `bs`. -/
def leNat : List UInt8 → Nat
  | [] => 0
  | b :: bs => b.toNat + 256 * leNat bs

/-- A `w`-byte word has `w` bytes. -/
@[simp] theorem length_leBytes (w n : Nat) : (leBytes w n).length = w := by
  induction w generalizing n with
  | zero => rfl
  | succ w ih => simp [leBytes, ih]

/-- Zero bytes at the top of a word do not change it. -/
theorem leNat_append_replicate (bs : List UInt8) (n : Nat) :
    leNat (bs ++ List.replicate n 0) = leNat bs := by
  induction bs with
  | nil =>
      induction n with
      | zero => rfl
      | succ n ih =>
          rw [List.nil_append] at ih
          simp [List.replicate_succ, leNat, ih]
  | cons b bs ih => simp only [List.cons_append, leNat, ih]

/-- A word written and read back is cut to its width. -/
@[simp] theorem leNat_leBytes (w n : Nat) : leNat (leBytes w n) = n % 256 ^ w := by
  induction w generalizing n with
  | zero => simp [leBytes, leNat, Nat.mod_one]
  | succ w ih =>
      have hbyte : (UInt8.ofNat (n % 256)).toNat = n % 256 := by
        rw [UInt8.toNat_ofNat']
        omega
      rw [leBytes, leNat, ih, hbyte, Nat.pow_succ', Nat.mod_mul]

/-- A 32-bit pattern read back as a signed `int`. -/
def toInt32 (n : Nat) : Int := Int.bmod n (2 ^ 32)

/-- A 64-bit pattern read back as a signed integer. -/
def toInt64 (n : Nat) : Int := Int.bmod n (2 ^ 64)

/-! ## Slices -/

/-- The `n` bytes of `bs` from offset `off` on (fewer at the end of `bs`). -/
def slice (bs : List UInt8) (off n : Nat) : List UInt8 := (bs.drop off).take n

/-- The slice that starts right after a prefix is the front of the rest. -/
theorem slice_append_of_length {as bs : List UInt8} (h : as.length = off) :
    slice (as ++ bs) off n = bs.take n := by
  subst h; simp [slice]

/-- A slice inside the first part of an append does not see the second part. -/
theorem slice_append_left {as bs : List UInt8} (h : off + n ≤ as.length) :
    slice (as ++ bs) off n = slice as off n := by
  unfold slice
  rw [List.drop_append_of_le_length (by omega), List.take_append_of_le_length]
  rw [List.length_drop]; omega

/-- A slice inside the front of a buffer is a slice of the buffer. -/
theorem slice_take {bs : List UInt8} (h : off + n ≤ k) :
    slice (bs.take k) off n = slice bs off n := by
  unfold slice
  rw [List.drop_take, List.take_take, Nat.min_eq_left (by omega)]

/-! ## Writing into a buffer -/

/-- `memset(buf, 0, n)`. -/
def zeroFront (n : Nat) (buf : List UInt8) : List UInt8 :=
  List.replicate n 0 ++ buf.drop n

/-- Clearing inside the buffer keeps its size. -/
theorem length_zeroFront (h : n ≤ buf.length) : (zeroFront n buf).length = buf.length := by
  simp only [zeroFront, List.length_append, List.length_replicate, List.length_drop]
  omega

/-- `memcpy(buf + off, src, src.length)`.  A copy makes no room: what does not fit is
written behind the buffer and is not part of it. -/
def copyAt (buf : List UInt8) (off : Nat) (src : List UInt8) : List UInt8 :=
  (buf.take off ++ src ++ buf.drop (off + src.length)).take buf.length

/-- Copying keeps the size of the buffer. -/
@[simp] theorem length_copyAt (buf : List UInt8) (off : Nat) (src : List UInt8) :
    (copyAt buf off src).length = buf.length := by
  simp only [copyAt, List.length_append, List.length_take, List.length_drop]
  omega

/-- Copying inside the buffer. -/
theorem copyAt_of_le {buf src : List UInt8} (h : off + src.length ≤ buf.length) :
    copyAt buf off src = buf.take off ++ src ++ buf.drop (off + src.length) := by
  apply List.take_of_length_le
  simp only [List.length_append, List.length_take, List.length_drop]
  omega

/-- Copying over the whole buffer leaves just the source. -/
theorem copyAt_zero_of_length {buf src : List UInt8} (h : src.length = buf.length) :
    copyAt buf 0 src = src := by
  rw [copyAt_of_le (by omega)]
  simp [h]

/-- Copying to the front of a cleared buffer. -/
theorem copyAt_replicate {n : Nat} {src : List UInt8} (h : src.length ≤ n) :
    copyAt (List.replicate n 0) 0 src = src ++ List.replicate (n - src.length) 0 := by
  rw [copyAt_of_le (by simpa using h), List.take_zero, List.nil_append, Nat.zero_add,
    List.drop_replicate]

/-- What is to be had at a pointer after `memcpy(dest, src, src.length)`, where `dest` is
as much as is known of the bytes there before.  Room for the source is the caller's. -/
def overlay (dest src : List UInt8) : List UInt8 := src ++ dest.drop src.length

/-- What was copied is what is read at the pointer. -/
theorem take_overlay {dest src : List UInt8} (h : src.length = n) :
    (overlay dest src).take n = src := by
  subst h; simp [overlay]

/-! ## Cutting a stream -/

/-- Pieces of one positive length are determined by the stream they make up. -/
theorem eq_of_flatten_eq {xs ys : List (List α)} (hn : 0 < n) (hx : ∀ x ∈ xs, x.length = n)
    (hy : ∀ y ∈ ys, y.length = n) (h : xs.flatten = ys.flatten) : xs = ys := by
  have hxlen : xs.map List.length = List.replicate xs.length n :=
    List.map_eq_replicate_iff.mpr hx
  have hylen : ys.map List.length = List.replicate ys.length n :=
    List.map_eq_replicate_iff.mpr hy
  have hsum : xs.length * n = ys.length * n := by
    have hlen := congrArg List.length h
    rw [List.length_flatten, List.length_flatten, hxlen, hylen, List.sum_replicate_nat,
      List.sum_replicate_nat] at hlen
    exact hlen
  have hcount : xs.length = ys.length := Nat.eq_of_mul_eq_mul_right hn hsum
  rw [List.eq_iff_flatten_eq, hxlen, hylen, hcount]
  exact ⟨h, rfl⟩

/-- Pieces left out of a stream without a loss of length are empty. -/
theorem mem_filter_of_length_flatten {xs : List (List α)} (q : List α → Bool)
    (h : xs.flatten.length ≤ (xs.filter q).flatten.length) (hx : x ∈ xs) (hne : x ≠ []) :
    q x = true := by
  induction xs with
  | nil => cases hx
  | cons y ys ih =>
      have hle : (ys.filter q).flatten.length ≤ ys.flatten.length :=
        (List.filter_sublist.flatten).length_le
      cases hq : q y with
      | true =>
          rw [List.filter_cons_of_pos hq, List.flatten_cons, List.flatten_cons,
            List.length_append, List.length_append] at h
          rcases List.mem_cons.mp hx with rfl | hmem
          · exact hq
          · exact ih (by omega) hmem
      | false =>
          rw [List.filter_cons_of_neg (by simp [hq]), List.flatten_cons,
            List.length_append] at h
          have hy : y = [] := List.eq_nil_of_length_eq_zero (by omega)
          rcases List.mem_cons.mp hx with rfl | hmem
          · exact absurd hy hne
          · exact ih (by omega) hmem

end GEngine
