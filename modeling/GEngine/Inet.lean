import Mathlib.Data.List.Basic
import Mathlib.Tactic.NormNum
import GEngine.Bytes

/-!
# GEngine.Inet

The parsers through which every address of the program goes: `uv_ip4_addr` and `uv_ip6_addr`
(`3rd/libuv-v1.19.2/src/uv-common.c`) over `inet_pton4` and `inet_pton6` (`src/inet.c`).

A text is the bytes of a C string, without the zero at its end.  This module has the code of
both parsers and what the first one accepts, the four octets in decimal with no leading
zeros (`inetPton4_eq_some`).  What the second one accepts is in `GEngine.Inet.Ip6`.
-/

namespace GEngine

namespace Inet

/-! ## `inet_pton4` -/

/-- `strchr` in a table of digits: where the character is in it. -/
def strchr (table : List UInt8) (ch : UInt8) : Option Nat := table.idxOf? ch

/-- `digits`, the characters `0` to `9`. -/
def digits : List UInt8 := [48, 49, 50, 51, 52, 53, 54, 55, 56, 57]

/-- The variables of `inet_pton4`: the octets in front of `tp`, the one at `tp`, `saw_digit`
and `octets`. -/
structure Pton4 where
  tmp : List UInt8
  cur : UInt8
  sawDigit : Bool
  octets : Nat
  deriving DecidableEq, Repr

/-- One round of the loop of `inet_pton4`. -/
def Pton4.step (st : Pton4) (ch : UInt8) : Option Pton4 :=
  match strchr digits ch with
  | some d =>
      let nw := st.cur.toNat * 10 + d
      if st.sawDigit = true ∧ st.cur = 0 then none
      else if nw > 255 then none
      else if st.sawDigit then some { st with cur := .ofNat nw }
      else if st.octets + 1 > 4 then none
      else some { st with cur := .ofNat nw, octets := st.octets + 1, sawDigit := true }
  | none =>
      if ch = 46 ∧ st.sawDigit = true then
        if st.octets = 4 then none
        else some { st with tmp := st.tmp ++ [st.cur], cur := 0, sawDigit := false }
      else none

/-- `inet_pton4`; `none` is `UV_EINVAL`. -/
def inetPton4 (src : List UInt8) : Option (List UInt8) := do
  let st ← src.foldlM Pton4.step ⟨[], 0, false, 0⟩
  if st.octets < 4 then none else some (st.tmp ++ [st.cur])

/-! ## `inet_pton6` -/

/-- `xdigits_l`. -/
def xdigitsL : List UInt8 := digits ++ [97, 98, 99, 100, 101, 102]

/-- `xdigits_u`. -/
def xdigitsU : List UInt8 := digits ++ [65, 66, 67, 68, 69, 70]

/-- `pch - xdigits`, where the character is looked up in both tables. -/
def xdigit (ch : UInt8) : Option Nat :=
  match strchr xdigitsL ch with
  | some d => some d
  | none => strchr xdigitsU ch

/-- The variables of `inet_pton6`: the bytes in front of `tp`, the place of `colonp` among
them, the text from `curtok` on, `seen_xdigits` and `val`. -/
structure Pton6 where
  tmp : List UInt8
  colonp : Option Nat
  curtok : List UInt8
  seenXdigits : Nat
  val : UInt32
  deriving DecidableEq, Repr

namespace Pton6

/-- The two bytes that are stored for `val`. -/
def word (st : Pton6) : List UInt8 := [(st.val >>> 8).toUInt8 &&& 0xff, st.val.toUInt8 &&& 0xff]

/-- The loop of `inet_pton6`; `endp` is sixteen bytes behind `tmp`. -/
def loop (st : Pton6) : List UInt8 → Option Pton6
  | [] => some st
  | ch :: src =>
      match xdigit ch with
      | some d =>
          if st.seenXdigits + 1 > 4 then none
          else loop { st with
            val := st.val <<< 4 ||| UInt32.ofNat d
            seenXdigits := st.seenXdigits + 1 } src
      | none =>
          if ch = 58 then
            if st.seenXdigits = 0 then
              if st.colonp.isSome then none
              else loop { st with curtok := src, colonp := some st.tmp.length } src
            else if src = [] then none
            else if st.tmp.length + 2 > 16 then none
            else loop { st with
              curtok := src
              tmp := st.tmp ++ st.word
              seenXdigits := 0
              val := 0 } src
          else if ch = 46 ∧ st.tmp.length + 4 ≤ 16 then
            match inetPton4 st.curtok with
            | some a => some { st with tmp := st.tmp ++ a, seenXdigits := 0 }
            | none => none
          else none

/-- The group that the text ends with is stored. -/
def flush (st : Pton6) : Option Pton6 :=
  if st.seenXdigits = 0 then some st
  else if st.tmp.length + 2 > 16 then none
  else some { st with tmp := st.tmp ++ st.word }

end Pton6

/-- One round of the shift: `endp[- i] = colonp[n - i]; colonp[n - i] = 0`. -/
def shiftRound (colonp n : Nat) (buf : List UInt8) (i : Nat) : List UInt8 :=
  (buf.set (16 - i) (buf.getD (colonp + n - i) 0)).set (colonp + n - i) 0

/-- The bytes from `colonp` on are moved to the end of `tmp`. -/
def shift (colonp n : Nat) (buf : List UInt8) : List UInt8 :=
  (List.range' 1 n).foldl (shiftRound colonp n) buf

/-- What `inet_pton6` does behind its loop. -/
def Pton6.finish (st : Pton6) : Option (List UInt8) :=
  match st.colonp with
  | some colonp =>
      if st.tmp.length = 16 then none
      else some <| shift colonp (st.tmp.length - colonp)
        (st.tmp ++ List.replicate (16 - st.tmp.length) 0)
  | none => if st.tmp.length = 16 then some st.tmp else none

/-- `inet_pton6` from `curtok = src` on. -/
def pton6From (src : List UInt8) : Option (List UInt8) := do
  let st ← Pton6.loop ⟨[], none, src, 0, 0⟩ src
  (← st.flush).finish

/-- `inet_pton6`. -/
def inetPton6 : List UInt8 → Option (List UInt8)
  | 58 :: src => if src.head? = some 58 then pton6From src else none
  | src => pton6From src

/-! ## The functions of libuv -/

/-- `uv_inet_pton(AF_INET6, …)`. -/
def uvInetPton6 (src : List UInt8) : Option (List UInt8) :=
  if 37 ∈ src then
    let s := src.takeWhile (· != 37)
    if s.length > 45 then none else inetPton6 s
  else inetPton6 src

/-- `uv_ip4_addr`. -/
def uvIp4Addr (ip : List UInt8) : Option (List UInt8) := inetPton4 ip

/-- What `uv_ip6_addr` parses: of a text with a `%`, what is in front of it, as far as it
goes into the 40 bytes of `address_part`. -/
def addressPart (ip : List UInt8) : List UInt8 :=
  if 37 ∈ ip then (ip.takeWhile (· != 37)).take 39 else ip

/-- `uv_ip6_addr`. -/
def uvIp6Addr (ip : List UInt8) : Option (List UInt8) := uvInetPton6 (addressPart ip)

/-! ## Decimal octets -/

/-- An octet in decimal. -/
def decimal (b : UInt8) : List UInt8 := (Nat.toDigits 10 b.toNat).map Char.toUInt8

/-- The text of four octets. -/
def dotted (a b c d : UInt8) : List UInt8 :=
  decimal a ++ 46 :: (decimal b ++ 46 :: (decimal c ++ 46 :: decimal d))

/-- The character of a digit. -/
def digit (d : Nat) : UInt8 := UInt8.ofNat (48 + d)

theorem strchr_eq_some {table : List UInt8} {ch : UInt8} {d : Nat}
    (h : strchr table ch = some d) : table[d]? = some ch := by
  obtain ⟨hlt, heq, -⟩ := List.findIdx?_eq_some_iff_getElem.mp h
  rw [List.getElem?_eq_getElem hlt, beq_iff_eq.mp heq]

theorem strchr_digits_eq_some {ch : UInt8} {d : Nat} (h : strchr digits ch = some d) :
    d < 10 ∧ ch = digit d := by
  have hget := strchr_eq_some h
  obtain ⟨hlt, -⟩ := List.getElem?_eq_some_iff.mp hget
  have hall : ∀ n : Fin 10, digits[n.val]? = some (digit n) := by decide
  exact ⟨hlt, Option.some.inj (hget.symm.trans (hall ⟨d, hlt⟩))⟩

theorem strchr_digits_digit {d : Nat} (hd : d < 10) : strchr digits (digit d) = some d := by
  have hall : ∀ n : Fin 10, strchr digits (digit n) = some n.val := by decide
  exact hall ⟨d, hd⟩

theorem digitChar_toUInt8 {d : Nat} (hd : d < 10) : d.digitChar.toUInt8 = digit d := by
  have hall : ∀ n : Fin 10, n.val.digitChar.toUInt8 = digit n := by decide
  exact hall ⟨d, hd⟩

theorem toNat_octet {n : Nat} (h : n ≤ 255) : (UInt8.ofNat n).toNat = n := by
  simp
  omega

theorem decimal_digit {d : Nat} (hd : d < 10) :
    decimal (UInt8.ofNat d) = [digit d] := by
  have hval : (UInt8.ofNat d).toNat = d := toNat_octet (by omega)
  simp [decimal, hval, Nat.toDigits_of_lt_base hd, digitChar_toUInt8 hd]

/-- A digit behind a number that is not zero. -/
theorem decimal_snoc {v : UInt8} {d : Nat} (hv : v ≠ 0) (hd : d < 10)
    (hle : v.toNat * 10 + d ≤ 255) :
    decimal (UInt8.ofNat (v.toNat * 10 + d)) = decimal v ++ [digit d] := by
  have hpos : v.toNat ≠ 0 := fun h => hv (UInt8.toNat_inj.mp h)
  have hdiv : (v.toNat * 10 + d) / 10 = v.toNat := by omega
  have hmod : (v.toNat * 10 + d) % 10 = d := by omega
  rw [decimal, toNat_octet hle, Nat.toDigits_of_base_le (by decide) (by omega), hdiv, hmod]
  simp [decimal, digitChar_toUInt8 hd]

/-- An octet is a digit, or has a last digit behind others. -/
theorem decimal_cases (b : UInt8) :
    (∃ d, d < 10 ∧ b = UInt8.ofNat d ∧ decimal b = [digit d]) ∨
      ∃ v d, v ≠ 0 ∧ d < 10 ∧ v.toNat * 10 + d = b.toNat ∧ decimal b = decimal v ++ [digit d] := by
  have hb := b.toNat_lt
  by_cases hsmall : b.toNat < 10
  · refine .inl ⟨b.toNat, hsmall, UInt8.ofNat_toNat.symm, ?_⟩
    simpa [UInt8.ofNat_toNat] using decimal_digit hsmall
  · have hv : (UInt8.ofNat (b.toNat / 10)).toNat = b.toNat / 10 := toNat_octet (by omega)
    have hsum : (UInt8.ofNat (b.toNat / 10)).toNat * 10 + b.toNat % 10 = b.toNat := by omega
    have hne : UInt8.ofNat (b.toNat / 10) ≠ 0 := by
      intro hzero
      have hzero' : b.toNat / 10 = 0 := hv.symm.trans (congrArg UInt8.toNat hzero)
      omega
    have hd : b.toNat % 10 < 10 := Nat.mod_lt _ (by decide)
    have hdec := decimal_snoc hne hd (by omega)
    rw [hsum, UInt8.ofNat_toNat] at hdec
    exact .inr ⟨_, _, hne, hd, hsum, hdec⟩

/-! ## What `inet_pton4` accepts -/

namespace Pton4

/-- The text that has been read. -/
def text (st : Pton4) : List UInt8 :=
  st.tmp.flatMap (fun b => decimal b ++ [46]) ++ if st.sawDigit then decimal st.cur else []

/-- What holds between two rounds. -/
structure Ok (st : Pton4) : Prop where
  octets : st.octets = st.tmp.length + st.sawDigit.toNat
  fresh : st.sawDigit = false → st.cur = 0
  few : st.tmp.length ≤ 3

/-- A round takes the next character into the text. -/
theorem step_text {st st' : Pton4} {ch : UInt8} (hst : st.Ok) (h : st.step ch = some st') :
    st'.Ok ∧ st'.text = st.text ++ [ch] := by
  obtain ⟨hoctets, hfresh, hfew⟩ := hst
  unfold step at h
  cases hd : strchr digits ch with
  | some d =>
      obtain ⟨hlt, rfl⟩ := strchr_digits_eq_some hd
      simp only [hd] at h
      split at h
      · cases h
      · next hzero =>
          split at h
          · cases h
          · next hbig =>
              cases hsaw : st.sawDigit with
              | true =>
                  have hcur : st.cur ≠ 0 := fun hc => hzero ⟨hsaw, hc⟩
                  simp only [hsaw, if_true, Option.some.injEq] at h
                  subst h
                  refine ⟨⟨by simpa [hsaw] using hoctets, by simp, hfew⟩, ?_⟩
                  simp only [text, hsaw, if_true, decimal_snoc hcur hlt (by omega),
                    List.append_assoc]
              | false =>
                  have hcur := hfresh hsaw
                  simp only [hsaw, Bool.false_eq_true, if_false] at h
                  split at h
                  · cases h
                  · cases h
                    refine ⟨⟨by simpa [hsaw] using hoctets, by simp, hfew⟩, ?_⟩
                    simp [text, hsaw, hcur, decimal_digit hlt]
  | none =>
      simp only [hd] at h
      split at h
      · next hdot =>
          obtain ⟨rfl, hsaw⟩ := hdot
          split at h
          · cases h
          · next hfour =>
              cases h
              simp only [hsaw, Bool.toNat_true] at hoctets
              refine ⟨⟨by simpa using hoctets, by simp, ?_⟩, by simp [text, hsaw]⟩
              rw [List.length_append, List.length_singleton]
              omega
      · cases h

/-- The rounds take the whole text. -/
theorem foldlM_text {st st' : Pton4} {src : List UInt8} (hst : st.Ok)
    (h : src.foldlM step st = some st') : st'.Ok ∧ st'.text = st.text ++ src := by
  induction src generalizing st with
  | nil =>
      cases h
      simp [hst]
  | cons ch src ih =>
      obtain ⟨st₁, hstep, hrest⟩ := Option.bind_eq_some_iff.mp h
      obtain ⟨hok, htext⟩ := step_text hst hstep
      obtain ⟨hok', htext'⟩ := ih hok hrest
      exact ⟨hok', by simp [htext', htext]⟩

theorem step_first (tmp : List UInt8) {octets d : Nat} (hoctets : octets < 4) (hd : d < 10) :
    step ⟨tmp, 0, false, octets⟩ (digit d) = some ⟨tmp, UInt8.ofNat d, true, octets + 1⟩ := by
  have hbig : ¬ 255 < d := by omega
  have hfull : ¬ 4 < octets + 1 := by omega
  simp [step, strchr_digits_digit hd, hbig, hfull]

theorem step_next (tmp : List UInt8) (octets : Nat) {v : UInt8} {d : Nat} (hv : v ≠ 0)
    (hd : d < 10) (hle : v.toNat * 10 + d ≤ 255) :
    step ⟨tmp, v, true, octets⟩ (digit d) =
      some ⟨tmp, UInt8.ofNat (v.toNat * 10 + d), true, octets⟩ := by
  simp only [step, strchr_digits_digit hd, hv, and_false, if_false, if_true,
    if_neg (show ¬ v.toNat * 10 + d > 255 by omega)]

theorem step_dot (tmp : List UInt8) (b : UInt8) {octets : Nat} (h : octets ≠ 4) :
    step ⟨tmp, b, true, octets⟩ 46 = some ⟨tmp ++ [b], 0, false, octets⟩ := by
  have hdot : strchr digits 46 = none := by decide
  simp [step, hdot, h]

/-- The digits of an octet are read as that octet. -/
theorem foldlM_decimal (tmp : List UInt8) {octets : Nat} (hoctets : octets < 4) (b : UInt8) :
    (decimal b).foldlM step ⟨tmp, 0, false, octets⟩ = some ⟨tmp, b, true, octets + 1⟩ := by
  induction hn : b.toNat using Nat.strong_induction_on generalizing b with
  | _ n ih =>
      rcases decimal_cases b with ⟨d, hd, rfl, hdec⟩ | ⟨v, d, hv, hd, hsum, hdec⟩
      · simp [hdec, step_first tmp hoctets hd]
      · -- the last digit is read behind the number without it
        have hb := b.toNat_lt
        have hpos : v.toNat ≠ 0 := fun h => hv (UInt8.toNat_inj.mp h)
        have hnext := step_next tmp (octets + 1) hv hd (by omega)
        rw [hsum, UInt8.ofNat_toNat] at hnext
        rw [hdec, List.foldlM_append, ih v.toNat (by omega) v rfl]
        simp [hnext]

end Pton4

theorem inetPton4_dotted (a b c d : UInt8) : inetPton4 (dotted a b c d) = some [a, b, c, d] := by
  simp [inetPton4, dotted, List.foldlM_append, Pton4.foldlM_decimal, Pton4.step_dot]

/-- **IPv4**: a text is accepted exactly if it is four octets in decimal, without leading
zeros, and they are the address. -/
theorem inetPton4_eq_some {src addr : List UInt8} :
    inetPton4 src = some addr ↔
      ∃ a b c d, addr = [a, b, c, d] ∧ src = dotted a b c d := by
  constructor
  · intro h
    obtain ⟨st, hrun, hend⟩ := Option.bind_eq_some_iff.mp h
    obtain ⟨hok, htext⟩ := Pton4.foldlM_text ⟨rfl, fun _ => rfl, Nat.zero_le _⟩ hrun
    simp only [Option.ite_none_left_eq_some, Option.some.injEq] at hend
    obtain ⟨hfour, rfl⟩ := hend
    have hoctets := hok.octets
    have hfew := hok.few
    -- a text that ends behind a dot has three octets at most
    cases hsaw : st.sawDigit with
    | false =>
        simp only [hsaw, Bool.toNat_false] at hoctets
        omega
    | true =>
        simp only [hsaw, Bool.toNat_true] at hoctets
        obtain ⟨a, b, c, htmp⟩ := List.length_eq_three.mp (show st.tmp.length = 3 by omega)
        refine ⟨a, b, c, st.cur, by simp [htmp], ?_⟩
        simpa [Pton4.text, htmp, hsaw, dotted] using htext.symm
  · rintro ⟨a, b, c, d, rfl, rfl⟩
    exact inetPton4_dotted a b c d

end Inet

end GEngine
