import Mathlib.Data.List.Induction
import GEngine.Inet

/-!
# GEngine.Inet.Ip6

What `inet_pton6` accepts: the texts of `Ip6Text`, and for each of them the address that it
writes (`inetPton6_eq_some`).

A text is a row of groups with colons between them, of which the last one may be an IPv4
address in decimal; or two such rows, either of which may be empty, with `::` in the place
of the bytes that are missing.  The parser goes over the text once and puts the bytes one
behind the other; the second row is moved to the end when the text is read (`shift_eq`).
-/

namespace GEngine

namespace Inet

/-! ## Texts -/

/-- One to four hexadecimal digits. -/
structure HexGroup where
  text : List UInt8
  hex : ∀ ch ∈ text, (xdigit ch).isSome
  pos : text ≠ []
  short : text.length ≤ 4

/-- The number that hexadecimal digits are. -/
def hexValue (text : List UInt8) : Nat := text.foldl (fun v ch => 16 * v + (xdigit ch).getD 0) 0

/-- The number of a group, the high byte first. -/
def wordBytes (v : Nat) : List UInt8 := [UInt8.ofNat (v / 256), UInt8.ofNat (v % 256)]

/-- The two bytes of a group. -/
def HexGroup.bytes (g : HexGroup) : List UInt8 := wordBytes (hexValue g.text)

/-- Groups with a colon behind each. -/
def colonText (gs : List HexGroup) : List UInt8 := gs.flatMap fun g => g.text ++ [58]

/-- The bytes of groups. -/
def groupBytes (gs : List HexGroup) : List UInt8 := gs.flatMap HexGroup.bytes

/-- The end of a row. -/
inductive Tail
  | group (g : HexGroup)
  | quad (a b c d : UInt8)

namespace Tail

def text : Tail → List UInt8
  | group g => g.text
  | quad a b c d => dotted a b c d

def bytes : Tail → List UInt8
  | group g => g.bytes
  | quad a b c d => [a, b, c, d]

end Tail

/-- Groups with colons between them. -/
structure Row where
  groups : List HexGroup
  last : Tail

/-- The text of a row that need not be there. -/
def rowText : Option Row → List UInt8
  | none => []
  | some row => colonText row.groups ++ row.last.text

/-- The bytes of such a row. -/
def rowBytes : Option Row → List UInt8
  | none => []
  | some row => groupBytes row.groups ++ row.last.bytes

/-- A text for an IPv6 address: all of its bytes, or fewer and `::`. -/
inductive Ip6Text
  | full (row : Row) (h : (rowBytes (some row)).length = 16)
  | elided (front : List HexGroup) (back : Option Row)
      (h : (groupBytes front).length + (rowBytes back).length < 16)

namespace Ip6Text

def text : Ip6Text → List UInt8
  | full row _ => rowText (some row)
  | elided front back _ =>
      (if front.isEmpty then [58] else colonText front) ++ 58 :: rowText back

def bytes : Ip6Text → List UInt8
  | full row _ => rowBytes (some row)
  | elided front back _ =>
      groupBytes front ++
        (List.replicate (16 - (groupBytes front ++ rowBytes back).length) 0 ++ rowBytes back)

end Ip6Text

@[simp] theorem colonText_cons (g : HexGroup) (gs : List HexGroup) :
    colonText (g :: gs) = g.text ++ 58 :: colonText gs := by
  simp [colonText]

@[simp] theorem groupBytes_cons (g : HexGroup) (gs : List HexGroup) :
    groupBytes (g :: gs) = g.bytes ++ groupBytes gs := by
  simp [groupBytes]

@[simp] theorem length_bytes_group (g : HexGroup) : g.bytes.length = 2 := rfl

/-! ## Digits -/

theorem xdigit_lt {ch : UInt8} {d : Nat} (h : xdigit ch = some d) : d < 16 := by
  have hlt {table : List UInt8} (hlen : table.length = 16) (h : strchr table ch = some d) :
      d < 16 := by
    obtain ⟨hd, -⟩ := List.getElem?_eq_some_iff.mp (strchr_eq_some h)
    rwa [hlen] at hd
  unfold xdigit at h
  split at h
  · next d' hL =>
      cases h
      exact hlt rfl hL
  · exact hlt rfl h

@[simp] theorem xdigit_colon : xdigit 58 = none := by decide

@[simp] theorem xdigit_dot : xdigit 46 = none := by decide

/-- One more digit. -/
theorem hexValue_snoc (text : List UInt8) {ch : UInt8} {d : Nat} (h : xdigit ch = some d) :
    hexValue (text ++ [ch]) = 16 * hexValue text + d := by
  simp [hexValue, h]

/-- `val` behind the digits. -/
def valOf (text : List UInt8) : UInt32 :=
  text.foldl (fun v ch => v <<< 4 ||| UInt32.ofNat ((xdigit ch).getD 0)) 0

/-- The same for the word the code keeps. -/
theorem valOf_snoc (text : List UInt8) {ch : UInt8} {d : Nat} (h : xdigit ch = some d) :
    valOf (text ++ [ch]) = valOf text <<< 4 ||| UInt32.ofNat d := by
  simp [valOf, h]

/-- A digit that is shifted in from the right. -/
theorem toNat_shift_or {v : UInt32} {d : Nat} (hv : v.toNat < 2 ^ 28) (hd : d < 16) :
    (v <<< 4 ||| UInt32.ofNat d).toNat = 16 * v.toNat + d := by
  have hlow : (UInt32.ofNat d).toNat = d := by
    rw [UInt32.toNat_ofNat']
    omega
  have hor := Nat.two_pow_add_eq_or_of_lt (i := 4) (b := d) (by omega) v.toNat
  rw [UInt32.toNat_or, UInt32.toNat_shiftLeft, hlow, Nat.shiftLeft_eq]
  simp only [UInt32.reduceToNat, Nat.reducePow, Nat.reduceMod] at hor ⊢
  rw [Nat.mod_eq_of_lt (by omega), Nat.mul_comm, ← hor]

/-- Up to four digits the word is their value. -/
theorem toNat_valOf {text : List UInt8} (hhex : ∀ ch ∈ text, (xdigit ch).isSome)
    (hlen : text.length ≤ 4) :
    (valOf text).toNat = hexValue text ∧ hexValue text < 16 ^ text.length := by
  induction text using List.reverseRecOn with
  | nil => simp [valOf, hexValue]
  | append_singleton text ch ih =>
      rw [List.length_append, List.length_singleton] at hlen
      obtain ⟨hval, hlt⟩ := ih (fun c hc => hhex c (by simp [hc])) (by omega)
      obtain ⟨d, hd⟩ := Option.isSome_iff_exists.mp (hhex ch (by simp))
      have hdlt := xdigit_lt hd
      have hpow : 16 ^ text.length ≤ 16 ^ 4 := Nat.pow_le_pow_right (by decide) (by omega)
      rw [valOf_snoc text hd, hexValue_snoc text hd, toNat_shift_or (by omega) hdlt, hval,
        List.length_append, List.length_singleton, Nat.pow_succ]
      omega

namespace Pton6

/-- The digits that have been read since the last colon. -/
structure Pending (st : Pton6) (tok : List UInt8) : Prop where
  hex : ∀ ch ∈ tok, (xdigit ch).isSome
  short : tok.length ≤ 4
  seen : st.seenXdigits = tok.length
  val : st.val = valOf tok

/-- What is stored for the digits. -/
theorem Pending.word_eq {st : Pton6} {tok : List UInt8} (h : st.Pending tok) :
    st.word = wordBytes (hexValue tok) := by
  obtain ⟨hval, hlt⟩ := toNat_valOf h.hex h.short
  have hpow : 16 ^ tok.length ≤ 16 ^ 4 := Nat.pow_le_pow_right (by decide) h.short
  have hmask : ∀ b : UInt8, b &&& 0xff = b := fun b => by
    apply UInt8.toNat_inj.mp
    have hb := b.toNat_lt
    rw [UInt8.toNat_and]
    exact (Nat.and_two_pow_sub_one_eq_mod b.toNat 8).trans (Nat.mod_eq_of_lt hb)
  rw [word, wordBytes, hmask, hmask, h.val]
  congr 1
  · apply UInt8.toNat_inj.mp
    simp [hval, Nat.shiftRight_eq_div_pow]
  · congr 1
    apply UInt8.toNat_inj.mp
    simp [hval]

theorem pending_nil (tmp : List UInt8) (colonp : Option Nat) (curtok : List UInt8) :
    Pending ⟨tmp, colonp, curtok, 0, 0⟩ [] :=
  ⟨by simp, by simp, rfl, rfl⟩

/-- The state behind a digit. -/
def withDigit (st : Pton6) (d : Nat) : Pton6 :=
  { st with
    val := st.val <<< 4 ||| UInt32.ofNat d
    seenXdigits := st.seenXdigits + 1 }

theorem Pending.snoc {st : Pton6} {tok : List UInt8} {ch : UInt8} {d : Nat} (h : st.Pending tok)
    (hd : xdigit ch = some d) (hfew : st.seenXdigits < 4) :
    (st.withDigit d).Pending (tok ++ [ch]) where
  hex := by
    intro c hc
    rcases List.mem_append.mp hc with hc | hc
    · exact h.hex c hc
    · simp [List.mem_singleton.mp hc, hd]
  short := by
    have hseen := h.seen
    simp
    omega
  seen := by simp [withDigit, h.seen]
  val := by rw [valOf_snoc tok hd, ← h.val, withDigit]

/-- The group that the digits are. -/
def Pending.group {st : Pton6} {tok : List UInt8} (h : st.Pending tok)
    (hseen : st.seenXdigits ≠ 0) : HexGroup where
  text := tok
  hex := h.hex
  pos := by
    rintro rfl
    exact hseen h.seen
  short := h.short

/-! ## Texts that are accepted are texts -/

/-- The loop, and what is stored behind it. -/
def run (st : Pton6) (src : List UInt8) : Option Pton6 := (st.loop src).bind flush

/-- What the rest of a text has done to the state: it was a row, or there was a `::` in it. -/
inductive Reads (st st' : Pton6) (text : List UInt8) : Prop
  | row (back : Option Row) (htext : text = rowText back) (hcolon : st'.colonp = st.colonp)
      (htmp : st'.tmp = st.tmp ++ rowBytes back)
  | elided (front : List HexGroup) (back : Option Row) (hfirst : st.colonp = none)
      (htext : text = colonText front ++ 58 :: rowText back)
      (hcolon : st'.colonp = some (st.tmp ++ groupBytes front).length)
      (htmp : st'.tmp = st.tmp ++ groupBytes front ++ rowBytes back)

theorem Reads.congr {st st₁ st' : Pton6} {text : List UInt8} (h : Reads st₁ st' text)
    (htmp : st₁.tmp = st.tmp) (hcolon : st₁.colonp = st.colonp) : Reads st st' text := by
  cases h with
  | row back htext hcolon' htmp' =>
      exact .row back htext (hcolon'.trans hcolon) (by rw [htmp', htmp])
  | elided front back hfirst htext hcolon' htmp' =>
      exact .elided front back (hcolon.symm.trans hfirst) htext (by rw [hcolon', htmp])
        (by rw [htmp', htmp])

/-- A group in front of the rest of a text. -/
theorem Reads.cons {st st₁ st' : Pton6} {src : List UInt8} {g : HexGroup} (h : Reads st₁ st' src)
    (hsrc : src ≠ []) (htmp : st₁.tmp = st.tmp ++ g.bytes) (hcolon : st₁.colonp = st.colonp) :
    Reads st st' (g.text ++ 58 :: src) := by
  cases h with
  | row back htext hcolon' htmp' =>
      cases back with
      | none => exact absurd htext hsrc
      | some row =>
          refine .row (some ⟨g :: row.groups, row.last⟩) ?_ (hcolon'.trans hcolon) ?_
          · simp [htext, rowText]
          · simp [htmp', htmp, rowBytes]
  | elided front back hfirst htext hcolon' htmp' =>
      refine .elided (g :: front) back (hcolon.symm.trans hfirst) ?_ ?_ ?_
      · simp [htext]
      · simp [hcolon', htmp]
      · simp [htmp', htmp]

/-- What the end of a text does. -/
theorem reads_flush {st st' : Pton6} {tok : List UInt8} (htok : st.Pending tok)
    (hlen : st.tmp.length ≤ 16) (h : st.flush = some st') :
    Reads st st' tok ∧ st'.tmp.length ≤ 16 := by
  unfold flush at h
  split at h
  · next hseen =>
      cases h
      have hnil : tok = [] := List.length_eq_zero_iff.mp (htok.seen.symm.trans hseen)
      exact ⟨.row none hnil rfl (by simp [rowBytes]), hlen⟩
  · next hseen =>
      split at h
      · cases h
      · next hroom =>
          cases h
          refine ⟨.row (some ⟨[], .group (htok.group hseen)⟩) rfl rfl ?_, ?_⟩
          · simp [rowBytes, groupBytes, Tail.bytes, HexGroup.bytes, Pending.group, htok.word_eq]
          · simp [word]
            omega

/-- What the loop has done with a character of a text that is accepted. -/
inductive Took (st st' : Pton6) (ch : UInt8) (src : List UInt8) : Prop
  | digit (d : Nat) (hd : xdigit ch = some d) (hfew : st.seenXdigits < 4)
      (hrest : (st.withDigit d).run src = some st')
  | pair (hch : ch = 58) (hseen : st.seenXdigits = 0) (hfirst : st.colonp = none)
      (hrest : run { st with curtok := src, colonp := some st.tmp.length } src = some st')
  | colon (hch : ch = 58) (hseen : st.seenXdigits ≠ 0) (hsrc : src ≠ [])
      (hroom : st.tmp.length + 2 ≤ 16)
      (hrest : run ⟨st.tmp ++ st.word, st.colonp, src, 0, 0⟩ src = some st')
  | quad (addr : List UInt8) (haddr : inetPton4 st.curtok = some addr)
      (hroom : st.tmp.length + 4 ≤ 16)
      (hrest : st' = { st with tmp := st.tmp ++ addr, seenXdigits := 0 })

theorem took_of_run {st st' : Pton6} {ch : UInt8} {src : List UInt8}
    (h : st.run (ch :: src) = some st') : Took st st' ch src := by
  unfold run loop at h
  cases hd : xdigit ch with
  | some d =>
      simp only [hd] at h
      split at h
      · cases h
      · next hfew => exact .digit d hd (by omega) h
  | none =>
      simp only [hd] at h
      split at h
      · next hch =>
          split at h
          · next hseen =>
              split at h
              · cases h
              · next hfirst => exact .pair hch hseen (by simpa using hfirst) h
          · next hseen =>
              split at h
              · cases h
              · next hsrc =>
                  split at h
                  · cases h
                  · next hroom => exact .colon hch hseen hsrc (by omega) h
      · split at h
        · next hdot =>
            cases haddr : inetPton4 st.curtok with
            | none => simp [haddr] at h
            | some addr =>
                simp only [haddr, Option.bind_some, flush, if_true, Option.some.injEq] at h
                exact .quad addr haddr hdot.2 h.symm
        · cases h

/-- The loop reads what is left of a text. -/
theorem reads_run {st st' : Pton6} {tok src : List UInt8} (htok : st.Pending tok)
    (hcur : st.curtok = tok ++ src) (hlen : st.tmp.length ≤ 16) (h : st.run src = some st') :
    Reads st st' (tok ++ src) ∧ st'.tmp.length ≤ 16 := by
  induction src generalizing st tok with
  | nil =>
      rw [List.append_nil]
      exact reads_flush htok hlen h
  | cons ch src ih =>
      cases took_of_run h with
      | digit d hd hfew hrest =>
          have hsplit : tok ++ ch :: src = tok ++ [ch] ++ src := by simp
          rw [hsplit] at hcur ⊢
          obtain ⟨hreads, hle⟩ := ih (htok.snoc hd hfew) hcur hlen hrest
          exact ⟨hreads.congr rfl rfl, hle⟩
      | pair hch hseen hfirst hrest =>
          have hnil : tok = [] := List.length_eq_zero_iff.mp (htok.seen.symm.trans hseen)
          subst hnil hch
          have hpair : Pending { st with curtok := src, colonp := some st.tmp.length } [] :=
            ⟨htok.hex, htok.short, htok.seen, htok.val⟩
          obtain ⟨hreads, hle⟩ := ih hpair rfl hlen hrest
          refine ⟨?_, hle⟩
          cases hreads with
          | row back htext hcolon htmp =>
              refine .elided [] back hfirst ?_ ?_ ?_
              · simpa [colonText] using htext
              · simpa [groupBytes] using hcolon
              · simpa [groupBytes] using htmp
          | elided front back hfirst' => cases hfirst'
      | colon hch hseen hsrc hroom hrest =>
          subst hch
          have hword : st.word.length = 2 := rfl
          have hlen' : (st.tmp ++ st.word).length ≤ 16 := by
            rw [List.length_append]
            omega
          obtain ⟨hreads, hle⟩ := ih (pending_nil _ _ _) rfl hlen' hrest
          have htmp : st.tmp ++ st.word = st.tmp ++ (htok.group hseen).bytes := by
            rw [htok.word_eq]
            rfl
          exact ⟨hreads.cons hsrc htmp rfl, hle⟩
      | quad addr haddr hroom hrest =>
          obtain ⟨a, b, c, d, rfl, htext⟩ := inetPton4_eq_some.mp haddr
          subst hrest
          refine ⟨.row (some ⟨[], .quad a b c d⟩) (hcur.symm.trans htext) rfl rfl, ?_⟩
          simp
          omega

end Pton6

/-! ## The shift -/

/-- A round moves the last byte that is still at its old place. -/
theorem shiftRound_eq (front b done : List UInt8) (x : UInt8) {d : Nat}
    (hsum : front.length + (b.length + 1 + done.length) + (d + 1) = 16) :
    shiftRound front.length (b.length + 1 + done.length)
        (front ++ (b ++ [x] ++ (List.replicate (d + 1) 0 ++ done))) (done.length + 1) =
      front ++ (b ++ (List.replicate (d + 1) 0 ++ x :: done)) := by
  have hfrom : front.length + (b.length + 1 + done.length) - (done.length + 1) =
      (front ++ b).length := by
    rw [List.length_append]
    omega
  have hto : 16 - (done.length + 1) = (front ++ b).length + (1 + d) := by
    rw [List.length_append]
    omega
  have hbuf : front ++ (b ++ [x] ++ (List.replicate (d + 1) 0 ++ done)) =
      front ++ b ++ x :: (List.replicate d 0 ++ 0 :: done) := by
    simp [List.replicate_succ']
  have hget : (front ++ b ++ x :: (List.replicate d 0 ++ 0 :: done)).getD (front ++ b).length 0 =
      x := by
    simp
  have hset : (front ++ b ++ x :: (List.replicate d 0 ++ 0 :: done)).set
      ((front ++ b).length + (1 + d)) x = front ++ b ++ x :: (List.replicate d 0 ++ x :: done) := by
    rw [List.set_append_right _ _ (Nat.le_add_right _ _), Nat.add_sub_cancel_left, Nat.add_comm 1 d,
      List.set_cons_succ, List.set_append_right _ _ (by simp), List.length_replicate,
      Nat.sub_self, List.set_cons_zero]
  rw [shiftRound, hfrom, hto, hbuf, hget, hset, List.set_append_right _ _ (Nat.le_refl _),
    Nat.sub_self, List.set_cons_zero]
  simp [List.replicate_succ]

/-- The loop that moves the bytes behind `::` to the end, after some of its rounds. -/
theorem foldl_shiftRound (front b done : List UInt8) {n d : Nat} (hn : n = b.length + done.length)
    (hsum : front.length + n + (d + 1) = 16) :
    (List.range' (done.length + 1) b.length).foldl (shiftRound front.length n)
        (front ++ (b ++ (List.replicate (d + 1) 0 ++ done))) =
      front ++ (List.replicate (d + 1) 0 ++ (b ++ done)) := by
  induction b using List.reverseRecOn generalizing done with
  | nil => simp
  | append_singleton b x ih =>
      have hlen : (b ++ [x]).length = b.length + 1 := by simp
      rw [hlen] at hn ⊢
      have hround := shiftRound_eq front b done x (d := d) (by omega)
      rw [← hn] at hround
      have hrest := ih (x :: done) (by simp; omega)
      rw [List.range'_succ, List.foldl_cons, hround]
      simpa using hrest

/-- The shift makes room between the two rows. -/
theorem shift_eq {front back : List UInt8} (h : (front ++ back).length < 16) :
    shift front.length back.length
        (front ++ back ++ List.replicate (16 - (front ++ back).length) 0) =
      front ++ (List.replicate (16 - (front ++ back).length) 0 ++ back) := by
  rw [List.length_append] at h ⊢
  obtain ⟨d, hd⟩ : ∃ d, 16 - (front.length + back.length) = d + 1 :=
    ⟨16 - (front.length + back.length) - 1, by omega⟩
  have hall := foldl_shiftRound front back [] (n := back.length) (d := d) (by simp) (by omega)
  rw [hd]
  simpa [shift] using hall

/-! ## Texts are accepted -/

namespace Pton6

/-- Digits are read one after the other. -/
theorem loop_digits {tok src : List UInt8} (hhex : ∀ ch ∈ tok, (xdigit ch).isSome) (st : Pton6)
    (hfew : st.seenXdigits + tok.length ≤ 4) :
    st.loop (tok ++ src) =
      loop { st with
        val := tok.foldl (fun v ch => v <<< 4 ||| UInt32.ofNat ((xdigit ch).getD 0)) st.val
        seenXdigits := st.seenXdigits + tok.length } src := by
  induction tok generalizing st with
  | nil => rfl
  | cons ch tok ih =>
      obtain ⟨d, hd⟩ := Option.isSome_iff_exists.mp (hhex ch (by simp))
      rw [List.length_cons] at hfew
      have hroom : ¬ 4 < st.seenXdigits + 1 := by omega
      have hrest := ih (fun c hc => hhex c (by simp [hc])) (st.withDigit d)
        (by simp only [withDigit]; omega)
      rw [List.cons_append, loop]
      simp only [hd, gt_iff_lt, if_neg hroom]
      refine hrest.trans ?_
      simp [withDigit, hd, Nat.add_assoc, Nat.add_comm 1]

/-- A state between two groups. -/
def fresh (tmp : List UInt8) (colonp : Option Nat) (src : List UInt8) : Pton6 :=
  ⟨tmp, colonp, src, 0, 0⟩

theorem loop_fresh_digits {tok : List UInt8} (hhex : ∀ ch ∈ tok, (xdigit ch).isSome)
    (hfew : tok.length ≤ 4) (tmp : List UInt8) (colonp : Option Nat) (curtok src : List UInt8) :
    (fresh tmp colonp curtok).loop (tok ++ src) =
      loop ⟨tmp, colonp, curtok, tok.length, valOf tok⟩ src := by
  rw [loop_digits hhex _ (by simpa [fresh] using hfew)]
  simp [fresh, valOf]

theorem pending_valOf (g : HexGroup) (tmp : List UInt8) (colonp : Option Nat)
    (curtok : List UInt8) : Pending ⟨tmp, colonp, curtok, g.text.length, valOf g.text⟩ g.text :=
  ⟨g.hex, g.short, rfl, rfl⟩

theorem length_text_ne (g : HexGroup) : g.text.length ≠ 0 :=
  fun h => g.pos (List.length_eq_zero_iff.mp h)

/-- A group and a colon, with something behind them. -/
theorem loop_group (g : HexGroup) {tmp src : List UInt8} (hroom : tmp.length + 2 ≤ 16)
    (hsrc : src ≠ []) (colonp : Option Nat) (curtok : List UInt8) :
    (fresh tmp colonp curtok).loop (g.text ++ 58 :: src) =
      (fresh (tmp ++ g.bytes) colonp src).loop src := by
  rw [loop_fresh_digits g.hex g.short, loop]
  have hfull : ¬ 16 < tmp.length + 2 := by omega
  simp [length_text_ne g, hsrc, hfull, (pending_valOf g tmp colonp curtok).word_eq, fresh,
    HexGroup.bytes]

/-- The loop takes groups with their colons. -/
theorem loop_groups (gs : List HexGroup) {tmp src : List UInt8}
    (hroom : tmp.length + (groupBytes gs).length ≤ 16) (hsrc : src ≠ []) (colonp : Option Nat) :
    (fresh tmp colonp (colonText gs ++ src)).loop (colonText gs ++ src) =
      (fresh (tmp ++ groupBytes gs) colonp src).loop src := by
  induction gs generalizing tmp with
  | nil => simp [colonText, groupBytes]
  | cons g gs ih =>
      rw [groupBytes_cons, List.length_append, length_bytes_group] at hroom
      have hne : colonText gs ++ src ≠ [] := by simp [hsrc]
      rw [colonText_cons, List.append_assoc, List.cons_append,
        loop_group g (by omega) hne, ih (by simp; omega)]
      simp

theorem xdigit_digit {d : Nat} (hd : d < 10) : (xdigit (digit d)).isSome := by
  have hall : ∀ n : Fin 10, (xdigit (digit n)).isSome := by decide
  exact hall ⟨d, hd⟩

theorem length_decimal {b : UInt8} {k : Nat} (hb : b.toNat < 10 ^ (k + 1)) :
    (decimal b).length ≤ k + 1 := by
  induction k generalizing b with
  | zero =>
      have hsmall : b.toNat < 10 := by simpa using hb
      simpa using (congrArg List.length (decimal_digit hsmall)).le
  | succ k ih =>
      rcases decimal_cases b with ⟨d, -, -, hdec⟩ | ⟨v, d, -, -, hsum, hdec⟩
      · simp [hdec]
      · rw [Nat.pow_succ] at hb
        have hlen := ih (b := v) (by omega)
        simpa [hdec] using hlen

/-- The digits of an octet are hexadecimal digits. -/
theorem decimal_hex (b : UInt8) : ∀ ch ∈ decimal b, (xdigit ch).isSome := by
  induction hn : b.toNat using Nat.strong_induction_on generalizing b with
  | _ n ih =>
      rcases decimal_cases b with ⟨d, hd, -, hdec⟩ | ⟨v, d, hv, hd, hsum, hdec⟩
      · simp [hdec, xdigit_digit hd]
      · have hpos : v.toNat ≠ 0 := fun h => hv (UInt8.toNat_inj.mp h)
        rw [hdec]
        intro ch hch
        rcases List.mem_append.mp hch with hch | hch
        · exact ih v.toNat (by omega) v rfl ch hch
        · rw [List.mem_singleton.mp hch]
          exact xdigit_digit hd

/-- The end of a row. -/
theorem run_last (last : Tail) (tmp : List UInt8) (hroom : tmp.length + last.bytes.length ≤ 16)
    (colonp : Option Nat) : ∃ st, (fresh tmp colonp last.text).run last.text = some st ∧
      st.tmp = tmp ++ last.bytes ∧ st.colonp = colonp := by
  cases last with
  | group g =>
      have hword := (pending_valOf g tmp colonp g.text).word_eq
      have hfull : ¬ 16 < tmp.length + 2 := by
        simp only [Tail.bytes, length_bytes_group] at hroom
        omega
      have hloop := loop_fresh_digits g.hex g.short tmp colonp g.text []
      rw [List.append_nil] at hloop
      refine ⟨⟨tmp ++ g.bytes, colonp, g.text, g.text.length, valOf g.text⟩, ?_, rfl, rfl⟩
      simp [run, Tail.text, hloop, loop, flush, g.pos, hfull, hword, HexGroup.bytes]
  | quad a b c d =>
      have hfits : tmp.length + 4 ≤ 16 := hroom
      have hlen : (decimal a).length ≤ 2 + 1 := length_decimal (by have := a.toNat_lt; omega)
      obtain ⟨rest, hrest⟩ : ∃ rest, dotted a b c d = decimal a ++ 46 :: rest := ⟨_, rfl⟩
      have hloop := loop_fresh_digits (decimal_hex a) (by omega) tmp colonp (dotted a b c d)
        (46 :: rest)
      rw [← hrest] at hloop
      refine ⟨⟨tmp ++ [a, b, c, d], colonp, dotted a b c d, 0, valOf (decimal a)⟩, ?_, rfl, rfl⟩
      simp [run, Tail.text, hloop, loop, inetPton4_dotted, hfits, flush]

/-- The loop takes all that is behind the last `::`. -/
theorem run_row (back : Option Row) (tmp : List UInt8)
    (hroom : tmp.length + (rowBytes back).length ≤ 16) (colonp : Option Nat) :
    ∃ st, (fresh tmp colonp (rowText back)).run (rowText back) = some st ∧
      st.tmp = tmp ++ rowBytes back ∧ st.colonp = colonp := by
  cases back with
  | none => exact ⟨fresh tmp colonp [], rfl, by simp [fresh, rowBytes], rfl⟩
  | some row =>
      have hne : row.last.text ≠ [] := by
        cases row.last with
        | group g => exact g.pos
        | quad a b c d => simp [Tail.text, dotted]
      simp only [rowBytes, List.length_append] at hroom
      obtain ⟨st, hrun, htmp, hcolon⟩ := run_last row.last (tmp ++ groupBytes row.groups)
        (by simp; omega) colonp
      refine ⟨st, ?_, by simp [htmp, rowBytes], hcolon⟩
      rw [rowText, run, loop_groups row.groups (by omega) hne]
      exact hrun

end Pton6

open Pton6

theorem pton6From_eq (src : List UInt8) :
    pton6From src = ((fresh [] none src).run src).bind finish := by
  simp [pton6From, run, fresh, Option.bind_assoc]

theorem finish_of_none {st : Pton6} {addr : List UInt8} (hcolon : st.colonp = none) :
    st.finish = some addr ↔ st.tmp.length = 16 ∧ st.tmp = addr := by
  simp [finish, hcolon]

theorem finish_of_some {st : Pton6} {front back : List UInt8}
    (hcolon : st.colonp = some front.length) (htmp : st.tmp = front ++ back)
    (h : st.tmp.length < 16) :
    st.finish = some (front ++ (List.replicate (16 - (front ++ back).length) 0 ++ back)) := by
  have hne : st.tmp.length ≠ 16 := by omega
  rw [htmp] at h
  have hn : (front ++ back).length - front.length = back.length := by simp
  simp only [finish, hcolon, if_neg hne]
  rw [htmp, hn, shift_eq h]

/-- A text that is accepted, from `curtok` on. -/
theorem text_of_pton6From {src addr : List UInt8} (h : pton6From src = some addr) :
    (∃ row hrow, src = (Ip6Text.full row hrow).text ∧ addr = (Ip6Text.full row hrow).bytes) ∨
      ∃ front back hlen, src = colonText front ++ 58 :: rowText back ∧
        addr = (Ip6Text.elided front back hlen).bytes := by
  rw [pton6From_eq] at h
  obtain ⟨st, hrun, hend⟩ := Option.bind_eq_some_iff.mp h
  obtain ⟨hreads, hle⟩ := reads_run (pending_nil [] none src) rfl (Nat.zero_le _) hrun
  cases hreads with
  | row back htext hcolon htmp =>
      obtain ⟨hlen, rfl⟩ := (finish_of_none hcolon).mp hend
      rw [htmp] at hlen
      cases back with
      | none => cases hlen
      | some row => exact .inl ⟨row, hlen, htext, htmp⟩
  | elided front back hfirst htext hcolon htmp =>
      have hlt : st.tmp.length < 16 := by
        refine Nat.lt_of_le_of_ne hle fun hfull => ?_
        simp [finish, hcolon, hfull] at hend
      have haddr := finish_of_some hcolon htmp hlt
      rw [htmp] at hlt
      refine .inr ⟨front, back, by simpa using hlt, htext, ?_⟩
      exact (Option.some.inj (haddr.symm.trans hend)).symm

/-- A text with all of its bytes is accepted. -/
theorem pton6From_full {row : Row} (h : (rowBytes (some row)).length = 16) :
    pton6From (rowText (some row)) = some (rowBytes (some row)) := by
  obtain ⟨st, hrun, htmp, hcolon⟩ := run_row (some row) [] (by simp [h]) none
  rw [pton6From_eq, hrun]
  exact (finish_of_none hcolon).mpr ⟨by simp [htmp, h], htmp⟩

/-- So is one with `::`; the bytes that are left out are zero. -/
theorem pton6From_elided {front : List HexGroup} {back : Option Row}
    (h : (groupBytes front).length + (rowBytes back).length < 16) :
    pton6From (colonText front ++ 58 :: rowText back) =
      some (Ip6Text.elided front back h).bytes := by
  obtain ⟨st, hrun, htmp, hcolon⟩ := run_row back (groupBytes front) (by omega)
    (some (groupBytes front).length)
  have hpair : (fresh (groupBytes front) none (58 :: rowText back)).loop (58 :: rowText back) =
      (fresh (groupBytes front) (some (groupBytes front).length) (rowText back)).loop
        (rowText back) := by
    rw [loop]
    simp [fresh]
  rw [pton6From_eq, run, loop_groups front (by simp; omega) (by simp), List.nil_append, hpair]
  rw [run] at hrun
  rw [hrun]
  exact finish_of_some hcolon htmp (by rw [htmp, List.length_append]; omega)

/-! ## The first character -/

theorem head_ne_colon {tok : List UInt8} (hhex : ∀ ch ∈ tok, (xdigit ch).isSome)
    (hpos : tok ≠ []) (rest : List UInt8) : (tok ++ rest).head? ≠ some 58 := by
  cases tok with
  | nil => exact absurd rfl hpos
  | cons ch tok =>
      have hch := hhex ch (by simp)
      rintro heq
      simp only [List.cons_append, List.head?_cons, Option.some.injEq] at heq
      simp [heq] at hch

theorem head_rowText (row : Row) : (rowText (some row)).head? ≠ some 58 := by
  obtain ⟨groups, last⟩ := row
  cases groups with
  | nil =>
      cases last with
      | group g => simpa [rowText, colonText, Tail.text] using head_ne_colon g.hex g.pos []
      | quad a b c d =>
          have hpos : decimal a ≠ [] := by simp [decimal]
          simpa [rowText, colonText, Tail.text, dotted] using
            head_ne_colon (decimal_hex a) hpos
              (46 :: (decimal b ++ 46 :: (decimal c ++ 46 :: decimal d)))
  | cons g gs => simpa [rowText] using head_ne_colon g.hex g.pos (58 :: (colonText gs ++ last.text))

theorem head_colonText {front : List HexGroup} (h : front ≠ []) (rest : List UInt8) :
    (colonText front ++ rest).head? ≠ some 58 := by
  cases front with
  | nil => exact absurd rfl h
  | cons g gs => simpa using head_ne_colon g.hex g.pos (58 :: (colonText gs ++ rest))

/-- A text that starts with no colon. -/
theorem inetPton6_of_ne {src : List UInt8} (h : src.head? ≠ some 58) :
    inetPton6 src = pton6From src := by
  unfold inetPton6
  split
  · simp at h
  · rfl

/-- **IPv6**: a text is accepted exactly if it is one of `Ip6Text`, and its bytes are the
address. -/
theorem inetPton6_eq_some {src addr : List UInt8} :
    inetPton6 src = some addr ↔ ∃ t : Ip6Text, src = t.text ∧ addr = t.bytes := by
  constructor
  · intro h
    by_cases hhead : src.head? = some 58
    · -- the text starts with a pair of colons
      obtain ⟨rest, rfl⟩ := List.head?_eq_some_iff.mp hhead
      simp only [inetPton6, Option.ite_none_right_eq_some] at h
      obtain ⟨hsecond, h⟩ := h
      rcases text_of_pton6From h with ⟨row, hrow, htext, -⟩ | ⟨front, back, hlen, htext, rfl⟩
      · rw [htext] at hsecond
        exact absurd hsecond (head_rowText row)
      · have hfront : front = [] := by
          by_contra hne
          rw [htext] at hsecond
          exact head_colonText hne _ hsecond
        subst hfront
        exact ⟨.elided [] back hlen, by simp [htext, Ip6Text.text, colonText], rfl⟩
    · rw [inetPton6_of_ne hhead] at h
      rcases text_of_pton6From h with ⟨row, hrow, htext, haddr⟩ | ⟨front, back, hlen, htext, rfl⟩
      · exact ⟨.full row hrow, htext, haddr⟩
      · have hfront : front.isEmpty = false := by
          cases front with
          | nil => simp [htext, colonText] at hhead
          | cons g gs => rfl
        exact ⟨.elided front back hlen, by simp [htext, Ip6Text.text, hfront], rfl⟩
  · rintro ⟨t, rfl, rfl⟩
    cases t with
    | full row h =>
        rw [Ip6Text.text, inetPton6_of_ne (head_rowText row)]
        exact pton6From_full h
    | elided front back h =>
        cases front with
        | nil =>
            have hfrom := pton6From_elided h
            simp only [colonText, List.flatMap_nil, List.nil_append] at hfrom
            simp [Ip6Text.text, inetPton6, hfrom]
        | cons g gs =>
            rw [Ip6Text.text, List.isEmpty_cons, if_neg (by simp),
              inetPton6_of_ne (head_colonText (by simp) _)]
            exact pton6From_elided h

end Inet

end GEngine
