import FmacSdk.Foundation.Ascii
import FmacSdk.Foundation.Objects
import Mathlib.Order.Bounds.Basic

/-! # Keys and addresses as hexadecimal text

key_str prints each byte with its own terminator, and hex2bin reads pairs of digits up
to the first pair that is none. Texts and byte arrays are objects of a 32-bit machine.
-/
namespace FmacSdk.HexCodec
open Ascii Objects

def hexchr2int (c : UInt8) : ℤ :=
  if 48 ≤ c ∧ c ≤ 57 then c.toNat - 48
  else if 97 ≤ c ∧ c ≤ 102 then c.toNat - 97 + 10
  else if 65 ≤ c ∧ c ≤ 70 then c.toNat - 65 + 10
  else -1

def hex2char (hexStr : List UInt8) (p : ℕ) : Option ℤ := do
  let c ← load hexStr p
  let a := hexchr2int c
  if a < 0 then some (-1)
  else do
    let d ← load hexStr (p + 1)
    let b := hexchr2int d
    if b < 0 then some (-1) else some ((a.toNat <<< 4 ||| b.toNat : ℕ) : ℤ)

/-- (uint8)a -/
def toUint8 (a : ℤ) : UInt8 := UInt8.ofNat (a % 256).toNat

/-- for (; i < len && (i * 2) + 2 <= str_len; i++), with len - i rounds left and i in 32 bits -/
def hex2binLoop (hexStr : List UInt8) (strLen : ℕ) : ℕ → ℕ → List UInt8 → Option (ℕ × List UInt8)
  | 0, i, bin => some (i,bin)
  | left + 1, i, bin =>
    if (i * 2 + 2) % 2 ^ 32 ≤ strLen then do
      let a ← hex2char hexStr (2 * i)
      if a < 0 then some (i,bin)
      else do
        let bin ← store bin i (toUint8 a)
        hex2binLoop hexStr strLen left (i + 1) bin
    else some (i,bin)

def hex2bin (hexStr bin : Option (List UInt8)) (len : ℕ) : Option (ℕ × List UInt8) :=
  match hexStr, bin with
  | some hexStr, some bin => do
    let s ← text hexStr 0
    hex2binLoop hexStr s.length len 0 bin
  | _, bin => some (0,bin.getD [])

def str2mac (macstr mac : List UInt8) : Option (List UInt8) := do
  let mac ← store mac 0 (toUint8 (← hex2char macstr 0))
  let mac ← store mac 1 (toUint8 (← hex2char macstr 3))
  let mac ← store mac 2 (toUint8 (← hex2char macstr 6))
  let mac ← store mac 3 (toUint8 (← hex2char macstr 9))
  let mac ← store mac 4 (toUint8 (← hex2char macstr 12))
  store mac 5 (toUint8 (← hex2char macstr 15))

/-- os_sprintf(str_buf + i * 2, "%02x", key[i]) for the bytes that are left -/
def keyStrLoop : List UInt8 → ℕ → List UInt8 → Option (List UInt8)
  | [], _, strBuf => some strBuf
  | b :: key, i, strBuf => do
    let strBuf ← write strBuf (i * 2) (hexByte b ++ [0])
    keyStrLoop key (i + 1) strBuf

def keyStr (key strBuf : List UInt8) : Option (List UInt8) := keyStrLoop key 0 strBuf

/-- The text that MACSTR prints of an address. -/
def macText (mac : List UInt8) : List UInt8 := [58].intercalate (mac.map hexByte)

/-- How many bytes a text gives, at most `len`, and which. -/
structure Decodes (s bs : List UInt8) (len : ℕ) : Prop where
  digits : (s.take (2 * bs.length)).map lower = hexText bs
  greatest : IsGreatest {r | r ≤ len ∧ 2 * r ≤ s.length ∧ ∀ c ∈ s.take (2 * r), IsHex c} bs.length

section Digits
variable {c d : UInt8} {s u v bs : List UInt8} {len : ℕ}

theorem hexchr2int_eq (c : UInt8) : hexchr2int c =
    if 48 ≤ c.toNat ∧ c.toNat ≤ 57 then (c.toNat : ℤ) - 48
    else if 97 ≤ c.toNat ∧ c.toNat ≤ 102 then (c.toNat : ℤ) - 97 + 10
    else if 65 ≤ c.toNat ∧ c.toNat ≤ 70 then (c.toNat : ℤ) - 65 + 10
    else -1 := by
  simp only [hexchr2int,UInt8.le_iff_toNat_le]
  rfl

theorem hexchr2int_hex {k : ℕ} (hk : k < 16) (h : lower c = hexDigit k) : hexchr2int c = k := by
  have hnat := congrArg UInt8.toNat h
  rw [lower_toNat,hexDigit_toNat hk] at hnat
  rw [hexchr2int_eq]
  split_ifs at hnat ⊢ <;> omega

theorem isHex_of_toNat {k : ℕ} (hk : k < 16) (h : (lower c).toNat = if k < 10 then 48 + k else 87 + k) : IsHex c :=
  ⟨k,hk,UInt8.toNat_inj.mp (h.trans (hexDigit_toNat hk).symm)⟩

theorem hexchr2int_other (h : ¬ IsHex c) : hexchr2int c = -1 := by
  have hlower := lower_toNat c
  rw [hexchr2int_eq]
  split_ifs with hdecimal hsmall hlarge
  · refine absurd (isHex_of_toNat (k := c.toNat - 48) (by omega) ?_) h
    rw [hlower]
    split_ifs <;> omega
  · refine absurd (isHex_of_toNat (k := c.toNat - 87) (by omega) ?_) h
    rw [hlower]
    split_ifs <;> omega
  · refine absurd (isHex_of_toNat (k := c.toNat - 55) (by omega) ?_) h
    rw [hlower]
    split_ifs <;> omega
  · rfl

theorem hex2char_pair (u v : List UInt8) {j k : ℕ} (hj : j < 16) (hk : k < 16) (hc : lower c = hexDigit j)
    (hd : lower d = hexDigit k) : hex2char (u ++ c :: d :: v) u.length = some ((16 * j + k : ℕ) : ℤ) := by
  have hnext : load (u ++ c :: d :: v) (u.length + 1) = some d := by simp [load]
  have hor : j <<< 4 ||| k = 16 * j + k := by
    rw [← Nat.shiftLeft_add_eq_or_of_lt (by omega : k < 2 ^ 4),Nat.shiftLeft_eq]
    omega
  rw [hex2char,load_middle]
  simp only [Option.bind_eq_bind,Option.bind_some,hexchr2int_hex hj hc,hexchr2int_hex hk hd,hnext]
  rw [if_neg (by omega),if_neg (by omega)]
  simp only [Int.toNat_natCast,hor]

theorem hex2char_other (u v : List UInt8) (h : ¬ (IsHex c ∧ IsHex d)) :
    hex2char (u ++ c :: d :: v) u.length = some (-1) := by
  have hnext : load (u ++ c :: d :: v) (u.length + 1) = some d := by simp [load]
  rw [hex2char,load_middle]
  simp only [Option.bind_eq_bind,Option.bind_some,hnext]
  by_cases hc : IsHex c
  · have hd := hexchr2int_other fun hd => h ⟨hc,hd⟩
    simp [hd]
  · simp [hexchr2int_other hc]

theorem Decodes.none (s : List UInt8) : Decodes s [] 0 := by
  refine ⟨by simp,⟨by simp,?_⟩⟩
  intro r hr
  exact hr.1

/-- The text ends, or goes on with what is no pair of digits. -/
theorem Decodes.stop (len : ℕ) (h : ∀ c d t, s = c :: d :: t → ¬ (IsHex c ∧ IsHex d)) : Decodes s [] len := by
  refine ⟨by simp,⟨by simp,?_⟩⟩
  rintro r ⟨_,hfits,hhex⟩
  match r, s with
  | 0, _ => exact le_rfl
  | r + 1, [] => simp at hfits
  | r + 1, [c] => simp at hfits; omega
  | r + 1, c :: d :: t =>
    refine absurd ⟨hhex c ?_,hhex d ?_⟩ (h c d t rfl)
    · simp [Nat.mul_add]
    · simp [Nat.mul_add]

theorem Decodes.pair {b : UInt8} (hpair : [lower c,lower d] = hexByte b) (h : Decodes s bs len) :
    Decodes (c :: d :: s) (b :: bs) (len + 1) := by
  have htwo : ∀ r, (c :: d :: s).take (2 * (r + 1)) = c :: d :: s.take (2 * r) := fun r => by
    simp [Nat.mul_add]
  have hhex : IsHex c ∧ IsHex d := by
    have hmem : ∀ e ∈ [lower c,lower d], IsHex e := fun e he =>
      isHex_of_mem_hexText [b] (by simpa [hexText,hpair] using he)
    exact ⟨isHex_lower.mp (hmem _ (by simp)),isHex_lower.mp (hmem _ (by simp))⟩
  constructor
  · rw [List.length_cons,htwo,hexText_cons,← hpair,← h.digits]
    rfl
  · constructor
    · obtain ⟨hlen,hfits,hall⟩ := h.greatest.1
      refine ⟨Nat.succ_le_succ hlen,by simp; omega,?_⟩
      intro e he
      rw [List.length_cons,htwo] at he
      simp only [List.mem_cons] at he
      rcases he with rfl | rfl | he
      · exact hhex.1
      · exact hhex.2
      · exact hall e he
    · rintro r ⟨hlen,hfits,hall⟩
      cases r with
      | zero => omega
      | succ r =>
        rw [htwo] at hall
        have hle := h.greatest.2 ⟨Nat.le_of_succ_le_succ hlen,by simp at hfits; omega,
          fun e he => hall e (by simp [he])⟩
        exact Nat.succ_le_succ hle

end Digits

section Loop
variable {u s v front back : List UInt8} {c d : UInt8} {left : ℕ}

/-- No pair is left in front of the terminator. -/
theorem loop_short (hshort : s.length < 2) (hspace : u.length + 2 < 2 ^ 32) (hu : u.length = 2 * front.length)
    (bin : List UInt8) :
    hex2binLoop (u ++ (s ++ 0 :: v)) (u.length + s.length) (left + 1) front.length bin = some (front.length,bin) := by
  rw [hex2binLoop,Nat.mod_eq_of_lt (by omega),if_neg (by omega)]

theorem loop_other (h : ¬ (IsHex c ∧ IsHex d)) (hspace : u.length + 2 < 2 ^ 32) (hu : u.length = 2 * front.length)
    (bin : List UInt8) :
    hex2binLoop (u ++ (c :: d :: s ++ 0 :: v)) (u.length + (c :: d :: s).length) (left + 1) front.length bin =
      some (front.length,bin) := by
  have hchar := hex2char_other u (s ++ 0 :: v) h
  rw [hex2binLoop,Nat.mod_eq_of_lt (by omega),if_pos (by simp; omega),← hu]
  simp only [List.cons_append,hchar,Option.bind_eq_bind,Option.bind_some]
  rfl

theorem loop_pair {j k : ℕ} (hj : j < 16) (hk : k < 16) (hc : lower c = hexDigit j) (hd : lower d = hexDigit k)
    (hspace : u.length + 2 < 2 ^ 32) (hu : u.length = 2 * front.length) (y : UInt8) :
    hex2binLoop (u ++ (c :: d :: s ++ 0 :: v)) (u.length + (c :: d :: s).length) (left + 1) front.length
        (front ++ y :: back) =
      hex2binLoop ((u ++ [c,d]) ++ (s ++ 0 :: v)) ((u ++ [c,d]).length + s.length) left
        (front ++ [UInt8.ofNat (16 * j + k)]).length ((front ++ [UInt8.ofNat (16 * j + k)]) ++ back) := by
  have hchar := hex2char_pair u (s ++ 0 :: v) hj hk hc hd
  have hbyte : toUint8 ((16 * j + k : ℕ) : ℤ) = UInt8.ofNat (16 * j + k) := by
    have hmod : ((16 * j + k : ℕ) : ℤ) % 256 = ((16 * j + k : ℕ) : ℤ) := by omega
    rw [toUint8,hmod,Int.toNat_natCast]
  rw [hex2binLoop,Nat.mod_eq_of_lt (by omega),if_pos (by simp; omega),← hu]
  simp only [List.cons_append,hchar,Option.bind_eq_bind,Option.bind_some,hbyte,store_middle]
  rw [if_neg (by omega)]
  simp [Nat.add_assoc,Nat.add_comm 2]

theorem loop_spec (left : ℕ) (hs : 0 ∉ s) :
    ∃ bs, Decodes s bs left ∧ ∀ u v front back : List UInt8, u.length = 2 * front.length → left ≤ back.length →
      (u ++ (s ++ 0 :: v)).length + (front ++ back).length ≤ 2 ^ 32 →
      hex2binLoop (u ++ (s ++ 0 :: v)) (u.length + s.length) left front.length (front ++ back) =
        some (front.length + bs.length,front ++ (bs ++ back.drop bs.length)) := by
  induction left generalizing s with
  | zero => exact ⟨[],Decodes.none s,fun u v front back _ _ _ => rfl⟩
  | succ left ih =>
    -- the objects leave no room for i * 2 + 2 to wrap
    have hroom : ∀ u v front back : List UInt8, u.length = 2 * front.length → left + 1 ≤ back.length →
        (u ++ (s ++ 0 :: v)).length + (front ++ back).length ≤ 2 ^ 32 → u.length + 2 < 2 ^ 32 := by
      intro u v front back hu hback hspace
      simp only [List.length_append,List.length_cons] at hspace
      omega
    match s with
    | [] =>
      refine ⟨[],Decodes.stop _ (by simp),fun u v front back hu hback hspace => ?_⟩
      exact loop_short (by simp) (hroom u v front back hu hback hspace) hu _
    | [c] =>
      refine ⟨[],Decodes.stop _ (by simp),fun u v front back hu hback hspace => ?_⟩
      exact loop_short (by simp) (hroom u v front back hu hback hspace) hu _
    | c :: d :: s =>
      by_cases hpair : IsHex c ∧ IsHex d
      · obtain ⟨⟨j,hj,hc⟩,k,hk,hd⟩ := hpair
        obtain ⟨bs,hdec,hrun⟩ := ih (s := s) fun h => hs (by simp [h])
        refine ⟨UInt8.ofNat (16 * j + k) :: bs,hdec.pair (by rw [hexByte_ofNat hj hk,hc,hd]),?_⟩
        intro u v front back hu hback hspace
        obtain ⟨y,back,rfl⟩ := List.exists_cons_of_length_pos (Nat.lt_of_lt_of_le (Nat.succ_pos left) hback)
        rw [loop_pair hj hk hc hd (hroom u v front _ hu hback hspace) hu y]
        have hnext := hrun (u ++ [c,d]) v (front ++ [UInt8.ofNat (16 * j + k)]) back (by simp; omega)
          (Nat.le_of_succ_le_succ hback) (by simp at hspace ⊢; omega)
        rw [hnext]
        simp
        omega
      · have hstop : ∀ c' d' t, c :: d :: s = c' :: d' :: t → ¬ (IsHex c' ∧ IsHex d') := by
          intro c' d' t heq
          obtain ⟨rfl,hrest⟩ := List.cons.inj heq
          obtain ⟨rfl,_⟩ := List.cons.inj hrest
          exact hpair
        refine ⟨[],Decodes.stop _ hstop,fun u v front back hu hback hspace => ?_⟩
        exact loop_other hpair (hroom u v front back hu hback hspace) hu _

/-- A text gives as many bytes as it can, and nothing behind its terminator is read. -/
theorem hex2bin_spec (len : ℕ) (hs : 0 ∉ s) :
    ∃ bs, Decodes s bs len ∧ ∀ v bin : List UInt8, len ≤ bin.length → (s ++ 0 :: v).length + bin.length ≤ 2 ^ 32 →
      hex2bin (some (s ++ 0 :: v)) (some bin) len = some (bs.length,bs ++ bin.drop bs.length) := by
  obtain ⟨bs,hdec,hrun⟩ := loop_spec len hs
  refine ⟨bs,hdec,fun v bin hlen hspace => ?_⟩
  have hgo := hrun [] v [] bin rfl hlen (by simpa using hspace)
  simp only [List.nil_append,List.length_nil,Nat.zero_add] at hgo
  simp only [hex2bin,text_zero v hs,Option.bind_eq_bind,Option.bind_some]
  exact hgo

end Loop

/-! ## Printing -/

section Printing
variable {key mac : List UInt8} {b : UInt8}

theorem keyStrLoop_spec (hkey : key ≠ []) (front back : List UInt8) {i : ℕ} (hi : front.length = i * 2)
    (hroom : 2 * key.length + 1 ≤ back.length) :
    keyStrLoop key i (front ++ back) =
      some (front ++ (hexText key ++ 0 :: back.drop (2 * key.length + 1))) := by
  induction key generalizing i front back with
  | nil => exact absurd rfl hkey
  | cons b key ih =>
    rw [List.length_cons] at hroom
    have hwrite : write (front ++ back) (i * 2) (hexByte b ++ [0]) =
        some ((front ++ hexByte b) ++ 0 :: back.drop 3) := by
      have h := write_append front back (hexByte b ++ [0]) (by simp; omega)
      rw [hi] at h
      simpa using h
    rw [keyStrLoop,hwrite,Option.bind_eq_bind,Option.bind_some]
    by_cases hlast : key = []
    · rw [hlast]
      simp [keyStrLoop]
    · have hpos := List.length_pos_iff.mpr hlast
      have hnext := ih hlast (front ++ hexByte b) (0 :: back.drop 3) (i := i + 1) (by simp; omega) (by simp; omega)
      have hrest : (0 :: back.drop 3).drop (2 * key.length + 1) = back.drop (2 * (b :: key).length + 1) := by
        rw [List.drop_succ_cons,List.drop_drop,List.length_cons]
        congr 1
        omega
      rw [hnext,hrest,hexText_cons,List.append_assoc,List.append_assoc]

/-- The text of a key, with one terminator behind it. -/
theorem keyStr_spec (hkey : key ≠ []) (strBuf : List UInt8) (hroom : 2 * key.length + 1 ≤ strBuf.length) :
    keyStr key strBuf = some (hexText key ++ 0 :: strBuf.drop (2 * key.length + 1)) :=
  keyStrLoop_spec hkey [] strBuf rfl hroom

/-- The printed byte at a place of a text. -/
theorem hex2char_hexByte {s : List UInt8} {p : ℕ} (hplace : (s.drop p).take 2 = hexByte b) :
    hex2char s p = some (b.toNat : ℤ) := by
  have hb := b.toNat_lt
  have hlen : p ≤ s.length := by
    have h := congrArg List.length hplace
    simp at h
    omega
  have hs : s.take p ++ (hexByte b ++ (s.drop p).drop 2) = s := by
    rw [← hplace,List.take_append_drop,List.take_append_drop]
  have hpair := hex2char_pair (s.take p) ((s.drop p).drop 2) (by omega) (by omega)
    (lower_hexDigit (by omega : b.toNat / 16 < 16)) (lower_hexDigit (by omega : b.toNat % 16 < 16))
  rw [Nat.div_add_mod,List.length_take,Nat.min_eq_left hlen] at hpair
  rw [← hpair]
  exact congrArg (fun s => hex2char s p) hs.symm

theorem toUint8_toNat (b : UInt8) : toUint8 (b.toNat : ℤ) = b := by
  have hb := b.toNat_lt
  have hmod : (b.toNat : ℤ) % 256 = b.toNat := by omega
  rw [toUint8,hmod,Int.toNat_natCast,UInt8.ofNat_toNat]

/-- An address is read back from its text. -/
theorem str2mac_macText (a b c d e f : UInt8) (v : List UInt8) (hmac : 6 ≤ mac.length) :
    str2mac (macText [a,b,c,d,e,f] ++ 0 :: v) mac = some ([a,b,c,d,e,f] ++ mac.drop 6) := by
  match mac with
  | _ :: _ :: _ :: _ :: _ :: _ :: mac =>
    have hread : ∀ p x, ((macText [a,b,c,d,e,f] ++ 0 :: v).drop p).take 2 = hexByte x →
        hex2char (macText [a,b,c,d,e,f] ++ 0 :: v) p = some (x.toNat : ℤ) := fun p x => hex2char_hexByte
    simp only [str2mac,hread 0 a rfl,hread 3 b rfl,hread 6 c rfl,hread 9 d rfl,hread 12 e rfl,hread 15 f rfl,
      toUint8_toNat,Option.bind_eq_bind,Option.bind_some]
    simp [store,write]

end Printing

/-! ## Round trips -/

/-- The text of a key, in any letter case, is read back as the key. -/
def RoundTrip (key strBuf bin : List UInt8) (len : ℕ) : Prop :=
  ∃ printed, keyStr key strBuf = some printed ∧ ∀ hexStr : List UInt8, hexStr.map lower = printed.map lower →
    hex2bin (some hexStr) (some bin) len = some (key.length,key ++ bin.drop key.length)

/-- A text that starts with a pair of digits. -/
def StartsHex (s : List UInt8) : Prop := 2 ≤ s.length ∧ ∀ c ∈ s.take 2, IsHex c

section RoundTrips
variable {key s t strBuf bin bs : List UInt8} {len : ℕ}

theorem mem_zero_of_lower (h : s.map lower = t.map lower) : 0 ∈ s ↔ 0 ∈ t := by
  have hmem : ∀ s : List UInt8, 0 ∈ s.map lower ↔ 0 ∈ s := fun s => by
    simp [lower_eq_zero]
  rw [← hmem s,h,hmem t]

theorem isHex_of_map_lower (h : s.map lower = t.map lower) (hs : ∀ c ∈ s, IsHex c) : ∀ c ∈ t, IsHex c := by
  intro c hc
  have hmem : lower c ∈ s.map lower := h ▸ List.mem_map_of_mem hc
  obtain ⟨d,hd,hcd⟩ := List.mem_map.mp hmem
  rw [← isHex_lower,← hcd,isHex_lower]
  exact hs d hd

theorem startsHex_lower (h : s.map lower = t.map lower) (hs : StartsHex s) : StartsHex t := by
  have hlen : s.length = t.length := by simpa using congrArg List.length h
  refine ⟨hlen ▸ hs.1,isHex_of_map_lower ?_ hs.2⟩
  rw [List.map_take,List.map_take,h]

/-- The digits of a key give the key. -/
theorem Decodes.eq_of_text (hdec : Decodes s bs len) (htext : s.map lower = hexText key) (hlen : key.length ≤ len) :
    bs = key := by
  have hs : s.length = 2 * key.length := by simpa using congrArg List.length htext
  have hhex : ∀ c ∈ s, IsHex c := fun c hc => by
    rw [← isHex_lower]
    exact isHex_of_mem_hexText key (htext ▸ List.mem_map_of_mem hc)
  have hle : key.length ≤ bs.length :=
    hdec.greatest.2 ⟨hlen,hs.ge,fun c hc => hhex c (List.mem_of_mem_take hc)⟩
  have hge := hdec.greatest.1.2.1
  have hall : s.take (2 * bs.length) = s := List.take_of_length_le (by omega)
  have hdigits := hdec.digits
  rw [hall,htext] at hdigits
  exact (hexText_inj hdigits).symm

/-- No byte is read where the text does not start with a pair, or none is asked for. -/
theorem Decodes.eq_nil_iff (hdec : Decodes s bs len) : bs = [] ↔ len = 0 ∨ ¬ StartsHex s := by
  constructor
  · rintro rfl
    by_contra hne
    have hone := hdec.greatest.2 ⟨(by omega : 1 ≤ len),(by tauto : StartsHex s).1,(by tauto : StartsHex s).2⟩
    simp at hone
  · intro h
    obtain ⟨hlen,hfits,hall⟩ := hdec.greatest.1
    by_contra hne
    have hpos := List.length_pos_iff.mpr hne
    rcases h with hzero | hstart
    · omega
    · refine hstart ⟨by omega,fun c hc => hall c ?_⟩
      exact (List.take_sublist_take_left (by omega)).subset hc

theorem startsHex_text (s v : List UInt8) : StartsHex (s ++ 0 :: v) ↔ StartsHex s := by
  have hzero : ¬ IsHex 0 := fun h => h.ne_zero rfl
  match s with
  | [] =>
    refine iff_of_false (fun h => hzero (h.2 0 ?_)) (by simp [StartsHex])
    simp
  | [c] =>
    refine iff_of_false (fun h => hzero (h.2 0 ?_)) (by simp [StartsHex])
    simp
  | c :: d :: s => simp [StartsHex]

/-- Two texts that differ in the case of letters only end at the same place. -/
theorem text_lower {v w : List UInt8} (hs : 0 ∉ s) (ht : 0 ∉ t)
    (h : (s ++ 0 :: v).map lower = (t ++ 0 :: w).map lower) : s.map lower = t.map lower := by
  have hnone : ∀ s : List UInt8, 0 ∉ s → 0 ∉ s.map lower := fun s hs hmem => by
    obtain ⟨c,hc,hzero⟩ := List.mem_map.mp hmem
    exact hs (lower_eq_zero.mp hzero ▸ hc)
  have hzero : lower 0 = 0 := rfl
  rw [List.map_append,List.map_append,List.map_cons,List.map_cons,hzero] at h
  rw [← takeWhile_nonzero (v := v.map lower) (hnone s hs),h,takeWhile_nonzero (hnone t ht)]

theorem hex2bin_unended (h : 0 ∉ s) (bin : List UInt8) (len : ℕ) : hex2bin (some s) (some bin) len = none := by
  simp [hex2bin,text,h]

theorem roundTrip_iff (hroom : 2 * key.length + 1 ≤ strBuf.length) (hlen : key.length ≤ len)
    (hbin : len ≤ bin.length) (hspace : strBuf.length + bin.length ≤ 2 ^ 32) :
    RoundTrip key strBuf bin len ↔ key ≠ [] ∨ 0 ∈ strBuf ∧ (len = 0 ∨ ¬ StartsHex strBuf) := by
  by_cases hkey : key = []
  · subst hkey
    rw [or_iff_right (by simp)]
    constructor
    · rintro ⟨printed,hprint,hread⟩
      obtain rfl : strBuf = printed := Option.some.inj hprint
      have hself := hread strBuf rfl
      by_cases hzero : 0 ∈ strBuf
      · obtain ⟨s,v,hs,rfl⟩ := exists_text hzero
        obtain ⟨bs,hdec,hrun⟩ := hex2bin_spec len hs
        rw [hrun v bin hbin hspace] at hself
        have hnil : bs = [] := List.length_eq_zero_iff.mp (by simpa using congrArg Prod.fst (Option.some.inj hself))
        rw [startsHex_text]
        exact ⟨hzero,hdec.eq_nil_iff.mp hnil⟩
      · rw [hex2bin_unended hzero] at hself
        simp at hself
    · rintro ⟨hzero,hstart⟩
      refine ⟨strBuf,rfl,fun hexStr hcase => ?_⟩
      obtain ⟨s,v,hs,rfl⟩ := exists_text ((mem_zero_of_lower hcase).mpr hzero)
      obtain ⟨bs,hdec,hrun⟩ := hex2bin_spec len hs
      have hsize : (s ++ 0 :: v).length = strBuf.length := by simpa using congrArg List.length hcase
      have hnil : bs = [] := hdec.eq_nil_iff.mpr
        (hstart.imp_right fun hno hs => hno (startsHex_lower hcase ((startsHex_text s v).mpr hs)))
      rw [hrun v bin hbin (hsize ▸ hspace),hnil,List.length_nil]
  · refine iff_of_true ⟨_,keyStr_spec hkey strBuf hroom,fun hexStr hcase => ?_⟩ (Or.inl hkey)
    have hdigits : 0 ∉ hexText key := fun h => (isHex_of_mem_hexText key h).ne_zero rfl
    obtain ⟨s,v,hs,rfl⟩ := exists_text ((mem_zero_of_lower hcase).mpr (by simp))
    obtain ⟨bs,hdec,hrun⟩ := hex2bin_spec len hs
    have hsize : (s ++ 0 :: v).length = strBuf.length := by
      have h := congrArg List.length hcase
      simp only [List.length_map,List.length_append,List.length_cons,hexText_length,List.length_drop] at h ⊢
      omega
    have htext := (text_lower hs hdigits hcase).trans (lower_hexText key)
    rw [hrun v bin hbin (hsize ▸ hspace),hdec.eq_of_text htext hlen]

end RoundTrips

/-- A key is read back exactly if it has a byte, or the buffer already held a text without a
digit pair in front. An address is always read back, and a text gives all it can. -/
theorem hex_codec_iff (len : ℕ) :
    (∀ key strBuf bin : List UInt8, 2 * key.length + 1 ≤ strBuf.length → key.length ≤ len →
      len ≤ bin.length → strBuf.length + bin.length ≤ 2 ^ 32 →
      (RoundTrip key strBuf bin len ↔ key ≠ [] ∨ 0 ∈ strBuf ∧ (len = 0 ∨ ¬ StartsHex strBuf))) ∧
    (∀ (a b c d e f : UInt8) (v mac : List UInt8), 6 ≤ mac.length →
      str2mac (macText [a,b,c,d,e,f] ++ 0 :: v) mac = some ([a,b,c,d,e,f] ++ mac.drop 6)) ∧
    ∀ s : List UInt8, 0 ∉ s → ∃ bs, Decodes s bs len ∧ ∀ v bin : List UInt8, len ≤ bin.length →
      (s ++ 0 :: v).length + bin.length ≤ 2 ^ 32 →
      hex2bin (some (s ++ 0 :: v)) (some bin) len = some (bs.length,bs ++ bin.drop bs.length) := by
  refine ⟨?_,?_,?_⟩
  · intro key strBuf bin hroom hlen hbin hspace
    exact roundTrip_iff hroom hlen hbin hspace
  · intro a b c d e f v mac hmac
    exact str2mac_macText a b c d e f v hmac
  · intro s hs
    exact hex2bin_spec len hs

theorem hex_codec_iff_bytes :
    RoundTrip [0xab] [1,2,3] [0] 1 ∧ ¬ RoundTrip [] [97,98,0] [0] 1 ∧
      str2mac (macText [1,2,3,4,5,6] ++ 0 :: []) [0,0,0,0,0,0] = some [1,2,3,4,5,6] ∧
      ∃ bs, Decodes [97,66,49] bs 3 ∧ ∀ v bin : List UInt8, 3 ≤ bin.length →
        ([97,66,49] ++ 0 :: v).length + bin.length ≤ 2 ^ 32 →
        hex2bin (some ([97,66,49] ++ 0 :: v)) (some bin) 3 = some (bs.length,bs ++ bin.drop bs.length) := by
  have hstart : StartsHex [97,98,0] := by
    refine ⟨by decide,?_⟩
    intro c hc
    have hletter : c = 97 ∨ c = 98 := by simpa using hc
    rcases hletter with rfl | rfl <;> decide
  have hempty := (hex_codec_iff 1).1 [] [97,98,0] [0] (by simp) (by simp) (by simp) (by simp)
  have hread := (hex_codec_iff 1).1 [0xab] [1,2,3] [0] (by simp) (by simp) (by simp) (by simp)
  have hmac := (hex_codec_iff 3).2.1 1 2 3 4 5 6 [] [0,0,0,0,0,0] (by decide)
  refine ⟨hread.mpr (Or.inl (by decide)),fun h => ?_,hmac,(hex_codec_iff 3).2.2 [97,66,49] (by decide)⟩
  rcases hempty.mp h with hne | ⟨_,hzero | hno⟩
  · exact hne rfl
  · exact absurd hzero (by decide)
  · exact hno hstart

/-- An empty key leaves the buffer as it is, and what it held is read. -/
theorem hex_codec_fails :
    ¬ RoundTrip [] [97,98,0] [0] 1 ∧ keyStr [] [97,98,0] = some [97,98,0] ∧
      hex2bin (some [97,98,0]) (some [0]) 1 = some (1,[0xab]) := by
  refine ⟨?_,by decide,by decide⟩
  rintro ⟨printed,hprint,hread⟩
  obtain rfl : [97,98,0] = printed := Option.some.inj hprint
  exact absurd (hread [97,98,0] rfl) (by decide)

end FmacSdk.HexCodec
