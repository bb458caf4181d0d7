import FmacSdk.Foundation.Ascii
import FmacSdk.Foundation.Objects

/-! # The print buffer

hgprintf puts the tick and the formatted text in one buffer of 256 bytes, ends the line
there, and hands it to a hook as a string or to the console with its length.
-/
namespace FmacSdk.Hgprintf
open Ascii Objects

/-- What a call of hgprintf reads and writes. -/
structure Print where
  hook : Bool
  disablePrint : Int8
  printLevel : Int8
  buf : List UInt8

/-- __print_color__ -/
def printColor (level : UInt8) : List UInt8 :=
  if level < 3 then [27,91,52,48,59,51,49,59,55,109]
  else if level = 3 then [27,91,52,48,59,51,49,109]
  else if level = 4 then [27,91,52,48,59,51,51,109]
  else if level = 5 then [27,91,52,48,59,51,50,109]
  else [27,91,52,48,59,51,55,109]

/-- __print_color__[8] -/
def colorEnd : List UInt8 := [27,91,48,109]

/-- The marks in front of a format. -/
structure Marks where
  tick : Bool
  level : UInt8
  color : Option (List UInt8)
  fmt : List UInt8

def marks (fmt : List UInt8) : Option Marks := do
  let c ← load fmt 0
  let tick := c == 2
  let fmt := if tick then fmt.drop 1 else fmt
  let c ← load fmt 0
  if c = 1 then do
    let d ← load fmt 1
    let level := if d - 48 > 7 then 7 else d - 48
    some ⟨tick,level,some (printColor level),fmt.drop 2⟩
  else some ⟨tick,6,none,fmt⟩

/-- os_sprintf(_print_buff_p, "[%llu]", os_jiffies()) -/
def tickText (jiffies : UInt64) : List UInt8 := 91 :: (decimal jiffies.toNat ++ [93])

/-- The difference of two numbers of 32 bits. -/
def minus (a b : ℕ) : ℕ := (a + 2 ^ 32 - b) % 2 ^ 32

/-- vsnprintf of a text; its result is negative where an int does not hold the length. -/
def vsnprintf (buf : List UInt8) (p n : ℕ) (m : List UInt8) : Option (List UInt8 × ℤ) := do
  let buf ← if n = 0 then some buf else write buf p (m.take (n - 1) ++ [0])
  some (buf,if m.length < 2 ^ 31 then m.length else -1)

def putTick (buf : List UInt8) : Option (List UInt8) → Option (List UInt8)
  | some t => write buf 0 (t ++ [0])
  | none => some buf

/-- The text in the buffer, and where it ends. -/
def fill (buf : List UInt8) (tick : Option (List UInt8)) (m : List UInt8) : Option (List UInt8 × ℕ) := do
  let buf ← putTick buf tick
  let flag := (tick.getD []).length
  let (buf,len) ← vsnprintf buf flag (minus 254 flag) m
  if len < 0 ∨ minus 254 flag < len.toNat then do
    let buf ← store buf 254 10
    let buf ← store buf 253 13
    some (buf,255)
  else some (buf,(flag + len.toNat) % 2 ^ 32)

/-- The newline that ends the text, and the terminator. -/
def endLine (buf : List UInt8) (flag : ℕ) : Option (List UInt8 × ℕ) := do
  let last ← load buf (minus flag 1)
  let (buf,flag) ← if last = 10 then do
      let before ← load buf (minus flag 2)
      if before = 13 then some (buf,flag)
      else do
        let buf ← store buf (minus flag 1) 13
        let buf ← store buf flag 10
        some (buf,flag + 1)
    else some (buf,flag)
  let buf ← store buf flag 0
  some (buf,flag)

/-- The strings that are put out around a text. -/
def strings (color : Option (List UInt8)) (body : List UInt8) : List (List UInt8) :=
  match color with
  | none => [body]
  | some color => [color,body,colorEnd]

/-- if (flag > 0) { .. } -/
def putOut (st : Print) (color : Option (List UInt8)) (buf : List UInt8) (flag : ℕ) :
    Option (Print × List (List UInt8)) :=
  if flag = 0 then some ({st with buf := buf},[])
  else do
    let (buf,flag) ← endLine buf flag
    let body ← if st.hook then text buf 0 else read buf 0 flag
    some ({st with buf := buf},strings color body)

def hgprintf (vformat : List UInt8 → List UInt8) (jiffies : UInt64) (st : Print) (fmt : List UInt8) :
    Option (Print × List (List UInt8)) :=
  if st.hook = false ∧ st.disablePrint ≠ 0 then some (st,[])
  else do
    let k ← marks fmt
    if st.printLevel ≠ 0 ∧ st.printLevel.toInt < k.level.toNat then some (st,[])
    else do
      let (buf,flag) ← fill st.buf (if k.tick then some (tickText jiffies) else none) (vformat k.fmt)
      putOut st k.color buf flag

/-- A final newline with its carriage return. -/
def crlf (s : List UInt8) : List UInt8 :=
  if s.getLast? = some 10 ∧ s.dropLast.getLast? ≠ some 13 then s.dropLast ++ [13,10] else s

/-- The line of a text: all of it, or as much as is stored. -/
def line (s : List UInt8) : List UInt8 := if s.length ≤ 253 then crlf s else s.take 253 ++ [13,10]

/-- A call stays inside the buffer and puts out the line, without a zero in it. -/
def Prints (st : Print) (color : Option (List UInt8)) (s : List UInt8)
    (result : Option (Print × List (List UInt8))) : Prop :=
  0 ∉ line s ∧ ∃ buf : List UInt8, buf.length = 256 ∧
    result = some ({st with buf := buf},if line s = [] then [] else strings color (line s))

section Fill
variable {buf back t s m w rest : List UInt8} {x y z : UInt8}

theorem minus_eq {a b : ℕ} (hb : b ≤ a) (ha : a < 2 ^ 32) : minus a b = a - b := by
  unfold minus
  omega

/-- The formatted text behind what is already in the buffer. -/
theorem vsnprintf_spec (t m : List UInt8) (ht : t.length ≤ 253) (hback : t.length + back.length = 256) :
    ∃ rest, vsnprintf (t ++ back) t.length (minus 254 t.length) m =
        some (t ++ (m.take (253 - t.length) ++ 0 :: rest),if m.length < 2 ^ 31 then (m.length : ℤ) else -1) ∧
      t.length + (m.take (253 - t.length)).length + rest.length = 255 := by
  have hn : minus 254 t.length = 254 - t.length := minus_eq (by omega) (by omega)
  have hlen : (m.take (253 - t.length) ++ [0]).length ≤ back.length := by
    simp only [List.length_append,List.length_take,List.length_singleton]
    omega
  have hwrite : write (t ++ back) t.length (m.take (253 - t.length) ++ [0]) =
      some (t ++ (m.take (253 - t.length) ++ [0] ++ back.drop (m.take (253 - t.length) ++ [0]).length)) := by
    rw [write_append t back _ hlen]
  refine ⟨back.drop (m.take (253 - t.length) ++ [0]).length,?_,?_⟩
  · rw [vsnprintf,hn,if_neg (by omega),(by omega : 254 - t.length - 1 = 253 - t.length),hwrite]
    simp
  · simp only [List.length_append,List.length_singleton] at hlen ⊢
    rw [List.length_drop]
    omega

theorem putTick_spec (tick : Option (List UInt8)) (hbuf : buf.length = 256) (htick : (tick.getD []).length ≤ 253) :
    ∃ back : List UInt8, (tick.getD []).length + back.length = 256 ∧
      putTick buf tick = some (tick.getD [] ++ back) := by
  cases tick with
  | none => exact ⟨buf,by simpa using hbuf,rfl⟩
  | some t =>
    have ht : t.length ≤ 253 := htick
    have hwrite : write buf 0 (t ++ [0]) = some (t ++ 0 :: buf.drop (t.length + 1)) := by
      rw [write_zero _ _ (by simp; omega)]
      simp
    exact ⟨0 :: buf.drop (t.length + 1),by simp; omega,hwrite⟩

/-- The end of a text that was cut. -/
theorem store_cut (p rest : List UInt8) (hp : p.length = 253) (hrest : rest.length = 2) :
    ((store (p ++ 0 :: rest) 254 10).bind fun buf => store buf 253 13) = some (p ++ ([13,10] ++ rest.drop 1)) := by
  match rest with
  | [y,x] =>
    have hlf := store_middle (x := (10 : UInt8)) (p ++ [0]) [x] y
    have hcr := store_middle (x := (13 : UInt8)) p [10,x] 0
    rw [List.length_append,hp,List.append_assoc,List.append_assoc] at hlf
    rw [hp] at hcr
    exact (congrArg (fun o : Option (List UInt8) => o.bind fun buf => store buf 253 13) hlf).trans hcr

/-- The buffer behind the formatting: what is stored of the text, or its cut form. -/
theorem fill_spec (tick : Option (List UInt8)) (m : List UInt8) (hbuf : buf.length = 256)
    (htick : (tick.getD []).length ≤ 253) :
    ∃ rest, ((tick.getD [] ++ m).take 253).length + rest.length = 255 ∧
      fill buf tick m = if 254 < (tick.getD [] ++ m).length
        then some ((tick.getD [] ++ m).take 253 ++ ([13,10] ++ rest.drop 1),255)
        else some ((tick.getD [] ++ m).take 253 ++ 0 :: rest,(tick.getD [] ++ m).length) := by
  obtain ⟨back,hback,hstart⟩ := putTick_spec tick hbuf htick
  obtain ⟨rest,hput,hrest⟩ := vsnprintf_spec (tick.getD []) m htick hback
  have hn : minus 254 (tick.getD []).length = 254 - (tick.getD []).length := minus_eq (by omega) (by omega)
  have htake : (tick.getD [] ++ m).take 253 = tick.getD [] ++ m.take (253 - (tick.getD []).length) := by
    rw [List.take_append,List.take_of_length_le htick]
  have hfit : ((tick.getD [] ++ m).take 253).length + rest.length = 255 := by
    rw [htake,List.length_append]
    exact hrest
  rw [← List.append_assoc,← htake,hn] at hput
  refine ⟨rest,hfit,?_⟩
  rw [fill,hstart]
  simp only [Option.bind_eq_bind,Option.bind_some,hput,hn]
  by_cases hcut : 254 < (tick.getD [] ++ m).length
  · have hlen : ((tick.getD [] ++ m).take 253).length = 253 := List.length_take_of_le (by omega)
    have hstore := store_cut ((tick.getD [] ++ m).take 253) rest hlen (by omega)
    rw [if_pos hcut,if_pos]
    · obtain ⟨buf',hlf,hcr⟩ := Option.bind_eq_some_iff.mp hstore
      rw [hlf,Option.bind_some,hcr,Option.bind_some]
    · rw [List.length_append] at hcut
      split_ifs <;> omega
  · rw [List.length_append] at hcut
    rw [if_pos (by omega : m.length < 2 ^ 31),if_neg (by omega),if_neg (by rw [List.length_append]; omega)]
    simp
    omega

end Fill

section EndLine
variable {s w rest : List UInt8} {x y z : UInt8}

theorem crlf_append (h : w.getLast? ≠ some 13) : crlf (w ++ [10]) = w ++ [13,10] := by
  simp [crlf,h]

/-- The last character of the text, and the one in front of it. -/
theorem load_last (w rest : List UInt8) (x : UInt8) (hlong : w.length + 1 < 2 ^ 32) :
    load (w ++ x :: rest) (minus (w.length + 1) 1) = some x := by
  rw [minus_eq (by omega) hlong,Nat.add_sub_cancel]
  exact load_middle w rest x

theorem load_before (w rest : List UInt8) (x : UInt8) (hlong : w.length + 2 < 2 ^ 32) :
    load (w ++ x :: rest) (minus (w.length + 2) 2) = some x := by
  rw [minus_eq (by omega) hlong,Nat.add_sub_cancel]
  exact load_middle w rest x

/-- A line that ends as it should gets its terminator. -/
theorem endLine_keep (y : UInt8) (rest : List UInt8) (hne : s ≠ []) (hlong : s.length < 2 ^ 32) (hcrlf : crlf s = s) :
    endLine (s ++ y :: rest) s.length = some (s ++ 0 :: rest,s.length) := by
  have hstore := store_middle (x := (0 : UInt8)) s rest y
  obtain ⟨w,c,rfl⟩ := List.eq_nil_or_concat' s |>.resolve_left hne
  have hlast : load (w ++ [c] ++ y :: rest) (minus (w ++ [c]).length 1) = some c := by
    rw [List.append_assoc]
    simpa using load_last w (y :: rest) c (by simpa using hlong)
  rw [endLine,hlast]
  by_cases hc : c = 10
  · subst hc
    -- the newline stands behind a carriage return
    have hw : w.getLast? = some 13 := by
      by_contra h
      rw [crlf_append h] at hcrlf
      simpa using congrArg List.length hcrlf
    obtain ⟨w,rfl⟩ := List.getLast?_eq_some_iff.mp hw
    have hbefore : load (w ++ [13] ++ [10] ++ y :: rest) (minus (w ++ [13] ++ [10]).length 2) = some 13 := by
      simpa using load_before w (10 :: y :: rest) 13 (by simpa using hlong)
    simp only [Option.bind_eq_bind,Option.bind_some,hbefore,if_pos,hstore]
  · simp only [Option.bind_eq_bind,Option.bind_some,if_neg hc,hstore]

/-- A newline without its carriage return. -/
theorem endLine_crlf (y z : UInt8) (rest : List UInt8) (hne : w ≠ []) (hlong : w.length + 1 < 2 ^ 32)
    (h : w.getLast? ≠ some 13) :
    endLine (w ++ 10 :: y :: z :: rest) (w.length + 1) = some (w ++ 13 :: 10 :: 0 :: rest,w.length + 2) := by
  have hlast := load_last w (y :: z :: rest) 10 hlong
  have hcr := store_middle (x := (13 : UInt8)) w (y :: z :: rest) 10
  have hlf : store (w ++ 13 :: y :: z :: rest) (w.length + 1) 10 = some (w ++ 13 :: 10 :: z :: rest) := by
    have hput := store_middle (x := (10 : UInt8)) (w ++ [13]) (z :: rest) y
    rwa [List.append_assoc,List.append_assoc,List.length_append] at hput
  have hend : store (w ++ 13 :: 10 :: z :: rest) (w.length + 1 + 1) 0 = some (w ++ 13 :: 10 :: 0 :: rest) := by
    have hput := store_middle (x := (0 : UInt8)) (w ++ [13,10]) rest z
    rwa [List.append_assoc,List.append_assoc,List.length_append] at hput
  obtain ⟨v,c,rfl⟩ := List.eq_nil_or_concat' w |>.resolve_left hne
  have hc : c ≠ 13 := by
    intro heq
    simp [heq] at h
  have hbefore : load (v ++ [c] ++ 10 :: y :: z :: rest) (minus ((v ++ [c]).length + 1) 2) = some c := by
    simpa using load_before v (10 :: y :: z :: rest) c (by simpa using hlong)
  have hplace : minus ((v ++ [c]).length + 1) 1 = (v ++ [c]).length := by
    rw [minus_eq (by omega) hlong,Nat.add_sub_cancel]
  rw [endLine,hlast]
  simp only [Option.bind_eq_bind,Option.bind_some,hbefore,if_neg hc,if_pos,hplace,hcr,hlf,hend]

end EndLine

section Calls
variable {st : Print} {color tick : Option (List UInt8)} {s m p rest : List UInt8} {x : UInt8}

theorem tickText_length_le (jiffies : UInt64) : (tickText jiffies).length ≤ 22 := by
  have hlt := jiffies.toNat_lt
  have hdigits := decimal_length_le (k := 20) (by omega : jiffies.toNat < 10 ^ 20) (by omega)
  simp only [tickText,List.length_cons,List.length_append,List.length_nil]
  omega

theorem zero_not_mem_tickText (jiffies : UInt64) : 0 ∉ tickText jiffies := by
  intro h
  simp only [tickText,List.mem_cons,List.mem_append] at h
  rcases h with h | h | h
  · exact absurd h (by decide)
  · exact absurd (isDigit_of_mem_decimal h) (by decide)
  · exact absurd h (by decide)

theorem zero_not_mem_crlf (hs : 0 ∉ s) : 0 ∉ crlf s := by
  unfold crlf
  split_ifs with hend
  · have hinit : 0 ∉ s.dropLast := fun h => hs (List.mem_of_mem_dropLast h)
    simp [hinit]
  · exact hs

theorem zero_not_mem_line (hs : 0 ∉ s) : 0 ∉ line s := by
  unfold line
  split_ifs with hfits
  · exact zero_not_mem_crlf hs
  · have htake : 0 ∉ s.take 253 := fun h => hs (List.mem_of_mem_take h)
    simp [htake]

/-- The newline that lacks its carriage return, and what is in front of it. -/
theorem crlf_cases (s : List UInt8) : crlf s = s ∨ ∃ w : List UInt8, s = w ++ [10] ∧ w.getLast? ≠ some 13 := by
  unfold crlf
  split_ifs with hend
  · right
    obtain ⟨w,rfl⟩ := List.getLast?_eq_some_iff.mp hend.1
    exact ⟨w,rfl,by simpa using hend.2⟩
  · exact Or.inl rfl

theorem strings_inj {a b : List UInt8} (h : strings color a = strings color b) : a = b := by
  cases color <;> simpa [strings] using h

/-- What is put out of a text in front of its terminator. -/
theorem putOut_of_endLine (st : Print) (color : Option (List UInt8)) {buf body rest : List UInt8} {flag : ℕ}
    (hflag : flag ≠ 0) (hbody : 0 ∉ body)
    (hend : endLine buf flag = some (body ++ 0 :: rest,body.length)) :
    putOut st color buf flag = some ({st with buf := body ++ 0 :: rest},strings color body) := by
  have hread : read (body ++ 0 :: rest) 0 body.length = some body := by
    rw [read_zero (by simp),List.take_left]
  rw [putOut,if_neg hflag,hend]
  simp only [Option.bind_eq_bind,Option.bind_some,text_zero rest hbody,hread]
  split_ifs <;> rfl

/-- A lone newline is looked at together with what is in front of the buffer. -/
theorem putOut_newline (st : Print) (color : Option (List UInt8)) {rest : List UInt8} (hrest : rest.length = 254) :
    putOut st color (10 :: 0 :: rest) 1 = none := by
  have hbefore : load (10 :: 0 :: rest) (minus 1 2) = none := by
    rw [load,List.getElem?_eq_none]
    simp [minus,hrest]
  have hend : endLine (10 :: 0 :: rest) 1 = none := by
    have hlast : load (10 :: 0 :: rest) (minus 1 1) = some 10 := rfl
    rw [endLine,hlast]
    simp only [Option.bind_eq_bind,Option.bind_some,hbefore,if_pos]
    rfl
  rw [putOut,if_neg (by omega),hend]
  rfl

/-- A text that fits is put out as its line, but not a lone newline. -/
theorem prints_short (hs : 0 ∉ s) (hfits : s.length ≤ 253) (hrest : s.length + rest.length = 255) :
    Prints st color s (putOut st color (s ++ 0 :: rest) s.length) ↔ s ≠ [10] := by
  have hline : line s = crlf s := if_pos hfits
  have hzero : 0 ∉ crlf s := zero_not_mem_crlf hs
  unfold Prints
  rw [hline,and_iff_right hzero]
  by_cases hempty : s = []
  · subst hempty
    refine iff_of_true ⟨0 :: rest,by simpa using hrest,?_⟩ (by simp)
    simp [putOut,crlf]
  · have hflag : s.length ≠ 0 := fun h => hempty (List.length_eq_zero_iff.mp h)
    rcases crlf_cases s with hkeep | ⟨w,hw,hlast⟩
    · have hone : s ≠ [10] := by
        rintro rfl
        simp [crlf] at hkeep
      refine iff_of_true ⟨s ++ 0 :: rest,by simp; omega,?_⟩ hone
      rw [hkeep,if_neg hempty]
      exact putOut_of_endLine st color hflag hs (endLine_keep 0 rest hempty (by omega) hkeep)
    · subst hw
      by_cases hfirst : w = []
      · subst hfirst
        refine iff_of_false ?_ (by simp)
        rintro ⟨buf,_,hout⟩
        have hnone := putOut_newline st color (by simp at hrest; omega : rest.length = 254)
        exact absurd (hout.symm.trans hnone) (by simp)
      · obtain ⟨z,rest,rfl⟩ := List.exists_cons_of_length_pos (by rw [List.length_append] at *; omega : 0 < rest.length)
        have hend := endLine_crlf 0 z rest hfirst
          (by rw [List.length_append,List.length_singleton] at hfits; omega) hlast
        rw [crlf_append hlast] at hzero ⊢
        refine iff_of_true ⟨w ++ [13,10] ++ 0 :: rest,by simp at hrest ⊢; omega,?_⟩ (by simpa using hfirst)
        rw [if_neg (by simp)]
        refine putOut_of_endLine st color hflag hzero ?_
        simpa using hend

/-- A text one longer: a zero is put out, or the line ends early. -/
theorem not_prints_edge (hs : 0 ∉ s) (hlen : s.length = 254) (hrest : rest.length = 2) :
    ¬ Prints st color s (putOut st color (s.take 253 ++ 0 :: rest) 254) := by
  have hp : (s.take 253).length = 253 := List.length_take_of_le (by omega)
  have hzero : 0 ∉ s.take 253 := fun h => hs (List.mem_of_mem_take h)
  have hline : line s = s.take 253 ++ [13,10] := if_neg (by omega)
  obtain ⟨y,rest,rfl⟩ := List.exists_cons_of_length_pos (by omega : 0 < rest.length)
  have hkeep : crlf (s.take 253 ++ [0]) = s.take 253 ++ [0] := by simp [crlf]
  have hend := endLine_keep y rest (by simp) (by simp; omega) hkeep
  rw [List.length_append,hp,List.append_assoc,List.append_assoc] at hend
  have hend : endLine (s.take 253 ++ 0 :: y :: rest) 254 = some (s.take 253 ++ 0 :: 0 :: rest,254) := hend
  -- the console gets the zero, a hook ends in front of it
  obtain ⟨body,hbody,hout⟩ : ∃ body : List UInt8, body.length ≤ 254 ∧
      putOut st color (s.take 253 ++ 0 :: y :: rest) 254 =
        some ({st with buf := s.take 253 ++ 0 :: 0 :: rest},strings color body) := by
    have hread : read (s.take 253 ++ 0 :: 0 :: rest) 0 254 = some ((s.take 253 ++ 0 :: 0 :: rest).take 254) :=
      read_zero (by simp at hrest ⊢; omega)
    rw [putOut,if_neg (by omega),hend]
    simp only [Option.bind_eq_bind,Option.bind_some,text_zero (0 :: rest) hzero,hread]
    split_ifs with hhook
    · exact ⟨s.take 253,by omega,rfl⟩
    · exact ⟨_,by simp,rfl⟩
  rw [hout]
  rintro ⟨_,buf,_,heq⟩
  rw [hline,if_neg (by simp)] at heq
  have hsame := strings_inj (Prod.mk.inj (Option.some.inj heq)).2
  have hlength := congrArg List.length hsame
  rw [List.length_append,hp,List.length_cons,List.length_singleton] at hlength
  omega

/-- A text that is cut gets its end. -/
theorem prints_cut (hs : 0 ∉ s) (hlen : 254 < s.length) (hrest : rest.length = 1) :
    Prints st color s (putOut st color (s.take 253 ++ ([13,10] ++ rest)) 255) := by
  have hp : (s.take 253).length = 253 := List.length_take_of_le (by omega)
  have hline : line s = s.take 253 ++ [13,10] := if_neg (by omega)
  have hzero := zero_not_mem_line hs
  rw [hline] at hzero
  obtain ⟨x,rfl⟩ := List.length_eq_one_iff.mp hrest
  have hkeep : crlf (s.take 253 ++ [13,10]) = s.take 253 ++ [13,10] := by
    simp [crlf,List.dropLast_append_of_ne_nil]
  have hend := endLine_keep x [] (by simp) (by simp; omega) hkeep
  have hflag : (s.take 253 ++ [13,10]).length = 255 := by rw [List.length_append,hp]; rfl
  unfold Prints
  rw [hline,if_neg (by simp)]
  refine ⟨hzero,s.take 253 ++ [13,10] ++ 0 :: [],by simp; omega,?_⟩
  have hbody := putOut_of_endLine st color (by omega) hzero hend
  rwa [List.append_assoc,hflag] at hbody

end Calls

section Prints
variable {vformat : List UInt8 → List UInt8} {st : Print} {fmt : List UInt8} {k : Marks}

theorem prints_iff (tick : Option (List UInt8)) (m : List UInt8) {color : Option (List UInt8)}
    (hbuf : st.buf.length = 256) (htick : (tick.getD []).length ≤ 253) (hs : 0 ∉ tick.getD [] ++ m) :
    Prints st color (tick.getD [] ++ m) ((fill st.buf tick m).bind fun w => putOut st color w.1 w.2) ↔
      (tick.getD [] ++ m).length ≠ 254 ∧ tick.getD [] ++ m ≠ [10] := by
  obtain ⟨rest,hrest,hfill⟩ := fill_spec tick m hbuf htick
  rw [hfill]
  generalize tick.getD [] ++ m = s at *
  rcases lt_trichotomy s.length 254 with hshort | hedge | hcut
  · rw [List.take_of_length_le (by omega)] at hrest ⊢
    rw [if_neg (by omega),and_iff_right (by omega : s.length ≠ 254)]
    exact prints_short hs (by omega) hrest
  · rw [List.length_take_of_le (by omega)] at hrest
    rw [if_neg (by omega),hedge]
    exact iff_of_false (not_prints_edge hs hedge (by omega)) fun h => h.1 rfl
  · rw [List.length_take_of_le (by omega)] at hrest
    rw [if_pos hcut]
    refine iff_of_true (prints_cut hs hcut (by rw [List.length_drop]; omega)) ⟨by omega,?_⟩
    rintro rfl
    simp at hcut

/-- A call that is not filtered. -/
theorem hgprintf_eq (vformat : List UInt8 → List UInt8) (jiffies : UInt64)
    (hout : st.hook = true ∨ st.disablePrint = 0) (hmarks : marks fmt = some k)
    (hlevel : st.printLevel = 0 ∨ (k.level.toNat : ℤ) ≤ st.printLevel.toInt) :
    hgprintf vformat jiffies st fmt =
      (fill st.buf (if k.tick then some (tickText jiffies) else none) (vformat k.fmt)).bind fun w =>
        putOut st k.color w.1 w.2 := by
  rw [hgprintf,if_neg (by rintro ⟨hhook,hdisabled⟩; rcases hout with h | h <;> simp_all),hmarks]
  simp only [Option.bind_eq_bind,Option.bind_some]
  rw [if_neg (by rintro ⟨hset,habove⟩; rcases hlevel with h | h; exact hset h; omega)]

/-- A call that is not filtered puts out its line exactly if the text is neither one longer
than what is stored nor a newline alone. -/
theorem hgprintf_iff (vformat : List UInt8 → List UInt8) (jiffies : UInt64) (hbuf : st.buf.length = 256)
    (hout : st.hook = true ∨ st.disablePrint = 0) (hmarks : marks fmt = some k)
    (hlevel : st.printLevel = 0 ∨ (k.level.toNat : ℤ) ≤ st.printLevel.toInt) (hm : 0 ∉ vformat k.fmt) :
    Prints st k.color ((if k.tick then tickText jiffies else []) ++ vformat k.fmt) (hgprintf vformat jiffies st fmt) ↔
      ((if k.tick then tickText jiffies else []) ++ vformat k.fmt).length ≠ 254 ∧
        (if k.tick then tickText jiffies else []) ++ vformat k.fmt ≠ [10] := by
  have htext : (if k.tick then tickText jiffies else []) =
      (if k.tick then some (tickText jiffies) else none).getD [] := by split_ifs <;> rfl
  have htick : (if k.tick then tickText jiffies else []).length ≤ 253 := by
    have hlen := tickText_length_le jiffies
    split_ifs
    · omega
    · simp
  have hs : 0 ∉ (if k.tick then tickText jiffies else []) ++ vformat k.fmt := by
    have hzero := zero_not_mem_tickText jiffies
    split_ifs
    · simp [hzero,hm]
    · simpa using hm
  rw [hgprintf_eq vformat jiffies hout hmarks hlevel]
  rw [htext] at htick hs ⊢
  exact prints_iff _ _ hbuf htick hs

/-- The console, and a hook behind a mark of the level. -/
theorem hgprintf_iff_lines :
    Prints ⟨false,0,0,List.replicate 256 0⟩ none ([] ++ [104,105,10])
        (hgprintf (fun _ => [104,105,10]) 7 ⟨false,0,0,List.replicate 256 0⟩ [37,0]) ∧
      ¬ Prints ⟨true,1,7,List.replicate 256 0⟩ (some (printColor 3)) ([] ++ [10])
        (hgprintf (fun _ => [10]) 7 ⟨true,1,7,List.replicate 256 0⟩ [1,51,37,0]) := by
  constructor
  · exact (hgprintf_iff (k := ⟨false,6,none,[37,0]⟩) (fun _ => [104,105,10]) 7 List.length_replicate (Or.inr rfl)
      rfl (Or.inl rfl) (by decide)).mpr (by decide)
  · intro h
    have hfalse := (hgprintf_iff (k := ⟨false,3,some (printColor 3),[37,0]⟩) (fun _ => [10]) 7 List.length_replicate
      (Or.inl rfl) rfl (Or.inr (by decide)) (by decide)).mp h
    exact hfalse.2 rfl

/-- A newline alone, and a text of 254 characters. -/
theorem hgprintf_fails :
    ¬ Prints ⟨false,0,0,List.replicate 256 0⟩ none [10]
        (hgprintf (fun _ => [10]) 0 ⟨false,0,0,List.replicate 256 0⟩ [37,0]) ∧
      ¬ Prints ⟨false,0,0,List.replicate 256 0⟩ none (List.replicate 254 97)
        (hgprintf (fun _ => List.replicate 254 97) 0 ⟨false,0,0,List.replicate 256 0⟩ [37,0]) := by
  have hmarks : marks [37,0] = some ⟨false,6,none,[37,0]⟩ := rfl
  rw [hgprintf_eq (k := ⟨false,6,none,[37,0]⟩) _ 0 (Or.inr rfl) hmarks (Or.inl rfl),
    hgprintf_eq (k := ⟨false,6,none,[37,0]⟩) _ 0 (Or.inr rfl) hmarks (Or.inl rfl)]
  constructor
  · intro h
    have hok := (prints_iff none [10] List.length_replicate (by decide) (by decide)).mp h
    exact hok.2 rfl
  · intro h
    have hok := (prints_iff none (List.replicate 254 97) List.length_replicate (by decide)
      fun hzero => absurd (List.eq_of_mem_replicate hzero) (by decide)).mp h
    exact hok.1 List.length_replicate

end Prints

end FmacSdk.Hgprintf
