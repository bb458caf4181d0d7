import FmacSdk.Foundation.Carving
import FmacSdk.Foundation.Transition
import Mathlib.Algebra.Group.Nat.Defs
import Mathlib.Data.List.Basic

/-! # Regions that keep their data over sleep

A header at the start of an arena marks where the next region begins. Addresses
and sizes are 32 bits wide; each call runs with interrupts off.
-/
namespace FmacSdk.SleepData
open Carving Transition

def SYSTEM_SLEEPDATA_ID_MAX : ℕ := 6
def MAGIC1 : ℕ := 0x1A2B3C4D
def MAGIC2 : ℕ := 0xD4C3B2A1
def NULL : ℕ := 0

/-- The size of the header, with its regions between two words before and one behind. -/
def HEADER : ℕ := 4 * (SYSTEM_SLEEPDATA_ID_MAX + 3)

abbrev Id := Fin SYSTEM_SLEEPDATA_ID_MAX

/-- A struct system_sleepdata. -/
@[ext] structure SystemSleepdata where
  magic1 : ℕ
  curAddr : ℕ
  regions : Id → ℕ
  magic2 : ℕ

/-- The symbols of the linker, as words of the header are aligned. -/
structure Arena where
  start : ℕ
  stop : ℕ
  room : start + HEADER ≤ stop
  addressable : stop < 2 ^ 32

def Arena.first (a : Arena) : ℕ := a.start + HEADER

/-- The header, and all that os_memset cleared, latest first. -/
structure Memory where
  sdata : SystemSleepdata
  cleared : List (ℕ × ℕ)

/-- ALIGN(size, 4) -/
def align4 (size : ℕ) : ℕ := (size + 3) % 2 ^ 32 / 4 * 4

section Code
variable (a : Arena)

/-- A word of the header after os_memset, whose addresses wrap. -/
def Arena.kept (addr len offset word : ℕ) : ℕ :=
  if (a.start + offset + 2 ^ 32 - addr) % 2 ^ 32 < len then 0 else word

def osMemset (m : Memory) (addr len : ℕ) : Memory where
  sdata := {
    magic1 := a.kept addr len 0 m.sdata.magic1
    curAddr := a.kept addr len 4 m.sdata.curAddr
    regions := fun id => a.kept addr len (8 + 4 * id) (m.sdata.regions id)
    magic2 := a.kept addr len (8 + 4 * SYSTEM_SLEEPDATA_ID_MAX) m.sdata.magic2 }
  cleared := (addr,len) :: m.cleared

def Memory.Valid (m : Memory) : Prop := m.sdata.magic1 = MAGIC1 ∧ m.sdata.magic2 = MAGIC2

instance (m : Memory) : Decidable m.Valid := inferInstanceAs (Decidable (_ ∧ _))

def sysSleepdataInit (m : Memory) : Memory :=
  if m.Valid then m
  else
    let m := osMemset a m a.start HEADER
    { m with sdata := { m.sdata with magic1 := MAGIC1, magic2 := MAGIC2, curAddr := a.start + HEADER } }

/-- The region at cur_addr goes to the id. -/
def Memory.grant (m : Memory) (id : Id) (size : ℕ) : Memory :=
  let m := osMemset a m m.sdata.curAddr size
  { m with sdata := { m.sdata with
    regions := Function.update m.sdata.regions id m.sdata.curAddr
    curAddr := (m.sdata.curAddr + size) % 2 ^ 32 } }

def sysSleepdataRequest (m : Memory) (id size : ℕ) : Memory × ℕ :=
  if h : id < SYSTEM_SLEEPDATA_ID_MAX then
    let id : Id := ⟨id,h⟩
    let m :=
      if m.sdata.regions id = 0 then
        if (m.sdata.curAddr + align4 size) % 2 ^ 32 < a.stop then m.grant a id (align4 size) else m
      else m
    (m,m.sdata.regions id)
  else (m,NULL)

def sysSleepdataReset (m : Memory) : Memory := { m with sdata := { m.sdata with magic1 := 0 } }

def sysSleepdataFreesize (m : Memory) : ℕ := (a.stop + 2 ^ 32 - m.sdata.curAddr) % 2 ^ 32

def sysSleepdataGet (m : Memory) (id : ℕ) : ℕ :=
  if h : id < SYSTEM_SLEEPDATA_ID_MAX then m.sdata.regions ⟨id,h⟩ else NULL

end Code

/-- With the most that was asked for each id and granted, the room that the request which got
its region made, and whether the header was not reset since it was made. -/
structure Sys where
  mem : Memory
  asked : Id → ℕ
  room : Id → ℕ
  fresh : Bool

inductive Label
  | init
  | request (id : ℕ) (size : UInt32)
  | reset

section Steps
variable (a : Arena)

/-- With what the request means for its id. -/
def Sys.request (s : Sys) (id size : ℕ) : Sys :=
  let r := sysSleepdataRequest a s.mem id size
  if h : id < SYSTEM_SLEEPDATA_ID_MAX then
    { s with
      mem := r.1
      asked := if r.2 = NULL then s.asked else Function.update s.asked ⟨id,h⟩ (max (s.asked ⟨id,h⟩) size)
      room := if s.mem.sdata.regions ⟨id,h⟩ = 0 then Function.update s.room ⟨id,h⟩ (align4 size) else s.room }
  else { s with mem := r.1 }

def step (s : Sys) : Label → Option Sys
  | .init =>
    if s.mem.Valid then some { s with mem := sysSleepdataInit a s.mem }
    else some ⟨sysSleepdataInit a s.mem,fun _ => 0,fun _ => 0,true⟩
  | .request id size => some (s.request a id size.toNat)
  | .reset => some { s with mem := sysSleepdataReset s.mem, fresh := false }

/-- After the first init. -/
def booted (m : Memory) : Sys := ⟨sysSleepdataInit a m,fun _ => 0,fun _ => 0,true⟩

/-- What a request is for, with the memory and the pointer it leaves. -/
structure Served (s : Sys) (id size : ℕ) (m : Memory) (p : ℕ) : Prop where
  null : p = NULL → m = s.mem
  inside : p ≠ NULL → a.first ≤ p ∧ p + size ≤ m.sdata.curAddr ∧ m.sdata.curAddr ≤ a.stop
  apart : p ≠ NULL → ∀ k : Id, k.val ≠ id → s.mem.sdata.regions k ≠ 0 → ∀ b, p ≤ b → b < p + size →
    ¬ (s.mem.sdata.regions k ≤ b ∧ b < s.mem.sdata.regions k + s.asked k)
  kept : ∀ k, sysSleepdataGet s.mem k ≠ NULL → sysSleepdataGet m k = sysSleepdataGet s.mem k

/-- Requests are served, and without a reset the pointers stay. -/
def Serves (s : Sys) : Label → Prop
  | .init => s.fresh = true → ∀ k, sysSleepdataGet (sysSleepdataInit a s.mem) k = sysSleepdataGet s.mem k
  | .request id size =>
    let r := sysSleepdataRequest a s.mem id size.toNat
    Served a s id size.toNat r.1 r.2
  | .reset => True

/-- An addition wraps on the way to a new region, or a request for an id that has a region
asks for more than that region was made for. -/
def Spoils (s : Sys) : Label → Prop
  | .request id size => ∃ h : id < SYSTEM_SLEEPDATA_ID_MAX,
    if s.mem.sdata.regions ⟨id,h⟩ = 0 then
      (s.mem.sdata.curAddr + align4 size.toNat) % 2 ^ 32 < a.stop ∧
        (2 ^ 32 ≤ size.toNat + 3 ∨ 2 ^ 32 ≤ s.mem.sdata.curAddr + align4 size.toNat)
    else s.room ⟨id,h⟩ < size.toNat
  | _ => False

instance (s : Sys) (l : Label) : Decidable (Spoils a s l) :=
  match l with
  | .request _ _ => inferInstanceAs (Decidable (∃ _, _))
  | .init | .reset => isFalse id

end Steps

section Requests
variable {a : Arena} {m : Memory} {id size : ℕ} {k : Id}

theorem align4_le (h : size + 3 < 2 ^ 32) : size ≤ align4 size := by
  rw [align4,Nat.mod_eq_of_lt h]
  omega

/-- A size that wraps on its way to the next multiple of four becomes 0. -/
theorem align4_wraps (h : 2 ^ 32 ≤ size + 3) (hsize : size < 2 ^ 32) : align4 size = 0 := by
  unfold align4
  omega

theorem kept_self {offset word : ℕ} (h : offset < HEADER) : a.kept a.start HEADER offset word = 0 := by
  have hheader : HEADER = 36 := rfl
  rw [Arena.kept,if_pos]
  omega

/-- os_memset behind the header leaves the header. -/
theorem kept_behind {addr len offset word : ℕ} (haddr : a.first ≤ addr) (hlen : addr + len < 2 ^ 32)
    (hoffset : offset < HEADER) : a.kept addr len offset word = word := by
  rw [Arena.first] at haddr
  rw [Arena.kept,if_neg]
  omega

theorem offset_lt (k : Id) : 8 + 4 * k.val < HEADER := by
  have hk := k.isLt
  rw [HEADER]
  omega

theorem osMemset_sdata {addr len : ℕ} (haddr : a.first ≤ addr) (hlen : addr + len < 2 ^ 32) :
    (osMemset a m addr len).sdata = m.sdata := by
  have hword {offset word : ℕ} (h : offset < HEADER) : a.kept addr len offset word = word :=
    kept_behind haddr hlen h
  apply SystemSleepdata.ext
  · exact hword (by decide : 0 < HEADER)
  · exact hword (by decide : 4 < HEADER)
  · exact funext fun k => hword (offset_lt k)
  · exact hword (by decide : 8 + 4 * SYSTEM_SLEEPDATA_ID_MAX < HEADER)

theorem init_sdata (h : ¬ m.Valid) : (sysSleepdataInit a m).sdata = ⟨MAGIC1,a.first,fun _ => 0,MAGIC2⟩ := by
  rw [sysSleepdataInit,if_neg h]
  have hregions : (osMemset a m a.start HEADER).sdata.regions = fun _ => 0 := funext fun k => kept_self (offset_lt k)
  exact congrArg (fun regions => SystemSleepdata.mk MAGIC1 a.first regions MAGIC2) hregions

theorem grant_sdata (haddr : a.first ≤ m.sdata.curAddr) (hlen : m.sdata.curAddr + size < 2 ^ 32) :
    (m.grant a k size).sdata = { m.sdata with
      regions := Function.update m.sdata.regions k m.sdata.curAddr, curAddr := m.sdata.curAddr + size } := by
  rw [Memory.grant,osMemset_sdata haddr hlen,Nat.mod_eq_of_lt hlen]

/-- The id has a region, gets none, or gets one. -/
theorem request_cases (a : Arena) (m : Memory) (size : ℕ) (h : id < SYSTEM_SLEEPDATA_ID_MAX) :
    m.sdata.regions ⟨id,h⟩ ≠ 0 ∧ sysSleepdataRequest a m id size = (m,m.sdata.regions ⟨id,h⟩) ∨
    m.sdata.regions ⟨id,h⟩ = 0 ∧ a.stop ≤ (m.sdata.curAddr + align4 size) % 2 ^ 32 ∧
      sysSleepdataRequest a m id size = (m,NULL) ∨
    m.sdata.regions ⟨id,h⟩ = 0 ∧ (m.sdata.curAddr + align4 size) % 2 ^ 32 < a.stop ∧
      sysSleepdataRequest a m id size =
        (m.grant a ⟨id,h⟩ (align4 size),(m.grant a ⟨id,h⟩ (align4 size)).sdata.regions ⟨id,h⟩) := by
  unfold sysSleepdataRequest
  rw [dif_pos h]
  dsimp only
  by_cases hregion : m.sdata.regions ⟨id,h⟩ = 0
  · right
    rw [if_pos hregion]
    by_cases hroom : (m.sdata.curAddr + align4 size) % 2 ^ 32 < a.stop
    · right
      refine ⟨hregion,hroom,?_⟩
      rw [if_pos hroom]
    · left
      refine ⟨hregion,not_lt.mp hroom,?_⟩
      rw [if_neg hroom,hregion]
      rfl
  · left
    refine ⟨hregion,?_⟩
    rw [if_neg hregion]

theorem request_none (a : Arena) (m : Memory) (size : ℕ) (h : ¬ id < SYSTEM_SLEEPDATA_ID_MAX) :
    sysSleepdataRequest a m id size = (m,NULL) := dif_neg h

theorem get_of_regions {m' : Memory} (h : ∀ k, m.sdata.regions k ≠ 0 → m'.sdata.regions k = m.sdata.regions k)
    (hget : sysSleepdataGet m id ≠ NULL) : sysSleepdataGet m' id = sysSleepdataGet m id := by
  unfold sysSleepdataGet at hget ⊢
  split_ifs with hid
  · rw [dif_pos hid] at hget
    exact h _ hget
  · rfl

end Requests

section Runs
variable {a : Arena} {s t : Sys} {id size : ℕ}

def Sys.block (s : Sys) (k : Id) : Option (ℕ × ℕ) :=
  if s.mem.sdata.regions k = 0 then none else some (s.mem.sdata.regions k,s.room k)

structure Inv (a : Arena) (s : Sys) : Prop where
  magic : s.fresh = true → s.mem.Valid
  carved : Carved a.first s.mem.sdata.curAddr s.block
  top : s.mem.sdata.curAddr ≤ a.stop
  asked : ∀ k, s.mem.sdata.regions k ≠ 0 → s.asked k ≤ s.room k ∧ (0 < s.room k → 0 < s.asked k)
  unasked : ∀ k, s.mem.sdata.regions k = 0 → s.asked k = 0

theorem Inv.made {m : Memory} (h : ¬ m.Valid) : Inv a ⟨sysSleepdataInit a m,fun _ => 0,fun _ => 0,true⟩ := by
  have hsdata := init_sdata (a := a) h
  refine ⟨fun _ => ?_,?_,?_,fun k hk => ?_,fun _ _ => rfl⟩
  · exact ⟨by rw [hsdata],by rw [hsdata]⟩
  · have hblock : Sys.block ⟨sysSleepdataInit a m,fun _ => 0,fun _ => 0,true⟩ = fun _ => none := by
      funext k
      simp [Sys.block,hsdata]
    rw [hblock,hsdata]
    exact Carved.empty le_rfl
  · rw [hsdata]
    exact a.room
  · simp [hsdata] at hk

theorem block_some {k : Id} (h : s.mem.sdata.regions k ≠ 0) : s.block k = some (s.mem.sdata.regions k,s.room k) :=
  if_neg h

theorem Inv.inside (h : Inv a s) {k : Id} (hk : s.mem.sdata.regions k ≠ 0) :
    a.first ≤ s.mem.sdata.regions k ∧ s.mem.sdata.regions k + s.room k ≤ s.mem.sdata.curAddr :=
  h.carved.inside k _ _ (block_some hk)

/-- The free bytes do not wrap. -/
theorem Inv.freesize (h : Inv a s) : sysSleepdataFreesize a s.mem = a.stop - s.mem.sdata.curAddr := by
  have htop := h.top
  have haddressable := a.addressable
  unfold sysSleepdataFreesize
  omega

/-- The id has a region with room for the request. -/
theorem Inv.again (h : Inv a s) {hid : id < SYSTEM_SLEEPDATA_ID_MAX} (hregion : s.mem.sdata.regions ⟨id,hid⟩ ≠ 0)
    (hfits : size ≤ s.room ⟨id,hid⟩) : Served a s id size s.mem (s.mem.sdata.regions ⟨id,hid⟩) := by
  have hself := h.inside hregion
  refine ⟨fun hnull => absurd hnull hregion,fun _ => ⟨hself.1,?_,h.top⟩,fun _ k hk hregion' b hle hlt => ?_,
    fun _ _ => rfl⟩
  · omega
  · have hne : (⟨id,hid⟩ : Id) ≠ k := fun heq => hk (congrArg Fin.val heq).symm
    have hasked := (h.asked k hregion').1
    have hapart := h.carved.apart _ _ _ _ _ _ hne (block_some hregion) (block_some hregion')
    omega

/-- The id has a region without room for the request. -/
theorem Inv.not_again (h : Inv a s) {hid : id < SYSTEM_SLEEPDATA_ID_MAX} (hregion : s.mem.sdata.regions ⟨id,hid⟩ ≠ 0)
    (hlarge : s.room ⟨id,hid⟩ < size) : ¬ Served a s id size s.mem (s.mem.sdata.regions ⟨id,hid⟩) := by
  intro hserved
  have hinside := hserved.inside hregion
  rcases h.carved.exceeds (block_some hregion) hlarge with htop | ⟨k,n,hne,hk,hn⟩
  · omega
  · have hregion' : s.mem.sdata.regions k ≠ 0 := by
      intro hzero
      simp [Sys.block,hzero] at hk
    obtain ⟨haddr,hroom⟩ := Prod.mk.inj (Option.some.inj ((block_some hregion').symm.trans hk))
    have hasked : 0 < s.asked k := (h.asked k hregion').2 (by omega)
    have hne' : k.val ≠ id := fun heq => hne (Fin.ext heq)
    refine hserved.apart hregion k hne' hregion' (s.mem.sdata.regions k) ?_ ?_ ⟨le_rfl,?_⟩ <;> omega

theorem served_refused : Served a s id size s.mem NULL :=
  ⟨fun _ => rfl,fun hne => absurd rfl hne,fun hne => absurd rfl hne,fun _ _ => rfl⟩

theorem Inv.pos (h : Inv a s) : 0 < s.mem.sdata.curAddr := Nat.lt_of_lt_of_le (Nat.succ_pos _) h.carved.le

/-- The region at cur_addr is new. -/
theorem Inv.granted (h : Inv a s) {hid : id < SYSTEM_SLEEPDATA_ID_MAX} (hregion : s.mem.sdata.regions ⟨id,hid⟩ = 0)
    (hsize : size + 3 < 2 ^ 32) (hroom : s.mem.sdata.curAddr + align4 size < a.stop) :
    Served a s id size (s.mem.grant a ⟨id,hid⟩ (align4 size)) s.mem.sdata.curAddr := by
  have hlen : s.mem.sdata.curAddr + align4 size < 2 ^ 32 := hroom.trans a.addressable
  have hsdata := grant_sdata (k := ⟨id,hid⟩) h.carved.le hlen
  have hfits := align4_le hsize
  have hpos := h.pos
  refine ⟨fun hnull => ?_,fun _ => ?_,fun _ k _ hregion' b hle _ => ?_,fun k => get_of_regions fun k hk => ?_⟩
  · rw [NULL] at hnull
    omega
  · rw [hsdata]
    exact ⟨h.carved.le,Nat.add_le_add_left hfits _,hroom.le⟩
  · have hbelow := (h.inside hregion').2
    have hasked := (h.asked k hregion').1
    omega
  · rw [hsdata]
    refine Function.update_of_ne ?_ ..
    rintro rfl
    exact hk hregion

/-- An addition wrapped on the way to the region. -/
theorem Inv.not_granted (h : Inv a s) {hid : id < SYSTEM_SLEEPDATA_ID_MAX} (hsize : size < 2 ^ 32)
    (hwraps : 2 ^ 32 ≤ size + 3 ∨ 2 ^ 32 ≤ s.mem.sdata.curAddr + align4 size) :
    ¬ Served a s id size (s.mem.grant a ⟨id,hid⟩ (align4 size))
      ((s.mem.grant a ⟨id,hid⟩ (align4 size)).sdata.regions ⟨id,hid⟩) := by
  have hpos := h.pos
  have htop := h.top
  have haddressable := a.addressable
  have halign : align4 size < 2 ^ 32 := by
    unfold align4
    omega
  intro hserved
  have hregion : (s.mem.grant a ⟨id,hid⟩ (align4 size)).sdata.regions ⟨id,hid⟩ =
      a.kept s.mem.sdata.curAddr (align4 size) 4 s.mem.sdata.curAddr := Function.update_self ..
  have hcur : (s.mem.grant a ⟨id,hid⟩ (align4 size)).sdata.curAddr =
      (a.kept s.mem.sdata.curAddr (align4 size) 4 s.mem.sdata.curAddr + align4 size) % 2 ^ 32 := rfl
  by_cases hcleared : a.kept s.mem.sdata.curAddr (align4 size) 4 s.mem.sdata.curAddr = 0
  · -- os_memset went round to the header, and the pointer is NULL.
    have hsame := hserved.null (hregion.trans hcleared)
    have hlength : (s.mem.grant a ⟨id,hid⟩ (align4 size)).cleared.length = s.mem.cleared.length + 1 := rfl
    rw [hsame] at hlength
    omega
  · have hword : a.kept s.mem.sdata.curAddr (align4 size) 4 s.mem.sdata.curAddr = s.mem.sdata.curAddr := by
      unfold Arena.kept at hcleared ⊢
      split_ifs at hcleared ⊢ with hcovered
      · exact absurd rfl hcleared
      · rfl
    have hinside := (hserved.inside (by rw [hregion]; exact hcleared)).2.1
    rw [hregion,hcur,hword] at hinside
    rcases hwraps with hwraps | hwraps
    · rw [align4_wraps hwraps hsize] at hinside
      omega
    · omega

/-- The next state, with the new region. -/
theorem Inv.grown (h : Inv a s) {hid : id < SYSTEM_SLEEPDATA_ID_MAX} (hregion : s.mem.sdata.regions ⟨id,hid⟩ = 0)
    (hsize : size + 3 < 2 ^ 32) (hroom : s.mem.sdata.curAddr + align4 size < a.stop)
    (hr : sysSleepdataRequest a s.mem id size =
      (s.mem.grant a ⟨id,hid⟩ (align4 size),(s.mem.grant a ⟨id,hid⟩ (align4 size)).sdata.regions ⟨id,hid⟩)) :
    Inv a (s.request a id size) := by
  have hlen : s.mem.sdata.curAddr + align4 size < 2 ^ 32 := hroom.trans a.addressable
  have hsdata := grant_sdata (k := ⟨id,hid⟩) h.carved.le hlen
  have hpos := h.pos
  have hnew : (s.request a id size).mem.sdata = { s.mem.sdata with
      regions := Function.update s.mem.sdata.regions ⟨id,hid⟩ s.mem.sdata.curAddr
      curAddr := s.mem.sdata.curAddr + align4 size } := by
    rw [Sys.request,dif_pos hid,hr]
    exact hsdata
  have hasked : (s.request a id size).asked = Function.update s.asked ⟨id,hid⟩ size := by
    have hnull : s.mem.sdata.curAddr ≠ NULL := by
      rw [NULL]
      omega
    rw [Sys.request,dif_pos hid,hr,hsdata]
    simp [hnull,h.unasked _ hregion]
  have hrooms : (s.request a id size).room = Function.update s.room ⟨id,hid⟩ (align4 size) := by
    rw [Sys.request,dif_pos hid]
    exact if_pos hregion
  have hblock : (s.request a id size).block =
      Function.update s.block ⟨id,hid⟩ (some (s.mem.sdata.curAddr,align4 size)) := by
    funext j
    rw [Sys.block,hnew,hrooms]
    by_cases hj : j = ⟨id,hid⟩
    · have hne : s.mem.sdata.curAddr ≠ 0 := by omega
      simp [hj,hne]
    · simp [hj,Sys.block]
  refine ⟨fun hfresh => ?_,?_,?_,fun j hj => ?_,fun j hj => ?_⟩
  · have hvalid := h.magic (by rw [Sys.request,dif_pos hid] at hfresh; exact hfresh)
    rw [Memory.Valid,hnew]
    exact hvalid
  · rw [hblock,hnew]
    exact h.carved.push (if_pos hregion) _
  · rw [hnew]
    exact hroom.le
  · rw [hnew] at hj
    rw [hasked,hrooms]
    by_cases hjk : j = ⟨id,hid⟩
    · rw [hjk,Function.update_self,Function.update_self]
      refine ⟨align4_le hsize,fun hpos => ?_⟩
      by_contra hzero
      obtain rfl : size = 0 := by omega
      exact absurd hpos (by decide)
    · rw [Function.update_of_ne hjk,Function.update_of_ne hjk]
      exact h.asked j (by simpa [hjk] using hj)
  · have hjk : j ≠ ⟨id,hid⟩ := by
      rintro rfl
      rw [hnew] at hj
      simp at hj
      omega
    rw [hasked,Function.update_of_ne hjk]
    exact h.unasked j (by rw [hnew] at hj; simpa [hjk] using hj)

/-- The next state, where the id has a region or is refused one. -/
theorem Inv.unchanged (h : Inv a s) {asked room : Id → ℕ}
    (hroom : ∀ j, s.mem.sdata.regions j ≠ 0 → room j = s.room j)
    (hasked : ∀ j, s.mem.sdata.regions j ≠ 0 → asked j ≤ room j ∧ (0 < room j → 0 < asked j))
    (hunasked : ∀ j, s.mem.sdata.regions j = 0 → asked j = 0) :
    Inv a { s with asked := asked, room := room } := by
  have hblock : Sys.block { s with asked := asked, room := room } = s.block := by
    funext j
    unfold Sys.block
    split_ifs with hj
    · rfl
    · exact congrArg (fun n => some (s.mem.sdata.regions j,n)) (hroom j hj)
  exact ⟨h.magic,hblock ▸ h.carved,h.top,hasked,hunasked⟩

theorem Inv.request (h : Inv a s) {size : UInt32} (hgood : ¬ Spoils a s (.request id size)) :
    Inv a (s.request a id size.toNat) := by
  by_cases hid : id < SYSTEM_SLEEPDATA_ID_MAX
  · rcases request_cases a s.mem size.toNat hid with ⟨hregion,hr⟩ | ⟨hregion,-,hr⟩ | ⟨hregion,hroom,hr⟩
    · have hfits : size.toNat ≤ s.room ⟨id,hid⟩ := by
        by_contra hlarge
        refine hgood ⟨hid,?_⟩
        rw [if_neg hregion]
        exact not_le.mp hlarge
      rw [Sys.request,dif_pos hid,hr,if_neg hregion,if_neg (by exact hregion)]
      refine h.unchanged (fun _ _ => rfl) (fun j hj => ?_) fun j hj => ?_
      · have hold := h.asked j hj
        by_cases hjk : j = ⟨id,hid⟩
        · rw [hjk] at hold ⊢
          rw [Function.update_self]
          omega
        · rwa [Function.update_of_ne hjk]
      · have hjk : j ≠ ⟨id,hid⟩ := by
          rintro rfl
          exact hregion hj
        rw [Function.update_of_ne hjk]
        exact h.unasked j hj
    · rw [Sys.request,dif_pos hid,hr,if_pos rfl,if_pos hregion]
      have hother {j : Id} (hj : s.mem.sdata.regions j ≠ 0) : j ≠ ⟨id,hid⟩ := by
        rintro rfl
        exact hj hregion
      refine h.unchanged (fun j hj => Function.update_of_ne (hother hj) ..) (fun j hj => ?_) h.unasked
      rw [Function.update_of_ne (hother hj)]
      exact h.asked j hj
    · have hfits : size.toNat + 3 < 2 ^ 32 ∧ s.mem.sdata.curAddr + align4 size.toNat < 2 ^ 32 := by
        by_contra hwraps
        refine hgood ⟨hid,?_⟩
        rw [if_pos hregion]
        omega
      rw [Nat.mod_eq_of_lt hfits.2] at hroom
      exact h.grown hregion hfits.1 hroom hr
  · rw [Sys.request,dif_neg hid,request_none _ _ _ hid]
    exact h

theorem Inv.step (h : Inv a s) {l : Label} (hgood : ¬ Spoils a s l) (hs : SleepData.step a s l = some t) : Inv a t := by
  cases l with
  | init =>
    rw [SleepData.step] at hs
    split_ifs at hs with hvalid
    · obtain rfl := Option.some.inj hs
      rw [sysSleepdataInit,if_pos hvalid]
      exact h
    · obtain rfl := Option.some.inj hs
      exact Inv.made hvalid
  | request id size =>
    obtain rfl := Option.some.inj hs
    exact h.request hgood
  | reset =>
    obtain rfl := Option.some.inj hs
    exact ⟨fun hfresh => by simp at hfresh,h.carved,h.top,h.asked,h.unasked⟩

/-- A label is served exactly where it does not spoil. -/
theorem Inv.serves (h : Inv a s) (l : Label) : Serves a s l ↔ ¬ Spoils a s l := by
  cases l with
  | init =>
    refine iff_of_true (fun hfresh k => ?_) id
    rw [sysSleepdataInit,if_pos (h.magic hfresh)]
  | reset => exact iff_of_true trivial id
  | request id size =>
    show Served a s id size.toNat _ _ ↔ _
    by_cases hid : id < SYSTEM_SLEEPDATA_ID_MAX
    · have hspoils : Spoils a s (.request id size) ↔
          if s.mem.sdata.regions ⟨id,hid⟩ = 0 then
            (s.mem.sdata.curAddr + align4 size.toNat) % 2 ^ 32 < a.stop ∧
              (2 ^ 32 ≤ size.toNat + 3 ∨ 2 ^ 32 ≤ s.mem.sdata.curAddr + align4 size.toNat)
          else s.room ⟨id,hid⟩ < size.toNat := ⟨fun ⟨_,h⟩ => h,fun h => ⟨hid,h⟩⟩
      rcases request_cases a s.mem size.toNat hid with ⟨hregion,hr⟩ | ⟨hregion,hroom,hr⟩ | ⟨hregion,hroom,hr⟩
      · rw [hspoils,if_neg hregion,hr,not_lt]
        exact ⟨fun hserved => not_lt.mp fun hlarge => h.not_again hregion hlarge hserved,h.again hregion⟩
      · rw [hspoils,if_pos hregion,hr]
        exact iff_of_true served_refused fun hwraps => absurd hwraps.1 (not_lt.mpr hroom)
      · rw [hspoils,if_pos hregion,hr]
        constructor
        · exact fun hserved hwraps => h.not_granted size.toNat_lt hwraps.2 hserved
        · intro hgood
          have hfits : size.toNat + 3 < 2 ^ 32 ∧ s.mem.sdata.curAddr + align4 size.toNat < 2 ^ 32 := by
            omega
          rw [Nat.mod_eq_of_lt hfits.2] at hroom
          have hregion' : (s.mem.grant a ⟨id,hid⟩ (align4 size.toNat)).sdata.regions ⟨id,hid⟩ = s.mem.sdata.curAddr := by
            rw [grant_sdata h.carved.le hfits.2]
            exact Function.update_self ..
          rw [hregion']
          exact h.granted hregion hfits.1 hroom
    · rw [request_none _ _ _ hid]
      exact iff_of_true served_refused fun hspoils => hid hspoils.1

/-- Every request of a run is served, and no pointer is lost but by a reset, in exactly
the runs in which no addition wraps and no id asks for more than it has. -/
theorem serves_iff {m : Memory} (hm : ¬ m.Valid) {ls : List Label} (h : Runs (SleepData.step a) (booted a m) ls s) :
    (∀ ms l u, ms ++ [l] <+: ls → Runs (SleepData.step a) (booted a m) ms u → Serves a u l) ↔
      Runs (guarded (fun s l => ¬ Spoils a s l) (SleepData.step a)) (booted a m) ls s :=
  h.guarded_iff_steps (fun _ _ _ hi hgood hs => hi.step hgood hs) (fun _ l hi => hi.serves l) (Inv.made hm)

end Runs

def arena : Arena := ⟨0x20000000,0x20000100,by decide,by decide⟩

def garbage : Memory := ⟨⟨0,0,fun _ => 7,0⟩,[]⟩

theorem serves_slept : ∃ s, Runs (guarded (fun s l => ¬ Spoils arena s l) (step arena)) (booted arena garbage)
    [.request 5 4,.request 0 10,.init,.request 5 3] s ∧ sysSleepdataGet s.mem 5 = 0x20000024 ∧
    sysSleepdataGet s.mem 0 = 0x20000028 ∧
    ∀ ms l u, ms ++ [l] <+: [.request 5 4,.request 0 10,.init,.request 5 3] →
      Runs (step arena) (booted arena garbage) ms u → Serves arena u l := by
  refine Runs.exists_of_exec (fun s => (sysSleepdataGet s.mem 5,sysSleepdataGet s.mem 0))
    (v := (0x20000024,0x20000028)) (by decide +kernel) ?_
  intro s hrun hget
  obtain ⟨hfive,hzero⟩ := Prod.mk.inj hget
  exact ⟨hfive,hzero,(serves_iff (by decide) hrun.of_guarded).mpr hrun⟩

/-- A sum that wraps is granted, and a second request for an id gets the bytes of the first. -/
theorem serves_fails :
    ((sysSleepdataRequest arena (booted arena garbage).mem 5 0xF0000000).2 = 0x20000024 ∧
      arena.stop < 0x20000024 + 0xF0000000 ∧ ¬ Serves arena (booted arena garbage) (.request 5 0xF0000000)) ∧
    ∃ s, Runs (step arena) (booted arena garbage) [.request 5 4,.request 4 8] s ∧
      (sysSleepdataRequest arena s.mem 5 100).2 = 0x20000024 ∧ sysSleepdataGet s.mem 4 = 0x20000028 ∧
      ¬ Serves arena s (.request 5 100) := by
  constructor
  · have hpointer : (sysSleepdataRequest arena (booted arena garbage).mem 5 0xF0000000).2 = 0x20000024 := by
      decide +kernel
    refine ⟨hpointer,by decide,fun h => ?_⟩
    have hinside := (Served.inside h (by decide +kernel)).2.1
    have hbeyond : ¬ (sysSleepdataRequest arena (booted arena garbage).mem 5 (0xF0000000 : UInt32).toNat).2 +
        (0xF0000000 : UInt32).toNat ≤
      (sysSleepdataRequest arena (booted arena garbage).mem 5 (0xF0000000 : UInt32).toNat).1.sdata.curAddr := by
      decide +kernel
    exact hbeyond hinside
  · refine Runs.exists_of_exec (fun s =>
      ((sysSleepdataRequest arena s.mem 5 100).2,sysSleepdataGet s.mem 4,s.asked ⟨4,by decide⟩))
      (v := (0x20000024,0x20000028,8)) (by decide +kernel) ?_
    intro s _ hget
    obtain ⟨hp,hget⟩ := Prod.mk.inj hget
    obtain ⟨hfour,hasked⟩ := Prod.mk.inj hget
    refine ⟨hp,hfour,fun h => ?_⟩
    have hfour' : s.mem.sdata.regions ⟨4,by decide⟩ = 0x20000028 := hfour
    have hpointer : (sysSleepdataRequest arena s.mem 5 (100 : UInt32).toNat).2 = 0x20000024 := hp
    refine Served.apart h ?_ ⟨4,by decide⟩ (by decide) ?_ 0x20000028 ?_ ?_ ⟨?_,?_⟩
    · rw [hpointer]
      decide
    · rw [hfour']
      decide
    · rw [hpointer]
      decide
    · rw [hpointer]
      decide
    · exact hfour'.le
    · rw [hfour',hasked]
      decide

end FmacSdk.SleepData
