import FmacSdk.Common.SleepData

/-! # The free size and what is granted

sys_sleepdata_freesize counts the bytes up to the end of the arena, and a request is
granted only while one of them stays free. Both are words of 32 bits.
-/
namespace FmacSdk.SleepData
open Transition

def roundUp4 (size : ℕ) : ℕ := (size + 3) / 4 * 4

/-- The free size tells whether a request gets its region, and shrinks by what it takes. -/
structure Exact (a : Arena) (m : Memory) (id size : ℕ) : Prop where
  granted_iff : (sysSleepdataRequest a m id size).2 ≠ NULL ↔ roundUp4 size ≤ sysSleepdataFreesize a m
  taken : (sysSleepdataRequest a m id size).2 ≠ NULL →
    sysSleepdataFreesize a (sysSleepdataRequest a m id size).1 + roundUp4 size = sysSleepdataFreesize a m

/-- A new region that is granted because an addition wraps. -/
def Wraps (a : Arena) (s : Sys) : Label → Prop
  | .request id size => ∃ h : id < SYSTEM_SLEEPDATA_ID_MAX, s.mem.sdata.regions ⟨id,h⟩ = 0 ∧
      (s.mem.sdata.curAddr + align4 size.toNat) % 2 ^ 32 < a.stop ∧
      (2 ^ 32 ≤ size.toNat + 3 ∨ 2 ^ 32 ≤ s.mem.sdata.curAddr + align4 size.toNat)
  | _ => False

instance (a : Arena) (s : Sys) (l : Label) : Decidable (Wraps a s l) :=
  match l with
  | .request _ _ => inferInstanceAs (Decidable (∃ _, _))
  | .init | .reset => isFalse id

/-- The sum goes round to an address that is not behind the header's own cur_addr. -/
def GoesRound (a : Arena) (m : Memory) (size : ℕ) : Prop :=
  2 ^ 32 ≤ m.sdata.curAddr + roundUp4 size ∧ m.sdata.curAddr + roundUp4 size ≤ 2 ^ 32 + (a.start + 4)

section Bounds
variable {a : Arena} {s t : Sys} {m : Memory} {id size : ℕ}

theorem align4_roundUp4 (h : size ≤ 2 ^ 31) : align4 size = roundUp4 size := by
  rw [align4,Nat.mod_eq_of_lt (by omega)]
  rfl

/-- The next region begins behind the header and not behind the end. -/
def Bounded (a : Arena) (m : Memory) : Prop := a.first ≤ m.sdata.curAddr ∧ m.sdata.curAddr ≤ a.stop

theorem Bounded.made (h : ¬ m.Valid) : Bounded a (sysSleepdataInit a m) := by
  have hcur : (sysSleepdataInit a m).sdata.curAddr = a.first := by rw [init_sdata h]
  rw [Bounded,hcur]
  exact ⟨le_rfl,a.room⟩

theorem Bounded.freesize (h : Bounded a m) : sysSleepdataFreesize a m = a.stop - m.sdata.curAddr := by
  have haddressable := a.addressable
  have htop := h.2
  unfold sysSleepdataFreesize
  omega

theorem Bounded.grant (h : Bounded a m) {k : Id} (hroom : m.sdata.curAddr + size < a.stop) :
    Bounded a (m.grant a k size) := by
  have hcur : (m.grant a k size).sdata.curAddr = m.sdata.curAddr + size := by
    rw [grant_sdata h.1 (hroom.trans a.addressable)]
  rw [Bounded,hcur]
  exact ⟨h.1.trans (Nat.le_add_right _ _),hroom.le⟩

theorem Bounded.request (h : Bounded a s.mem) {size : UInt32} (hgood : ¬ Wraps a s (.request id size)) :
    Bounded a (sysSleepdataRequest a s.mem id size.toNat).1 := by
  by_cases hid : id < SYSTEM_SLEEPDATA_ID_MAX
  · rcases request_cases a s.mem size.toNat hid with ⟨-,hr⟩ | ⟨-,-,hr⟩ | ⟨hregion,hroom,hr⟩
    · rw [hr]
      exact h
    · rw [hr]
      exact h
    · have hsmall : s.mem.sdata.curAddr + align4 size.toNat < 2 ^ 32 := by
        by_contra hwraps
        exact hgood ⟨hid,hregion,hroom,Or.inr (not_lt.mp hwraps)⟩
      rw [Nat.mod_eq_of_lt hsmall] at hroom
      rw [hr]
      exact h.grant hroom
  · rw [request_none _ _ _ hid]
    exact h

theorem Bounded.step (h : Bounded a s.mem) {l : Label} (hgood : ¬ Wraps a s l)
    (hs : SleepData.step a s l = some t) : Bounded a t.mem := by
  cases l with
  | init =>
    rw [SleepData.step] at hs
    split_ifs at hs with hvalid
    · obtain rfl := Option.some.inj hs
      rw [sysSleepdataInit,if_pos hvalid]
      exact h
    · obtain rfl := Option.some.inj hs
      exact Bounded.made hvalid
  | request id size =>
    obtain rfl := Option.some.inj hs
    have hmem : (s.request a id size.toNat).mem = (sysSleepdataRequest a s.mem id size.toNat).1 := by
      unfold Sys.request
      split_ifs <;> rfl
    rw [hmem]
    exact h.request hgood
  | reset =>
    obtain rfl := Option.some.inj hs
    exact h

theorem bounded_run (hm : ¬ m.Valid) {ls : List Label}
    (h : Runs (guarded (fun s l => ¬ Wraps a s l) (step a)) (booted a m) ls s) : Bounded a s.mem :=
  h.guarded_invariant (I := fun s => Bounded a s.mem) (fun _ _ _ hi hgood hs => hi.step hgood hs) (Bounded.made hm)

end Bounds

section Exactness
variable {a : Arena} {s : Sys} {m : Memory} {id size : ℕ}

theorem Exact.refused (hptr : (sysSleepdataRequest a m id size).2 = NULL) :
    Exact a m id size ↔ sysSleepdataFreesize a m < roundUp4 size := by
  constructor
  · intro h
    by_contra hfits
    exact h.granted_iff.mpr (not_lt.mp hfits) hptr
  · intro hlarge
    exact ⟨iff_of_false (fun hne => hne hptr) (not_le.mpr hlarge),fun hne => absurd hptr hne⟩

/-- The sum does not wrap, and leaves a byte free. -/
theorem Exact.granted (h : Bounded a m) (hid : id < SYSTEM_SLEEPDATA_ID_MAX) (hsize : size ≤ 2 ^ 31)
    (hroom : m.sdata.curAddr + roundUp4 size < a.stop)
    (hr : sysSleepdataRequest a m id size =
      (m.grant a ⟨id,hid⟩ (align4 size),(m.grant a ⟨id,hid⟩ (align4 size)).sdata.regions ⟨id,hid⟩)) :
    Exact a m id size := by
  rw [align4_roundUp4 hsize] at hr
  have hsdata := grant_sdata (k := ⟨id,hid⟩) h.1 (hroom.trans a.addressable)
  have hptr : (sysSleepdataRequest a m id size).2 = m.sdata.curAddr := by
    rw [hr,hsdata]
    exact Function.update_self ..
  have hbehind : a.start + HEADER ≤ m.sdata.curAddr := h.1
  have hheader : HEADER = 36 := rfl
  have hne : m.sdata.curAddr ≠ NULL := by
    rw [NULL]
    omega
  have hfree := h.freesize
  constructor
  · rw [hptr,hfree]
    exact iff_of_true hne (by omega)
  · intro _
    have hcur : (m.grant a ⟨id,hid⟩ (roundUp4 size)).sdata.curAddr = m.sdata.curAddr + roundUp4 size := by
      rw [hsdata]
    have hfree' := (h.grant (k := ⟨id,hid⟩) hroom).freesize
    rw [hcur] at hfree'
    rw [hr]
    show sysSleepdataFreesize a (m.grant a ⟨id,hid⟩ (roundUp4 size)) + _ = _
    omega

/-- The sum wraps: the pointer is kept exactly if os_memset does not reach the header. -/
theorem wrapped_pointer (h : Bounded a m) (k : Id)
    (hwraps : 2 ^ 32 ≤ m.sdata.curAddr + roundUp4 size) :
    (m.grant a k (roundUp4 size)).sdata.regions k ≠ NULL ↔ GoesRound a m size := by
  have hregion : (m.grant a k (roundUp4 size)).sdata.regions k =
      a.kept m.sdata.curAddr (roundUp4 size) 4 m.sdata.curAddr := Function.update_self ..
  have hbehind : a.start + HEADER ≤ m.sdata.curAddr := h.1
  have hheader : HEADER = 36 := rfl
  have htop := h.2
  have haddressable := a.addressable
  have hdistance : (a.start + 4 + 2 ^ 32 - m.sdata.curAddr) % 2 ^ 32 =
      2 ^ 32 + (a.start + 4) - m.sdata.curAddr := by omega
  rw [hregion,Arena.kept,hdistance,NULL,GoesRound]
  split_ifs with hcovered
  · exact iff_of_false (fun hne => hne rfl) (by omega)
  · exact iff_of_true (by omega) (by omega)

/-- The next region begins where it should. -/
theorem Bounded.request_exact (h : Bounded a m) (hid : id < SYSTEM_SLEEPDATA_ID_MAX)
    (hregion : m.sdata.regions ⟨id,hid⟩ = 0) (hsize : size ≤ 2 ^ 31) :
    Exact a m id size ↔ roundUp4 size ≠ sysSleepdataFreesize a m ∧ ¬ GoesRound a m size := by
  have halign := align4_roundUp4 hsize
  have hfree := h.freesize
  have htop := h.2
  have haddressable := a.addressable
  rcases request_cases a m size hid with ⟨hne,-⟩ | ⟨-,hfull,hr⟩ | ⟨-,hroom,hr⟩
  · exact absurd hregion hne
  · rw [halign] at hfull
    have hptr : (sysSleepdataRequest a m id size).2 = NULL := by rw [hr]
    have hbelow : a.start + HEADER ≤ a.stop := a.room
    have hheader : HEADER = 36 := rfl
    rw [Exact.refused hptr,GoesRound]
    omega
  · rw [halign] at hroom
    by_cases hwraps : 2 ^ 32 ≤ m.sdata.curAddr + roundUp4 size
    · have hlarge : sysSleepdataFreesize a m < roundUp4 size := by omega
      have hpointer := wrapped_pointer h ⟨id,hid⟩ hwraps
      rw [halign] at hr
      have hround : Exact a m id size ↔ ¬ GoesRound a m size := by
        constructor
        · intro hexact hgoes
          have hnonnull : (sysSleepdataRequest a m id size).2 ≠ NULL := by
            rw [hr]
            exact hpointer.mpr hgoes
          exact absurd (hexact.granted_iff.mp hnonnull) (not_le.mpr hlarge)
        · intro hgoes
          have hnull : (sysSleepdataRequest a m id size).2 = NULL := by
            rw [hr]
            exact not_not.mp (mt hpointer.mp hgoes)
          exact (Exact.refused hnull).mpr hlarge
      exact hround.trans (and_iff_right hlarge.ne').symm
    · have hsmall : m.sdata.curAddr + roundUp4 size < a.stop := by omega
      refine iff_of_true (Exact.granted h hid hsize hsmall hr) ⟨by omega,fun hgoes => hwraps hgoes.1⟩

/-- In every run in which no region was granted by a sum that wraps, the free size is exact
but where it is asked for as a whole and where the sum would go round. -/
theorem exact_iff (hm : ¬ m.Valid) {ls : List Label}
    (h : Runs (guarded (fun s l => ¬ Wraps a s l) (step a)) (booted a m) ls s)
    (hid : id < SYSTEM_SLEEPDATA_ID_MAX) (hregion : sysSleepdataGet s.mem id = NULL) (hsize : size ≤ 2 ^ 31) :
    Exact a s.mem id size ↔ roundUp4 size ≠ sysSleepdataFreesize a s.mem ∧ ¬ GoesRound a s.mem size := by
  rw [sysSleepdataGet,dif_pos hid] at hregion
  exact (bounded_run hm h).request_exact hid hregion hsize

end Exactness

theorem exact_iff_served : ∃ s, Runs (guarded (fun s l => ¬ Wraps arena s l) (step arena)) (booted arena garbage)
    [.request 5 10,.reset,.init] s ∧ sysSleepdataFreesize arena s.mem = 220 ∧ Exact arena s.mem 3 216 := by
  refine Runs.exists_of_exec (fun s => (sysSleepdataFreesize arena s.mem,sysSleepdataGet s.mem 3,s.mem.sdata.curAddr))
    (v := (220,NULL,0x20000024)) (by decide +kernel) ?_
  intro s hrun hget
  obtain ⟨hfree,hget⟩ := Prod.mk.inj hget
  obtain ⟨hregion,hcur⟩ := Prod.mk.inj hget
  have hround : ¬ GoesRound arena s.mem 216 := by
    rw [GoesRound,hcur]
    decide
  have hpart : roundUp4 216 ≠ sysSleepdataFreesize arena s.mem := by
    rw [hfree]
    decide
  exact ⟨hfree,(exact_iff (by decide) hrun (by decide) hregion (by decide)).mpr ⟨hpart,hround⟩⟩

/-- All that is free, asked for right after the first init. -/
theorem exact_fails : Runs (step arena) (booted arena garbage) [] (booted arena garbage) ∧
    sysSleepdataGet (booted arena garbage).mem 0 = NULL ∧
    roundUp4 220 = sysSleepdataFreesize arena (booted arena garbage).mem ∧
    (sysSleepdataRequest arena (booted arena garbage).mem 0 220).2 = NULL ∧
    ¬ Exact arena (booted arena garbage).mem 0 220 := by
  have hnull : (sysSleepdataRequest arena (booted arena garbage).mem 0 220).2 = NULL := by decide +kernel
  have hwhole : roundUp4 220 = sysSleepdataFreesize arena (booted arena garbage).mem := by decide +kernel
  refine ⟨Runs.refl _,by decide +kernel,hwhole,hnull,?_⟩
  intro h
  exact h.granted_iff.mpr hwhole.le hnull

end FmacSdk.SleepData
