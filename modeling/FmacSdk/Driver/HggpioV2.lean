import FmacSdk.Common.Errno
import FmacSdk.Foundation.BitFields
import FmacSdk.Foundation.Transition
import Mathlib.Logic.Function.Basic

/-! # Pulls of the GPIO pins

Each pin has a nibble in one of four pull-up registers, one in one of four pull-down
registers, and a bit in the open-drain register.
-/
namespace FmacSdk.HggpioV2
open BitFields Transition

inductive GpioPinMode
  | pullNone
  | pullUp
  | pullDown
  | opendrainPullNone
  | opendrainPullUp
  | opendrainDropNone
  | opendrainDropDown
  deriving DecidableEq, Repr

/-- PU0EN..PU3EN, PD0EN..PD3EN and OD -/
structure Hw where
  puEn : Fin 4 → BitVec 32
  pdEn : Fin 4 → BitVec 32
  od : BitVec 32

def clearNibble (r : BitVec 32) (i : ℕ) : BitVec 32 := r &&& ~~~ (0xf#32 <<< (i * 4))

def setNibble (r : BitVec 32) (i : ℕ) (level : BitVec 4) : BitVec 32 :=
  r &&& ~~~ (0xf#32 <<< (i * 4)) ||| level.setWidth 32 <<< (i * 4)

/-- The banks of eight pins are the cases of a switch over pin / 8. -/
def setPull (reg : Hw) (pin : ℕ) (pullMode : GpioPinMode) (level : BitVec 4) : Hw × ℤ :=
  if hpin : pin < 32 then
    let bank : Fin 4 := ⟨pin / 8,by omega⟩
    let i := pin - 8 * (pin / 8)
    match pullMode with
    | .pullNone | .opendrainPullNone =>
      ({reg with pdEn := Function.update reg.pdEn bank (clearNibble (reg.pdEn bank) i),
                 puEn := Function.update reg.puEn bank (clearNibble (reg.puEn bank) i)},RET_OK)
    | .pullUp | .opendrainPullUp =>
      ({reg with puEn := Function.update reg.puEn bank (setNibble (reg.puEn bank) i level)},RET_OK)
    | .pullDown | .opendrainDropDown =>
      ({reg with pdEn := Function.update reg.pdEn bank (setNibble (reg.pdEn bank) i level)},RET_OK)
    | .opendrainDropNone => (reg,-EINVAL)
  else (reg,-EINVAL)

def setMode (reg : Hw) (pin : ℕ) (mode : GpioPinMode) (level : BitVec 4) : Hw × ℤ :=
  if 32 ≤ pin then (reg,-EINVAL)
  else match mode with
    | .pullNone | .pullUp | .pullDown => setPull {reg with od := reg.od &&& ~~~ (1#32 <<< pin)} pin mode level
    | .opendrainPullNone | .opendrainPullUp | .opendrainDropDown =>
      setPull {reg with od := reg.od ||| 1#32 <<< pin} pin mode level
    | .opendrainDropNone => (reg,-EINVAL)

/-- hggpio_v2_mode of a port whose pins are numbered from `lo` to `hi` -/
def hggpioV2Mode (lo hi : ℕ) (reg : Hw) (pin : ℕ) (mode : GpioPinMode) (level : BitVec 4) : Hw × ℤ :=
  if pin < lo ∨ hi < pin then (reg,-EINVAL) else setMode reg (pin - lo) mode level

/-! ## The port as pins -/

/-- What a port is for: pins, each with its pulls. -/
structure Pin where
  up : BitVec 4
  down : BitVec 4
  openDrain : Bool
  deriving DecidableEq

def GpioPinMode.isUp (m : GpioPinMode) : Bool := m == .pullUp || m == .opendrainPullUp

def GpioPinMode.isDown (m : GpioPinMode) : Bool := m == .pullDown || m == .opendrainDropDown

def GpioPinMode.isOpenDrain (m : GpioPinMode) : Bool :=
  m == .opendrainPullNone || m == .opendrainPullUp || m == .opendrainDropDown

/-- A pin as a mode selects it. -/
def select (m : GpioPinMode) (level : BitVec 4) : Pin :=
  ⟨if m.isUp then level else 0,if m.isDown then level else 0,m.isOpenDrain⟩

/-- The nibble of a pin in four registers. -/
def nibble (regs : Fin 4 → BitVec 32) (i : Fin 32) : BitVec 4 := field 4 (regs ⟨i / 8,by omega⟩) (i % 8)

/-- The pin as the registers hold it. -/
def Hw.pin (reg : Hw) (i : Fin 32) : Pin := ⟨nibble reg.puEn i,nibble reg.pdEn i,reg.od.getLsbD i⟩

structure Call where
  pin : ℕ
  mode : GpioPinMode
  level : BitVec 4

/-- The pin a call is for, if the call is not rejected. -/
def target (lo hi : ℕ) (c : Call) : Option (Fin 32) :=
  if h : (lo ≤ c.pin ∧ c.pin ≤ hi) ∧ c.pin - lo < 32 ∧ c.mode ≠ .opendrainDropNone then some ⟨c.pin - lo,h.2.1⟩
  else none

section Registers
variable {regs : Fin 4 → BitVec 32} {i j : Fin 32}

def putNibble (regs : Fin 4 → BitVec 32) (i : Fin 32) (v : BitVec 4) : Fin 4 → BitVec 32 :=
  Function.update regs ⟨i / 8,by omega⟩ (put (regs ⟨i / 8,by omega⟩) (i % 8) v)

theorem nibble_putNibble (regs : Fin 4 → BitVec 32) (i : Fin 32) (v : BitVec 4) :
    nibble (putNibble regs i v) i = v :=
  rowField_rowPut regs (by omega) v (by omega)

theorem nibble_putNibble_of_ne (regs : Fin 4 → BitVec 32) (v : BitVec 4) (hj : j ≠ i) :
    nibble (putNibble regs i v) j = nibble regs j :=
  rowField_rowPut_of_ne regs (by omega) (by omega) v (fun h => hj (Fin.ext h)) (by omega)

theorem clearNibble_eq (r : BitVec 32) (k : ℕ) : clearNibble r k = put r k (0 : BitVec 4) := by
  rw [clearNibble,put_zero,mask,Nat.mul_comm]
  rfl

theorem setNibble_eq (r : BitVec 32) (k : ℕ) (level : BitVec 4) : setNibble r k level = put r k level := by
  rw [setNibble,put,mask,Nat.mul_comm]
  rfl

theorem bit_getLsbD (i j : Fin 32) : (1#32 <<< (i : ℕ)).getLsbD j = decide (j = i) := by
  rw [← BitVec.twoPow_eq,BitVec.getLsbD_twoPow,decide_eq_true i.isLt,Bool.true_and]
  exact decide_eq_decide.mpr (eq_comm.trans Fin.ext_iff.symm)

/-- The open-drain bits when that of one pin is set or cleared. -/
theorem od_getLsbD (od : BitVec 32) (i j : Fin 32) (b : Bool) :
    (if b then od ||| 1#32 <<< (i : ℕ) else od &&& ~~~ (1#32 <<< (i : ℕ))).getLsbD j =
      if j = i then b else od.getLsbD j := by
  cases b with
  | true =>
    rw [if_pos rfl,BitVec.getLsbD_or,bit_getLsbD]
    split_ifs with h <;> simp [h]
  | false =>
    rw [if_neg Bool.false_ne_true,BitVec.getLsbD_and,BitVec.getLsbD_not,bit_getLsbD]
    split_ifs with h <;> simp [h]

end Registers

section Calls
variable {reg : Hw} {mode : GpioPinMode} {level : BitVec 4}

theorem setPull_eq (reg : Hw) (i : Fin 32) (pullMode : GpioPinMode) (level : BitVec 4) :
    setPull reg i pullMode level = match pullMode with
      | .pullNone | .opendrainPullNone =>
        ({reg with pdEn := putNibble reg.pdEn i 0,puEn := putNibble reg.puEn i 0},RET_OK)
      | .pullUp | .opendrainPullUp => ({reg with puEn := putNibble reg.puEn i level},RET_OK)
      | .pullDown | .opendrainDropDown => ({reg with pdEn := putNibble reg.pdEn i level},RET_OK)
      | .opendrainDropNone => (reg,-EINVAL) := by
  have hplace : (i : ℕ) - 8 * (i / 8) = i % 8 := by omega
  rw [setPull,dif_pos i.isLt]
  simp only [hplace,clearNibble_eq,setNibble_eq]
  cases pullMode <;> rfl

theorem setMode_eq (reg : Hw) (i : Fin 32) (hmode : mode ≠ .opendrainDropNone) (level : BitVec 4) :
    setMode reg i mode level = setPull {reg with od :=
      if mode.isOpenDrain then reg.od ||| 1#32 <<< (i : ℕ) else reg.od &&& ~~~ (1#32 <<< (i : ℕ))} i mode level := by
  have hrange : ¬ 32 ≤ (i : ℕ) := by omega
  cases mode with
  | opendrainDropNone => exact absurd rfl hmode
  | _ => exact if_neg hrange

theorem setPull_pin (reg : Hw) (i : Fin 32) (hmode : mode ≠ .opendrainDropNone) (level : BitVec 4) :
    (setPull reg i mode level).1.pin i =
      ⟨if mode.isUp then level else if mode.isDown then (reg.pin i).up else 0,
        if mode.isDown then level else if mode.isUp then (reg.pin i).down else 0,(reg.pin i).openDrain⟩ := by
  rw [setPull_eq]
  cases mode with
  | opendrainDropNone => exact absurd rfl hmode
  | _ => simp [Hw.pin,nibble_putNibble,GpioPinMode.isUp,GpioPinMode.isDown]

theorem setPull_pin_of_ne (reg : Hw) (mode : GpioPinMode) {i j : Fin 32} (hj : j ≠ i) (level : BitVec 4) :
    (setPull reg i mode level).1.pin j = reg.pin j := by
  rw [setPull_eq]
  cases mode <;> simp [Hw.pin,nibble_putNibble_of_ne _ _ hj]

/-- What a call leaves on its pin: a pull-up keeps the pull-down, and the reverse. -/
theorem setMode_pin (reg : Hw) (i : Fin 32) (hmode : mode ≠ .opendrainDropNone) (level : BitVec 4) :
    (setMode reg i mode level).1.pin i =
      ⟨if mode.isUp then level else if mode.isDown then (reg.pin i).up else 0,
        if mode.isDown then level else if mode.isUp then (reg.pin i).down else 0,mode.isOpenDrain⟩ := by
  rw [setMode_eq reg i hmode level,setPull_pin _ i hmode level]
  simp only [Hw.pin,od_getLsbD,if_pos]

theorem setMode_pin_of_ne (reg : Hw) (hmode : mode ≠ .opendrainDropNone) {i j : Fin 32} (hj : j ≠ i)
    (level : BitVec 4) : (setMode reg i mode level).1.pin j = reg.pin j := by
  rw [setMode_eq reg i hmode level,setPull_pin_of_ne _ mode hj level]
  simp only [Hw.pin,od_getLsbD,if_neg hj]

end Calls

/-! ## Runs of calls -/

/-- The registers, and the pins as the calls selected them. -/
structure System where
  reg : Hw
  port : Fin 32 → Pin

def selectTarget (lo hi : ℕ) (port : Fin 32 → Pin) (c : Call) : Fin 32 → Pin :=
  match target lo hi c with
  | some i => Function.update port i (select c.mode c.level)
  | none => port

def step (lo hi : ℕ) (s : System) (c : Call) : Option System :=
  some ⟨(hggpioV2Mode lo hi s.reg c.pin c.mode c.level).1,selectTarget lo hi s.port c⟩

/-- Each pin is as its last call selected it, or as it was before the first. -/
def Agrees (s : System) : Prop := ∀ i, s.reg.pin i = s.port i

/-- The pull that the call does not select is off on its pin. -/
def Released (lo hi : ℕ) (s : System) (c : Call) : Prop :=
  ∀ i ∈ target lo hi c, (c.mode.isUp = true → (s.reg.pin i).down = 0) ∧ (c.mode.isDown = true → (s.reg.pin i).up = 0)

instance (lo hi : ℕ) (s : System) (c : Call) : Decidable (Released lo hi s c) :=
  match h : target lo hi c with
  | none => isTrue (by simp [Released,h])
  | some i => decidable_of_iff ((c.mode.isUp = true → (s.reg.pin i).down = 0) ∧
      (c.mode.isDown = true → (s.reg.pin i).up = 0)) (by simp [Released,h])

section Runs
variable {lo hi : ℕ} {reg : Hw} {s t : System} {c : Call} {i : Fin 32}

theorem mode_of_target (reg : Hw) (h : target lo hi c = some i) :
    hggpioV2Mode lo hi reg c.pin c.mode c.level = setMode reg i c.mode c.level ∧ c.mode ≠ .opendrainDropNone := by
  unfold target at h
  split_ifs at h with haccept
  obtain rfl := Option.some.inj h
  exact ⟨if_neg (by omega),haccept.2.2⟩

/-- A rejected call leaves the registers as they are. -/
theorem mode_rejected (h : target lo hi c = none) :
    hggpioV2Mode lo hi reg c.pin c.mode c.level = (reg,-EINVAL) := by
  unfold target at h
  split_ifs at h with haccept
  unfold hggpioV2Mode setMode
  split_ifs with hrange hpin
  · rfl
  · rfl
  · have hmode : c.mode = .opendrainDropNone := by
      by_contra hmode
      exact haccept ⟨by omega,by omega,hmode⟩
    rw [hmode]

/-- One call keeps the pins right exactly if the other pull was off. -/
theorem step_agrees_iff (hs : Agrees s) (hstep : step lo hi s c = some t) : Agrees t ↔ Released lo hi s c := by
  obtain rfl := Option.some.inj hstep
  cases htarget : target lo hi c with
  | none =>
    refine iff_of_true ?_ (by simp [Released,htarget])
    simpa [Agrees,selectTarget,mode_rejected htarget,htarget] using hs
  | some i =>
    obtain ⟨hcall,hmode⟩ := mode_of_target s.reg htarget
    have hother : ∀ j ≠ i, (setMode s.reg i c.mode c.level).1.pin j =
        Function.update s.port i (select c.mode c.level) j := by
      intro j hj
      rw [setMode_pin_of_ne s.reg hmode hj,Function.update_of_ne hj]
      exact hs j
    have hpin : Agrees ⟨(hggpioV2Mode lo hi s.reg c.pin c.mode c.level).1,selectTarget lo hi s.port c⟩ ↔
        (setMode s.reg i c.mode c.level).1.pin i = select c.mode c.level := by
      simp only [Agrees,selectTarget,htarget,hcall]
      constructor
      · intro h
        rw [h i,Function.update_self]
      · intro h j
        by_cases hj : j = i
        · rw [hj,h,Function.update_self]
        · exact hother j hj
    rw [hpin,setMode_pin s.reg i hmode c.level]
    simp only [Released,htarget,select,Option.mem_def,Option.some.injEq,forall_eq']
    cases c.mode <;> simp [GpioPinMode.isUp,GpioPinMode.isDown]

/-- In every run, the pins are as their last calls selected them after each call exactly if
each call found the pull that it does not select off. -/
theorem pulls_iff (lo hi : ℕ) (reg : Hw) {cs : List Call} {t : System}
    (h : Runs (step lo hi) ⟨reg,reg.pin⟩ cs t) :
    (∀ ds u, ds <+: cs → Runs (step lo hi) ⟨reg,reg.pin⟩ ds u → Agrees u) ↔
      Runs (guarded (Released lo hi) (step lo hi)) ⟨reg,reg.pin⟩ cs t := by
  refine Runs.guarded_iff (I := Agrees) (fun s hs => hs) ?_ ?_ (fun i => rfl) h
  · intro s c u hs hreleased hstep
    exact (step_agrees_iff hs hstep).mpr hreleased
  · intro s c u hs hstep hu
    exact (step_agrees_iff hs hstep).mp hu

def idle : Hw := ⟨fun _ => 0,fun _ => 0,0⟩

theorem pulls_iff_cleared :
    ∃ t, Runs (step 32 50) ⟨idle,idle.pin⟩ [⟨40,.pullDown,2⟩,⟨40,.pullNone,0⟩,⟨40,.opendrainPullUp,3⟩] t ∧
      ((∀ ds u, ds <+: [⟨40,.pullDown,2⟩,⟨40,.pullNone,0⟩,⟨40,.opendrainPullUp,3⟩] →
        Runs (step 32 50) ⟨idle,idle.pin⟩ ds u → Agrees u) ↔
        Runs (guarded (Released 32 50) (step 32 50)) ⟨idle,idle.pin⟩
          [⟨40,.pullDown,2⟩,⟨40,.pullNone,0⟩,⟨40,.opendrainPullUp,3⟩] t) := by
  have hrun : ∃ t, Runs (step 32 50) ⟨idle,idle.pin⟩ [⟨40,.pullDown,2⟩,⟨40,.pullNone,0⟩,⟨40,.opendrainPullUp,3⟩] t :=
    ⟨_,Runs.of_exec rfl⟩
  obtain ⟨t,ht⟩ := hrun
  exact ⟨t,ht,pulls_iff 32 50 idle ht⟩

/-- A pull-up behind a pull-down: both pulls are on. -/
theorem pulls_fail :
    (exec (step 0 31) ⟨idle,idle.pin⟩ [⟨5,.pullDown,2⟩,⟨5,.pullUp,2⟩]).map (fun s => (s.reg.pin 5,s.port 5)) =
        some (⟨2,2,false⟩,⟨2,0,false⟩) ∧
      ¬ ∀ ds u, ds <+: [⟨5,.pullDown,2⟩,⟨5,.pullUp,2⟩] → Runs (step 0 31) ⟨idle,idle.pin⟩ ds u → Agrees u := by
  refine ⟨by decide,fun hall => ?_⟩
  have hpin := hall _ _ (List.prefix_refl _) (Runs.of_exec rfl) 5
  exact absurd hpin (by decide)

end Runs

end FmacSdk.HggpioV2
