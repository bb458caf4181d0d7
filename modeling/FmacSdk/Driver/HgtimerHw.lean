import FmacSdk.Foundation.FlagReg

/-! # The timer hardware

The registers of one timer. The counter runs while a mode is selected and raises
the pending flag at the end of its period.
-/
namespace FmacSdk.Hgtimer
open StatusReg

abbrev TmrCon := FlagReg 32 15

def HGTIMER_V2_CON_TIMER_PNG : BitVec 32 := 1 <<< 15
def HGTIMER_V2_CON_TMR_INTR_EN : BitVec 32 := 1 <<< 13
def HGTIMER_V2_CON_PSC (n : BitVec 3) : BitVec 32 := n.setWidth 32 <<< 8
def HGTIMER_V2_CON_PSC_MASK : BitVec 32 := 7 <<< 8
def HGTIMER_V2_CON_MODE (n : BitVec 2) : BitVec 32 := n.setWidth 32 <<< 4
def HGTIMER_V2_CON_MODE_DIS_MASK : BitVec 32 := 3 <<< 4
def HGTIMER_V2_CON_INC_SRC (n : BitVec 3) : BitVec 32 := n.setWidth 32
def HGTIMER_V2_CON_INC_SRC_MASK : BitVec 32 := 7
def HGTIMER_V2_MODE_SEL_COUNTER : BitVec 2 := 1
def HGTIMER_V2_SOURCE_SYS_RISING : BitVec 3 := 4

theorem png_eq_mask : HGTIMER_V2_CON_TIMER_PNG = mask 32 15 := by decide

structure Hw where
  con : TmrCon
  cnt : BitVec 16
  pr : BitVec 16

abbrev Hw.Counting (h : Hw) : Prop := h.con.ctl &&& HGTIMER_V2_CON_MODE_DIS_MASK ≠ 0

/-- One count; the period ends after the count that meets TMR_PR. -/
def Hw.count (h : Hw) : Hw :=
  if h.cnt = h.pr then { h with cnt := 0, con := h.con.raise } else { h with cnt := h.cnt + 1 }

theorem Hw.count_of_eq {h : Hw} (he : h.cnt = h.pr) :
    h.count = { h with cnt := 0, con := h.con.raise } := if_pos he

theorem Hw.count_of_ne {h : Hw} (hn : h.cnt ≠ h.pr) : h.count = { h with cnt := h.cnt + 1 } :=
  if_neg hn

end FmacSdk.Hgtimer
