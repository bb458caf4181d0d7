import FmacSdk.Common.Errno
import Mathlib.Data.Int.Order.Basic

/-! # The CRC engine

The configurations of hg_crc_calc, the registers they are written to, and the
sections of hg_crc_hold that run under dev->lock.
-/
namespace FmacSdk.HgCrc

def HGCRC_FLAGS_SUSPEND : BitVec 32 := 1
def HGCRC_FLAGS_HOLD : BitVec 32 := 2
def CRC_TYPE_TCPIP_CHKSUM : ℕ := 8
def CRC_TYPE_MAX : ℕ := 9
def LL_CRC_CFG_INT_EN : BitVec 32 := 1
def LL_CRC_CFG_BIT_ORDER_LEFT : BitVec 32 := 2
def LL_CRC_CFG_BIT_ORDER_RIGHT : BitVec 32 := 0
def LL_CRC_CFG_POLY_BITS (n : BitVec 32) : BitVec 32 := (n &&& 0x3F) <<< 8
def LL_CRC_CFG_DMAWAIT_CLOCK (n : BitVec 32) : BitVec 32 := (n &&& 0x7) <<< 16
def LL_CRC_CFG_TCP_MODE_EN : BitVec 32 := 1 <<< 24

structure HgcrcConfig where
  poly : BitVec 32
  polyBits : BitVec 32
  initVal : BitVec 32
  xorOut : BitVec 32
  refIn : Bool
  refOut : Bool
deriving DecidableEq

def tcpipChksum : HgcrcConfig := ⟨0x0,0,0x0,0x0,true,true⟩
def crc5Usb : HgcrcConfig := ⟨0x14,5,0x1f,0x1f,true,true⟩
def crc7Mmc : HgcrcConfig := ⟨0x48,7,0x0,0x0,false,false⟩
def crc8Maxim : HgcrcConfig := ⟨0x8C,8,0x0,0x0,true,true⟩
def crc8 : HgcrcConfig := ⟨0xE0,8,0x0,0x0,false,false⟩
def crc16 : HgcrcConfig := ⟨0xA001,16,0x0,0x0,true,true⟩
def crc16Ccitt : HgcrcConfig := ⟨0x8408,16,0x0,0x0,true,true⟩
def crc16Modbus : HgcrcConfig := ⟨0xA001,16,0xFFFF,0x0,true,true⟩
def crc32Winrar : HgcrcConfig := ⟨0xEDB88320,32,0xFFFFFFFF,0xFFFFFFFF,true,true⟩

/-- By CRC_DEV_TYPE. -/
def hgcrcCfg : List HgcrcConfig :=
  [crc5Usb,crc7Mmc,crc8Maxim,crc8,crc16,crc16Ccitt,crc16Modbus,crc32Winrar,tcpipChksum]

/-- struct crc_dev_req -/
structure CrcDevReq where
  type : ℕ
  cookie : BitVec 16
  data : BitVec 32
  len : BitVec 32
deriving DecidableEq

/-- The configuration of a request, or the error with which hg_crc_calc refuses it; TXW4002ACK803
is defined. -/
def CrcDevReq.config (req : CrcDevReq) : Except ℤ HgcrcConfig :=
  if req.data = 0 ∨ req.len = 0 ∨ CRC_TYPE_MAX ≤ req.type then .error RET_ERR
  else if req.type = CRC_TYPE_TCPIP_CHKSUM then .error RET_ERR
  else match hgcrcCfg[req.type]? with
    | some cfg => .ok cfg
    | none => .error (-ENOTSUPP)

/-- cfg_reg -/
def HgcrcConfig.cfgReg (cfg : HgcrcConfig) : BitVec 32 :=
  if cfg.polyBits = 0 then LL_CRC_CFG_INT_EN ||| LL_CRC_CFG_TCP_MODE_EN ||| LL_CRC_CFG_DMAWAIT_CLOCK 5
  else LL_CRC_CFG_INT_EN ||| LL_CRC_CFG_POLY_BITS cfg.polyBits ||| LL_CRC_CFG_DMAWAIT_CLOCK 5 |||
    if cfg.refIn then LL_CRC_CFG_BIT_ORDER_RIGHT else LL_CRC_CFG_BIT_ORDER_LEFT

/-- The registers of the engine that requests write and hg_crc_suspend saves. -/
structure Regs where
  crcCfg : BitVec 32
  crcInit : BitVec 32
  crcInv : BitVec 32
  crcPoly : BitVec 32
  dmaAddr : BitVec 32
deriving DecidableEq

def HgcrcConfig.regs (cfg : HgcrcConfig) (req : CrcDevReq) : Regs :=
  ⟨cfg.cfgReg,cfg.initVal,cfg.xorOut,cfg.poly,req.data⟩

/-- hg_crc_calc_continue with what it reads from CRC_OUT. -/
def Regs.continued (r : Regs) (out : BitVec 32) (req : CrcDevReq) : Regs :=
  { r with crcInit := out ^^^ r.crcInv, dmaAddr := req.data }

/-- The fields of struct hg_crc that dev->lock protects. -/
structure Dev where
  flags : BitVec 32
  cookie : BitVec 16
deriving DecidableEq

/-- hg_crc_hold locks the hold mutex. -/
def Dev.locks (d : Dev) (cookie : BitVec 16) : Bool := d.flags &&& HGCRC_FLAGS_HOLD = 0 ∨ cookie ≠ d.cookie

/-- With the mutex locked. -/
def Dev.held (d : Dev) (osJiffies : BitVec 64) : Dev :=
  ⟨d.flags ||| HGCRC_FLAGS_HOLD,(osJiffies &&& 0xffff).setWidth 16⟩

/-- hg_crc_hold with hold 0 unlocks the mutex. -/
def Dev.unlocks (d : Dev) (cookie : BitVec 16) : Bool := d.flags &&& HGCRC_FLAGS_HOLD ≠ 0 ∧ cookie = d.cookie

def Dev.unheld (d : Dev) : Dev := ⟨d.flags &&& ~~~HGCRC_FLAGS_HOLD,0⟩

/-- hg_crc_hold in a single task, with hold 1: whether os_mutex_lock got the mutex, and the jiffies. -/
def Dev.hold (d : Dev) (cookie : BitVec 16) (got : Bool) (osJiffies : BitVec 64) : ℤ × BitVec 16 × Dev :=
  if d.locks cookie then
    if got then (RET_OK,(d.held osJiffies).cookie,d.held osJiffies) else (-EBUSY,cookie,d)
  else (RET_OK,d.cookie,d)

/-- With hold 0. -/
def Dev.unhold (d : Dev) (cookie : BitVec 16) : ℤ × BitVec 16 × Dev :=
  if d.unlocks cookie then (RET_OK,0,d.unheld) else (RET_ERR,d.cookie,d)

/-- Every type below CRC_TYPE_MAX has a configuration. -/
theorem config_ne_notsupp (req : CrcDevReq) : req.config ≠ .error (-ENOTSUPP) := by
  have herr : RET_ERR ≠ -ENOTSUPP := by decide
  unfold CrcDevReq.config
  split_ifs with hreq htype
  · simpa using herr
  · simpa using herr
  · have hlt : req.type < hgcrcCfg.length := Nat.lt_of_not_le fun hle => hreq (Or.inr (Or.inr hle))
    simp [List.getElem?_eq_getElem hlt]

@[simp] theorem locks_false_iff {d : Dev} {cookie : BitVec 16} :
    d.locks cookie = false ↔ d.flags &&& HGCRC_FLAGS_HOLD ≠ 0 ∧ cookie = d.cookie := by
  simp [Dev.locks]

theorem held_unlocks (d : Dev) (osJiffies : BitVec 64) : (d.held osJiffies).unlocks (d.held osJiffies).cookie = true := by
  have hbit : (d.flags ||| HGCRC_FLAGS_HOLD) &&& HGCRC_FLAGS_HOLD ≠ 0 := by
    intro h
    have hone := congrArg (fun x : BitVec 32 => x.getLsbD 1) h
    simp [HGCRC_FLAGS_HOLD] at hone
  simpa [Dev.held,Dev.unlocks] using hbit

theorem unheld_flags (d : Dev) : d.unheld.flags &&& HGCRC_FLAGS_HOLD = 0 := by
  simp [Dev.unheld,BitVec.and_assoc,HGCRC_FLAGS_HOLD]

end FmacSdk.HgCrc
