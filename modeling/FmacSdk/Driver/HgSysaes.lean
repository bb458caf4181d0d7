import FmacSdk.Common.HwMemcpy
import FmacSdk.Foundation.BlockMemory
import FmacSdk.Foundation.CipherChaining
import Mathlib.Logic.Equiv.Defs

/-! # The AES engine

The engine encrypts or decrypts single blocks under the key in its registers. The
driver chains them in software: it copies the message to its destination and has
every block worked on there or in a buffer on its stack.
-/
namespace FmacSdk.HgSysaes
open M2mDma BlockMemory
open ByteMemory (copyRun)

abbrev AES_BLOCK_SIZE : ℕ := 16
abbrev Block := Fin AES_BLOCK_SIZE → BitVec 8

/-- The 32 bytes of the key registers. -/
abbrev Key := Fin 32 → BitVec 8

def AES_KEY_LEN_BIT_256 : BitVec 8 := 2
def AES_MODE_ECB : BitVec 8 := 0
def AES_MODE_CBC : BitVec 8 := 1

def BLOCK_NUM_NUM_MSK : BitVec 32 := 0x000fffff
def AES_CTRL_START_MSK : BitVec 32 := 0x00000001
def AES_CTRL_EOD_MSK : BitVec 32 := 0x00000002
def AES_CTRL_EOD_SHIFT : ℕ := 1
def AES_CTRL_MOD_MSK : BitVec 32 := 0x00000004
def AES_CTRL_IRQ_EN_MSK : BitVec 32 := 0x00000008

inductive HgSysaesMode
  | encrypt | decrypt
deriving DecidableEq, Repr

structure SysaesPara where
  mode : BitVec 8
  keyLen : BitVec 8
  src : BitVec 32
  dest : BitVec 32
  blockNum : BitVec 32
  key : BitVec 32
  iv : BitVec 32

structure HgSysaesHw where
  key : Key
  saddr : BitVec 32
  daddr : BitVec 32
  blockNum : BitVec 32
  aesCtrl : BitVec 32

/-- What comes of a request: no lock in time, no completion in time with the memory as
the engine has left it by then, or the completion. -/
inductive Answer
  | lockTimeout
  | doneTimeout (mem : Memory)
  | complete

/-- With the number of requests so far. -/
structure State where
  mem : Memory
  para : SysaesPara
  hw : HgSysaesHw
  requests : ℕ

/-! ## The engine -/

/-- The cipher that the engine implements, and its inverse. -/
def HgSysaesMode.apply (f : Equiv.Perm Block) : HgSysaesMode → Block → Block
  | .encrypt => f
  | .decrypt => f.symm

/-- The register writes of hg_sysaes_hdl up to the start. -/
def HgSysaesHw.program (hw : HgSysaesHw) (para : SysaesPara) (flags : HgSysaesMode) : HgSysaesHw :=
  let aesCtrl := match flags with
    | .encrypt => hw.aesCtrl &&& ~~~AES_CTRL_EOD_MSK
    | .decrypt => hw.aesCtrl ||| AES_CTRL_EOD_MSK
  let aesCtrl := aesCtrl ||| AES_CTRL_IRQ_EN_MSK
  { hw with
    saddr := para.src
    daddr := para.dest
    blockNum := para.blockNum
    aesCtrl := (aesCtrl &&& ~~~AES_CTRL_MOD_MSK) ||| AES_CTRL_START_MSK }

def HgSysaesHw.mode (hw : HgSysaesHw) : HgSysaesMode :=
  if hw.aesCtrl.getLsbD AES_CTRL_EOD_SHIFT then .decrypt else .encrypt

def HgSysaesHw.run (cipher : Key → Equiv.Perm Block) (hw : HgSysaesHw) (m : Memory) : Memory :=
  mapBlocks (hw.mode.apply (cipher hw.key)) m hw.saddr hw.daddr (hw.blockNum &&& BLOCK_NUM_NUM_MSK).toNat

theorem program_mode (hw : HgSysaesHw) (para : SysaesPara) (flags : HgSysaesMode) :
    (hw.program para flags).mode = flags := by
  cases flags <;> simp [HgSysaesHw.mode,HgSysaesHw.program,AES_CTRL_EOD_SHIFT,AES_CTRL_EOD_MSK,
    AES_CTRL_IRQ_EN_MSK,AES_CTRL_MOD_MSK,AES_CTRL_START_MSK]

section Code
variable (cipher : Key → Equiv.Perm Block) (m2mdma : Option Dma) (answer : ℕ → Answer)

/-- hw_memcpy -/
def State.copy (s : State) (dest src n : BitVec 32) : State := { s with mem := hwMemcpy m2mdma s.mem dest src n }

def hgSysaesHdl (s : State) (flags : HgSysaesMode) : State × ℤ :=
  if s.para.keyLen ≠ AES_KEY_LEN_BIT_256 then (s,RET_ERR)
  else
    let t := { s with requests := s.requests + 1 }
    let hw := s.hw.program s.para flags
    match answer s.requests with
    | .lockTimeout => (t,RET_ERR)
    | .doneTimeout mem => ({ t with hw := hw, mem := mem },RET_ERR)
    | .complete => ({ t with hw := hw, mem := hw.run cipher s.mem },RET_OK)

end Code

/-- In ECB the engine has the whole message, as far as its counter goes. -/
theorem hgSysaesHdl_blocks {cipher : Key → Equiv.Perm Block} {answer : ℕ → Answer} {s : State}
    (hlen : s.para.keyLen = AES_KEY_LEN_BIT_256) (hanswer : answer s.requests = .complete)
    (hnum : s.para.blockNum ≤ BLOCK_NUM_NUM_MSK) (flags : HgSysaesMode) :
    let size := AES_BLOCK_SIZE * s.para.blockNum.toNat
    (s.para.src = s.para.dest ∨ Clear s.para.src size s.para.dest size) →
    let r := hgSysaesHdl cipher answer s flags
    r.2 = RET_OK ∧
      blocks AES_BLOCK_SIZE r.1.mem s.para.dest s.para.blockNum.toNat =
        (blocks AES_BLOCK_SIZE s.mem s.para.src s.para.blockNum.toNat).map (flags.apply (cipher s.hw.key)) ∧
      ∀ x, Off x s.para.dest size → r.1.mem x = s.mem x := by
  intro size hapart r
  have hbound : s.para.blockNum.toNat < 2 ^ 20 := Nat.lt_succ_of_le hnum
  have hcount : (s.para.blockNum &&& BLOCK_NUM_NUM_MSK).toNat = s.para.blockNum.toNat := by
    rw [BitVec.toNat_and]
    exact (Nat.and_two_pow_sub_one_eq_mod _ 20).trans (Nat.mod_eq_of_lt hbound)
  have hmem : (s.hw.program s.para flags).run cipher s.mem =
      mapBlocks (flags.apply (cipher s.hw.key)) s.mem s.para.src s.para.dest s.para.blockNum.toNat := by
    rw [← hcount]
    unfold HgSysaesHw.run
    rw [program_mode]
    rfl
  have hr : r = (⟨mapBlocks (flags.apply (cipher s.hw.key)) s.mem s.para.src s.para.dest s.para.blockNum.toNat,
      s.para,s.hw.program s.para flags,s.requests + 1⟩,RET_OK) := by
    show hgSysaesHdl cipher answer s flags = _
    unfold hgSysaesHdl
    rw [if_neg (not_not_intro hlen),hanswer,← hmem]
  have hsize : AES_BLOCK_SIZE * s.para.blockNum.toNat ≤ 2 ^ 32 := by
    show 16 * s.para.blockNum.toNat ≤ 2 ^ 32
    omega
  rw [hr]
  exact ⟨rfl,blocks_mapBlocks hsize hapart,fun x hx => mapBlocks_outside hx⟩

end FmacSdk.HgSysaes
