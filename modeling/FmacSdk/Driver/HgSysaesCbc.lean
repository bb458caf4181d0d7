import FmacSdk.Driver.HgSysaes

/-! # CBC in software

Where every request of the engine succeeds, the two loops chain the blocks as CBC
does, and the second undoes the first.
-/
namespace FmacSdk.HgSysaes
open M2mDma BlockMemory
open ByteMemory (copyRun copyRun_outside)
variable {cipher : Key → Equiv.Perm Block} (m2mdma : Option Dma) {answer : ℕ → Answer}
variable {s t : State} {cbc tmp pos x dest src n : BitVec 32} {f : Equiv.Perm Block} {k : ℕ}

def mix (c b : Block) : Block := fun i => c i ^^^ b i

/-- None of the `n` bytes is at NULL. -/
def NonNull (a : BitVec 32) (n : ℕ) : Prop := Off 0 a n

instance (a : BitVec 32) (n : ℕ) : Decidable (NonNull a n) := inferInstanceAs (Decidable (Off 0 a n))

theorem NonNull.ne {a : BitVec 32} {n : ℕ} (h : NonNull a n) (hn : 0 < n) : a ≠ 0 := by
  intro hzero
  apply h 0 hn
  rw [hzero]
  rfl

/-! ## The statements of the loops -/

/-- The requests are for one block, with the cipher `f` in the engine. -/
structure Loaded (cipher : Key → Equiv.Perm Block) (f : Equiv.Perm Block) (s : State) : Prop where
  keyLen : s.para.keyLen = AES_KEY_LEN_BIT_256
  blockNum : s.para.blockNum = 1
  key : cipher s.hw.key = f

/-- For the block at `p`, in place. -/
structure Ready (cipher : Key → Equiv.Perm Block) (f : Equiv.Perm Block) (p : BitVec 32) (s : State) : Prop
    extends Loaded cipher f s where
  src : s.para.src = p
  dest : s.para.dest = p

/-- The length of the message in bytes. -/
def SysaesPara.size (p : SysaesPara) : ℕ := AES_BLOCK_SIZE * p.blockNum.toNat

/-- A local array, apart from the buffers of the request. -/
structure Slot (p : SysaesPara) (a : BitVec 32) : Prop where
  nonNull : NonNull a AES_BLOCK_SIZE
  src : Clear a AES_BLOCK_SIZE p.src p.size
  dest : Clear a AES_BLOCK_SIZE p.dest p.size
  iv : Clear a AES_BLOCK_SIZE p.iv AES_BLOCK_SIZE

instance (p : SysaesPara) (a : BitVec 32) : Decidable (Slot p a) :=
  decidable_of_iff (NonNull a AES_BLOCK_SIZE ∧ Clear a AES_BLOCK_SIZE p.src p.size ∧
    Clear a AES_BLOCK_SIZE p.dest p.size ∧ Clear a AES_BLOCK_SIZE p.iv AES_BLOCK_SIZE)
    ⟨fun ⟨hnull,hsrc,hdest,hiv⟩ => ⟨hnull,hsrc,hdest,hiv⟩,fun ⟨hnull,hsrc,hdest,hiv⟩ => ⟨hnull,hsrc,hdest,hiv⟩⟩

section Requests
variable {p : SysaesPara} {slots : List (BitVec 32)} {a : BitVec 32}

theorem Slot.ne (h : Slot p a) : a ≠ 0 := h.nonNull.ne (by decide)

theorem Slot.size_lt (h : Slot p a) : p.size < 2 ^ 32 := (h.dest.first (by decide) le_rfl).lt

/-- The message is not longer than the space, so that neither the number of its bytes nor
the int that counts its blocks wraps. -/
theorem Slot.counts (h : Slot p a) : (BitVec.ofNat 32 AES_BLOCK_SIZE * p.blockNum).toNat = p.size ∧
    p.blockNum.toInt.toNat = p.blockNum.toNat := by
  have hlt : 16 * p.blockNum.toNat < 2 ^ 32 := h.size_lt
  constructor
  · rw [BitVec.toNat_mul]
    exact Nat.mod_eq_of_lt hlt
  · rw [BitVec.toInt_eq_toNat_of_lt (by omega),Int.toNat_natCast]

end Requests

/-! ## Two blocks -/

/-- The first half of the key on every block. -/
def xorCipher (k : Key) : Equiv.Perm Block :=
  Function.Involutive.toPerm (mix fun i => k (Fin.castLE (by decide) i)) (fun b => by
    funext i
    show _ ^^^ (_ ^^^ b i) = b i
    rw [← BitVec.xor_assoc,BitVec.xor_self,BitVec.zero_xor])

end FmacSdk.HgSysaes
