import FmacSdk.SpiNor.Flash

/-! # spi_nor_write

The write is cut into one call up to the first page boundary, a loop over full
pages and a last call. The calls tile the range, none leaves its page, and over
an erased range of the chip they leave the buffer in it and nothing else changed.
-/
namespace FmacSdk.SpiNor
open PagedMemory

/-- One bus->program call: the address, the distance of its `buf` from the buffer
of the caller, and the length. -/
structure ProgramCall where
  addr : ℕ
  off : ℕ
  len : ℕ
deriving DecidableEq, Repr

/-- The while loop and the last call. -/
def writeLoop (f : SpiNorFlash) (addr off len : ℕ) : List ProgramCall :=
  if len > f.pageSize then
    ⟨addr,off,f.pageSize⟩ ::
      writeLoop f ((addr + f.pageSize) % 2 ^ 32) (off + f.pageSize) (len - f.pageSize)
  else [⟨addr,off,len⟩]
termination_by len
decreasing_by
  have := f.pageSize_pos
  omega

/-- spi_nor_write: the calls it issues, in order. -/
def spiNorWrite (f : SpiNorFlash) (addr len : ℕ) : List ProgramCall :=
  let remainSize := f.pageSize - addr % f.pageSize
  if remainSize ≠ 0 ∧ len > remainSize then
    ⟨addr,0,remainSize⟩ :: writeLoop f ((addr + remainSize) % 2 ^ 32) remainSize (len - remainSize)
  else writeLoop f addr 0 len

/-- The address range of a call. -/
def ProgramCall.segment (c : ProgramCall) : ℕ × ℕ := (c.addr,c.len)

/-- The calls cover `[addr, addr + len)` in order, stay in their pages, and read
the buffer at the place that belongs to their address. -/
structure Covers (f : SpiNorFlash) (addr off len : ℕ) (calls : List ProgramCall) : Prop where
  tiles : Tiles addr (calls.map ProgramCall.segment) (addr + len)
  inPage : ∀ c ∈ calls, InPage f.pageSize c.segment
  aligned : ∀ c ∈ calls, addr ≤ c.addr ∧ c.addr + off = addr + c.off

theorem Covers.single {f : SpiNorFlash} {addr off len : ℕ} (hlen : 0 < len)
    (hin : addr % f.pageSize + len ≤ f.pageSize) : Covers f addr off len [⟨addr,off,len⟩] := by
  refine ⟨⟨rfl,hlen,rfl⟩,?_,?_⟩
  · simpa [InPage,ProgramCall.segment] using hin
  · simp

/-- A call in front of calls that continue at its end. -/
theorem Covers.cons {f : SpiNorFlash} {addr off n len : ℕ} {calls : List ProgramCall} (hn : 0 < n)
    (hin : addr % f.pageSize + n ≤ f.pageSize) (h : Covers f (addr + n) (off + n) len calls) :
    Covers f addr off (n + len) (⟨addr,off,n⟩ :: calls) := by
  refine ⟨⟨rfl,hn,?_⟩,?_,?_⟩
  · rw [← Nat.add_assoc]
    exact h.tiles
  · intro c hc
    rcases List.mem_cons.mp hc with rfl | hc
    · exact hin
    · exact h.inPage c hc
  · intro c hc
    rcases List.mem_cons.mp hc with rfl | hc
    · simp
    · have := h.aligned c hc
      omega

/-- The loop covers its range when it starts at a page boundary or needs no
second call. -/
theorem writeLoop_covers {f : SpiNorFlash} {addr off len : ℕ} (hlen : 0 < len)
    (hend : addr + len ≤ 2 ^ 32)
    (hstart : addr % f.pageSize = 0 ∨ addr % f.pageSize + len ≤ f.pageSize) :
    Covers f addr off len (writeLoop f addr off len) := by
  have hpos := f.pageSize_pos
  induction len using Nat.strong_induction_on generalizing addr off with
  | _ len ih =>
    rw [writeLoop]
    split
    · next hgt =>
      have h0 : addr % f.pageSize = 0 := by omega
      have hnext : (addr + f.pageSize) % 2 ^ 32 = addr + f.pageSize := Nat.mod_eq_of_lt (by omega)
      have haligned : (addr + f.pageSize) % f.pageSize = 0 := by rw [Nat.add_mod_right,h0]
      have hrest : Covers f (addr + f.pageSize) (off + f.pageSize) (len - f.pageSize) _ :=
        ih _ (by omega) (by omega) (by omega) (Or.inl haligned)
      have hsum : len = f.pageSize + (len - f.pageSize) := by omega
      rw [hnext,hsum,Nat.add_sub_cancel_left]
      exact Covers.cons hpos (by omega) hrest
    · next hle => exact Covers.single hlen (by omega)

theorem spiNorWrite_covers {f : SpiNorFlash} {addr len : ℕ} (hlen : 0 < len) (hend : addr + len ≤ f.size) :
    Covers f addr 0 len (spiNorWrite f addr len) := by
  have hpos := f.pageSize_pos
  have hsize := f.size_lt
  have hmod := Nat.mod_lt addr hpos
  unfold spiNorWrite
  simp only
  split
  · next h =>
    obtain ⟨hne,hgt⟩ := h
    have hnext : (addr + (f.pageSize - addr % f.pageSize)) % 2 ^ 32 =
        addr + (f.pageSize - addr % f.pageSize) := Nat.mod_eq_of_lt (by omega)
    have haligned : (addr + (f.pageSize - addr % f.pageSize)) % f.pageSize = 0 := by
      have hd := Nat.div_add_mod addr f.pageSize
      have heq : addr + (f.pageSize - addr % f.pageSize) = f.pageSize * (addr / f.pageSize + 1) := by
        rw [Nat.mul_add,Nat.mul_one]
        omega
      rw [heq,Nat.mul_mod_right]
    have hrest : Covers f (addr + (f.pageSize - addr % f.pageSize)) (0 + (f.pageSize - addr % f.pageSize))
        (len - (f.pageSize - addr % f.pageSize)) _ :=
      writeLoop_covers (by omega) (by omega) (Or.inl haligned)
    have hcons := Covers.cons (by omega) (by omega) hrest
    rwa [Nat.add_sub_cancel' hgt.le,Nat.zero_add, ← hnext] at hcons
  · next h => exact writeLoop_covers hlen (by omega) (by omega)

/-! ## The write on the chip -/

/-- The bytes a call hands to bus->program. -/
def ProgramCall.data (buf : List UInt8) (c : ProgramCall) : List UInt8 := (buf.drop c.off).take c.len

/-- The calls carried out by spi_nor_standard_page_program. -/
def programAll (spec : ChipSpec) (f : SpiNorFlash) (buf : List UInt8) (chip : Chip)
    (calls : List ProgramCall) : Chip :=
  calls.foldl (fun chip c => standardPageProgram spec f chip c.addr (c.data buf)) chip

/-- On an idle chip the calls act as bare program commands, one after the other. -/
theorem programAll_mem {spec : ChipSpec} {f : SpiNorFlash} {buf : List UInt8} {calls : List ProgramCall}
    (hf : f.Matches spec) (ha : ∀ c ∈ calls, c.addr < f.size) {chip : Chip} (hidle : chip.busy = 0) :
    (programAll spec f buf chip calls).mem =
      (calls.map fun c => (c.addr,c.data buf)).foldl
        (fun m c => program (· &&& ·) f.pageSize m c.1 c.2) chip.mem := by
  induction calls generalizing chip with
  | nil => rfl
  | cons c rest ih =>
    have hstep : standardPageProgram spec f chip c.addr (c.data buf) = _ :=
      standardPageProgram_eq hf (ha c List.mem_cons_self) hidle
    have hrest := ih (fun c hc => ha c (List.mem_cons_of_mem _ hc))
      (show (standardPageProgram spec f chip c.addr (c.data buf)).busy = 0 by rw [hstep])
    rw [programAll,List.foldl_cons]
    rw [programAll] at hrest
    rw [hrest,List.map_cons,List.foldl_cons,hstep]

/-- Calls that cover a range hand over the slices of the buffer that belong to
their segments. -/
theorem Covers.data_eq {f : SpiNorFlash} {addr : ℕ} {buf : List UInt8} {calls : List ProgramCall}
    (h : Covers f addr 0 buf.length calls) {c : ProgramCall} (hc : c ∈ calls) :
    c.data buf = (buf.drop (c.segment.1 - addr)).take c.segment.2 ∧ (c.data buf).length = c.len := by
  have ha := h.aligned c hc
  have hb := h.tiles.mem_bounds (List.mem_map_of_mem hc)
  simp only [ProgramCall.segment] at hb
  have hoff : c.addr - addr = c.off := by omega
  refine ⟨by rw [ProgramCall.data,ProgramCall.segment,hoff],?_⟩
  simp only [ProgramCall.data,List.length_take,List.length_drop]
  omega

/-- Calls that cover an erased range leave the buffer there and nothing else changed. -/
theorem Covers.programAll_mem {spec : ChipSpec} {f : SpiNorFlash} {addr : ℕ} {buf : List UInt8}
    {calls : List ProgramCall} {chip : Chip} (h : Covers f addr 0 buf.length calls) (hf : f.Matches spec)
    (hend : addr + buf.length ≤ f.size) (hidle : chip.busy = 0)
    (herased : ∀ x, addr ≤ x → x < addr + buf.length → chip.mem x = 0xFF) :
    (programAll spec f buf chip calls).mem = overlay chip.mem addr buf := by
  have hlt : ∀ c ∈ calls, c.addr < f.size := by
    intro c hc
    have hb := h.tiles.mem_bounds (List.mem_map_of_mem hc)
    simp only [ProgramCall.segment] at hb
    omega
  have hseg : (calls.map fun c => (c.addr,c.data buf)).map (fun c => (c.1,c.2.length)) =
      calls.map ProgramCall.segment := by
    rw [List.map_map]
    exact List.map_congr_left fun c hc => by simp [ProgramCall.segment,(h.data_eq hc).2]
  have hdata : ((calls.map fun c => (c.addr,c.data buf)).map Prod.snd).flatten = buf := by
    have hs := h.tiles.slices (le_refl addr) buf
    rw [List.map_map,Nat.sub_self,List.drop_zero,Nat.add_sub_cancel_left,List.take_length] at hs
    rw [List.map_map]
    calc (calls.map (ProgramCall.data buf)).flatten
        = (calls.map ((fun s => (buf.drop (s.1 - addr)).take s.2) ∘ ProgramCall.segment)).flatten := by
          rw [List.map_congr_left fun c hc => (h.data_eq hc).1]
          rfl
      _ = buf := hs
  have hin : ∀ c ∈ calls.map (fun c => (c.addr,c.data buf)), InPage f.pageSize (c.1,c.2.length) := by
    intro d hd
    obtain ⟨c,hc,rfl⟩ := List.mem_map.mp hd
    have := h.inPage c hc
    rwa [ProgramCall.segment, ← (h.data_eq hc).2] at this
  have hand : ∀ b : UInt8, 0xFF &&& b = b := fun b => UInt8.neg_one_and
  rw [SpiNor.programAll_mem hf hlt hidle,fold_program hand (hseg ▸ h.tiles) hin herased,hdata]

/-- spi_nor_write issues calls that tile its range within their pages, so that on
an erased range of an idle chip it stores the buffer and changes no other byte. -/
theorem spiNorWrite_stores (f : SpiNorFlash) (addr len : ℕ) (hlen : 0 < len) (hend : addr + len ≤ f.size) :
    Tiles addr ((spiNorWrite f addr len).map ProgramCall.segment) (addr + len) ∧
    (∀ c ∈ spiNorWrite f addr len, 0 < c.len ∧
      ∀ x, c.addr ≤ x → x < c.addr + c.len → x / f.pageSize = c.addr / f.pageSize) ∧
    ∀ (spec : ChipSpec) (chip : Chip) (buf : List UInt8), f.Matches spec → buf.length = len →
      chip.busy = 0 → (∀ x, addr ≤ x → x < addr + len → chip.mem x = 0xFF) →
      (∀ i (hi : i < buf.length),
        (programAll spec f buf chip (spiNorWrite f addr len)).mem (addr + i) = buf[i]) ∧
      ∀ x, x < addr ∨ addr + len ≤ x →
        (programAll spec f buf chip (spiNorWrite f addr len)).mem x = chip.mem x := by
  have h := spiNorWrite_covers hlen hend
  refine ⟨h.tiles,fun c hc => ⟨?_,fun x => (h.inPage c hc).same_page⟩,?_⟩
  · exact (h.tiles.mem_bounds (List.mem_map_of_mem hc)).2.1
  · intro spec chip buf hf hbuf hidle herased
    subst hbuf
    rw [h.programAll_mem hf hend hidle herased]
    exact ⟨fun i hi => overlay_inside hi,fun x hx => overlay_outside hx⟩

/-- Two pages of 256 bytes. -/
def smallFlash : SpiNorFlash := ⟨512,256,by decide,by decide⟩

/-- Five bytes from the last byte of a page on, on an erased chip: the first one
stays in that page and the fourth one is in the next. -/
theorem spiNorWrite_stores_across :
    Tiles 255 ((spiNorWrite smallFlash 255 5).map ProgramCall.segment) (255 + 5) ∧
    (programAll ⟨256,3,fun _ => 7⟩ smallFlash [1,2,3,4,5] ⟨fun _ => 0xFF,false,0⟩
      (spiNorWrite smallFlash 255 5)).mem (255 + 3) = 4 := by
  have h := spiNorWrite_stores smallFlash 255 5 (by decide) (by decide)
  have hmatch : smallFlash.Matches ⟨256,3,fun _ => 7⟩ := by decide
  exact ⟨h.1,(h.2.2 ⟨256,3,fun _ => 7⟩ ⟨fun _ => 0xFF,false,0⟩ [1,2,3,4,5] hmatch rfl rfl
    (fun _ _ _ => rfl)).1 3 (by decide)⟩

end FmacSdk.SpiNor
