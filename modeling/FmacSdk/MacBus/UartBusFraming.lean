import FmacSdk.MacBus.UartBusRing
import FmacSdk.Foundation.Blocks
import Mathlib.Data.List.GetD

/-! # Frame hand-over of the UART MAC bus

Frames arrive back to back, carry the header magic and their own length, and the
interrupt handler recognises the last byte of each. The end of a frame reaches
the task through one `stopPos` and a counting semaphore: with the loop of the
task taken as atomic, a buffer is exactly one frame as long as no frame ends
before the task has taken the one before it.
-/
namespace FmacSdk.UartBus
open Rbuffer RingWindow Transition Blocks

/-- A frame that the header detector is meant for. -/
structure Frame where
  bytes : List UInt8
  min_le : 6 ≤ bytes.length
  le_max : bytes.length ≤ 4094
  magic : bytes.take 2 = [0x2B,0x1A]
  length_eq : (bytes.getD 4 0).toNat + 256 * (bytes.getD 5 0).toNat = bytes.length

/-- The frames as they arrive on the wire. -/
def wire (frames : List Frame) : List (List UInt8) := frames.map Frame.bytes

theorem wire_ne_nil {frames : List Frame} : ∀ f ∈ wire frames, f ≠ [] := by
  intro f hf
  obtain ⟨g,_,rfl⟩ := List.mem_map.mp hf
  have := g.min_le
  exact List.ne_nil_of_length_pos (by omega)

theorem wire_get {frames : List Frame} {k : ℕ} {f : List UInt8} (h : (wire frames)[k]? = some f) :
    ∃ g : Frame, g.bytes = f := by
  obtain ⟨g,_,hg⟩ := List.mem_map.mp (List.mem_of_getElem? h)
  exact ⟨g,hg⟩

/-- The environment: bytes follow the frames, the timer runs out between frames
only, interrupts come between iterations of the task, there is room and memory. -/
def Framed (frames : List Frame) (s : System) : Act → Prop
  | .byte b => Roomy s (.byte b) ∧ s.pc.isDown ∧ s.received ++ [b] <+: (wire frames).flatten
  | .timer => s.pc.isDown ∧ ∃ k, k ≤ (wire frames).length ∧ s.received = upTo (wire frames) k
  | .task mem => mem.isSome

instance (frames : List Frame) (s : System) : (a : Act) → Decidable (Framed frames s a)
  | .byte b => inferInstanceAs (Decidable (Roomy s (.byte b) ∧ _ ∧ _))
  | .timer => inferInstanceAs (Decidable (_ ∧ ∃ k, k ≤ (wire frames).length ∧ _))
  | .task mem => inferInstanceAs (Decidable (mem.isSome = true))

/-- The byte ends a frame. -/
def EndsFrame (frames : List Frame) (s : System) (b : UInt8) : Prop :=
  ∃ k, k ≤ (wire frames).length ∧ s.received ++ [b] = upTo (wire frames) k

instance (frames : List Frame) (s : System) (b : UInt8) : Decidable (EndsFrame frames s b) :=
  inferInstanceAs (Decidable (∃ k, k ≤ (wire frames).length ∧ _))

/-- When a frame ends, the task has taken everything up to the previous end. -/
def CaughtUp (frames : List Frame) (s : System) : Act → Prop
  | .byte b => EndsFrame frames s b → s.bus.rb.rpos = s.bus.stopPos
  | _ => True

instance (frames : List Frame) (s : System) : (a : Act) → Decidable (CaughtUp frames s a)
  | .byte b => inferInstanceAs (Decidable (EndsFrame frames s b → _))
  | .timer | .task _ => isTrue trivial

/-- bus.recv was called with the first frames, one call a frame; once the task has
nothing left to do, with every frame that has arrived. -/
def HandedOver (frames : List Frame) (s : System) : Prop :=
  s.delivered <+: wire frames ∧
    (s.pc.isDown → s.bus.sema = 0 → ∀ k ≤ (wire frames).length,
      upTo (wire frames) k <+: s.received → (wire frames).take k <+: s.delivered)

/-! ## The header detector -/

/-- The fields of the detector after the part `p` of a frame. -/
structure Detecting (u : MacBusUart) (p : List UInt8) : Prop where
  rxcount : u.rxcount = p.length
  magic : u.magic = (p.take 2).foldl shiftIn 0
  frmLen : u.frmLen = ((p.drop 4).take 2).foldl shiftIn 0

theorem take_snoc (p : List UInt8) (b : UInt8) (n : ℕ) :
    (p ++ [b]).take n = if p.length < n then p.take n ++ [b] else p.take n := by
  rw [List.take_append]
  split
  · next h =>
    have hb : [b].take (n - p.length) = [b] := List.take_of_length_le (by simp; omega)
    rw [hb]
  · next h => simp [Nat.sub_eq_zero_of_le (Nat.not_lt.mp h)]

theorem drop_snoc (p : List UInt8) (b : UInt8) (n : ℕ) :
    (p ++ [b]).drop n = if n ≤ p.length then p.drop n ++ [b] else [] := by
  split
  · next h => exact List.drop_append_of_le_length h
  · next h => exact List.drop_of_length_le (by simp only [List.length_append,List.length_singleton]; omega)

theorem storeByte_detecting {u : MacBusUart} {p : List UInt8} (h : Detecting u p) (b : UInt8)
    (hp : p.length < 4094) : Detecting (storeByte u b) (p ++ [b]) := by
  have hcnt : (u.rxcount + 1) % 2 ^ 32 = p.length + 1 := by
    rw [h.rxcount]
    exact Nat.mod_eq_of_lt (by omega)
  refine ⟨?_,?_,?_⟩
  · simp only [storeByte,hcnt,List.length_append,List.length_singleton]
  · simp only [storeByte,hcnt,h.magic,take_snoc]
    by_cases h2 : p.length < 2
    · rw [if_pos (by omega),if_pos h2,List.foldl_append]
      rfl
    · rw [if_neg (by omega),if_neg h2]
  · simp only [storeByte,hcnt,h.frmLen,drop_snoc]
    by_cases h4 : 4 ≤ p.length
    · rw [if_neg (by omega),if_pos h4,take_snoc,List.length_drop]
      by_cases h6 : p.length < 6
      · rw [if_pos (by omega),if_pos (by omega),List.foldl_append]
        rfl
      · rw [if_neg (by omega),if_neg (by omega)]
    · rw [if_neg h4,List.drop_of_length_le (by omega)]
      split
      · rfl
      · rw [if_neg (by omega)]

theorem shiftIn_pair (a b : UInt8) : shiftIn (shiftIn 0 a) b = a.toNat + 256 * b.toNat := by
  have ha : a.toNat < 2 ^ 8 := a.toNat_lt
  simp only [shiftIn,Nat.zero_shiftRight,Nat.zero_or,Nat.shiftLeft_shiftRight]
  rw [Nat.or_comm, ← Nat.shiftLeft_add_eq_or_of_lt ha,Nat.shiftLeft_eq]
  omega

/-- The detector fires on the last byte of a frame and on no byte before it. -/
theorem detecting_done {u : MacBusUart} {p : List UInt8} (h : Detecting u p) {f : Frame}
    (hp : p <+: f.bytes) (hroom : Rbuffer.count u.rb < rxBufSize - 1) :
    frameDone u = true ↔ p = f.bytes := by
  have hlen := hp.length_le
  have hmin := f.min_le
  have hcount : ¬ Rbuffer.count u.rb ≥ rxBufSize - 1 := by omega
  have heq : p = f.bytes ↔ p.length = f.bytes.length := ⟨congrArg _,hp.eq_of_length⟩
  simp only [frameDone,h.rxcount,h.magic,h.frmLen,hcount,decide_false,Bool.or_false,Bool.and_eq_true,
    beq_iff_eq,bne_iff_ne,decide_eq_true_eq,heq]
  by_cases h6 : 6 ≤ p.length
  · obtain ⟨rest,hrest⟩ := hp
    have hmagic : p.take 2 = [0x2B,0x1A] := by
      rw [← f.magic, ← hrest,List.take_append_of_le_length (by omega)]
    have hpair : (p.drop 4).take 2 = [p.getD 4 0,p.getD 5 0] := by
      have h4 : 4 < p.length := by omega
      have h5 : 5 < p.length := by omega
      rw [List.drop_eq_getElem_cons h4,List.drop_eq_getElem_cons h5,List.take_succ_cons,List.take_succ_cons,
        List.take_zero,List.getD_eq_getElem _ _ h4,List.getD_eq_getElem _ _ h5]
    have h4 : f.bytes.getD 4 0 = p.getD 4 0 := by
      rw [← hrest]
      simp [List.getD,List.getElem?_append_left (show 4 < p.length by omega)]
    have h5 : f.bytes.getD 5 0 = p.getD 5 0 := by
      rw [← hrest]
      simp [List.getD,List.getElem?_append_left (show 5 < p.length by omega)]
    have hl := f.length_eq
    rw [h4,h5] at hl
    have hm : [(0x2B : UInt8),0x1A].foldl shiftIn 0 = 0x1A2B := by decide
    simp only [hmagic,hpair,hm,List.foldl_cons,List.foldl_nil,shiftIn_pair,hl]
    rw [true_and]
    omega
  · have hne : p.length ≠ f.bytes.length := by omega
    simp only [hne,iff_false,not_and,not_le]
    intro hcond
    by_cases h5 : p.length = 5
    · have hdrop : (p.drop 4).take 2 = [p.getD 4 0] := by
        have h4 : 4 < p.length := by omega
        rw [List.drop_eq_getElem_cons h4,List.drop_of_length_le (by omega)]
        simp [List.getD,h4]
      rw [hdrop] at hcond ⊢
      simp only [List.foldl_cons,List.foldl_nil,shiftIn,Nat.zero_shiftRight,Nat.zero_or,Nat.shiftLeft_eq] at hcond ⊢
      omega
    · rw [List.drop_of_length_le (by omega)] at hcond
      simp at hcond

/-! ## The invariant of the hand-over -/

/-- Bytes between the frames handed over and the frames that have ended. -/
def outstanding (frames : List Frame) (j k : ℕ) : ℕ :=
  (upTo (wire frames) k).length - (upTo (wire frames) j).length

/-- The task has handed over `j` frames while `k` have ended; in an iteration its
length is the distance between the two. -/
def Iterating (frames : List Frame) (s : System) (j k : ℕ) : Prop :=
  match s.pc with
  | .down => s.delivered = (wire frames).take j ∧ (j < k → 0 < s.bus.sema)
  | .compare => s.delivered = (wire frames).take j
  | .subtract ge => s.delivered = (wire frames).take j ∧ (ge = true ↔ s.bus.rb.rpos ≤ s.bus.stopPos)
  | .alloc count => s.delivered = (wire frames).take j ∧ count = outstanding frames j k
  | .branch n _ | .copyWhole n _ | .copyHead n _ | .copyTail n _ _ | .recv n _ =>
    s.delivered = (wire frames).take j ∧ n = outstanding frames j k ∧ 0 < n
  | .advance n => s.delivered = (wire frames).take k ∧ n = outstanding frames j k

structure Framing (frames : List Frame) (s : System) (j k : ℕ) (p : List UInt8) : Prop where
  safe : Safe s
  le : j ≤ k
  near : k ≤ j + 1
  progress : Progress (wire frames) s.received k p
  detecting : Detecting s.bus p
  stop_eq : s.bus.stopPos = (upTo (wire frames) k).length % rxBufSize
  iterating : Iterating frames s j k

theorem framing_start (frames : List Frame) : Framing frames start 0 0 [] :=
  ⟨start_safe,le_rfl,Nat.zero_le _,progress_start _,⟨rfl,rfl,rfl⟩,rfl,rfl,fun h => absurd h (lt_irrefl 0)⟩

/-- Frames handed over account for the read position. -/
theorem read_position {frames : List Frame} {s : System} {r m : ℕ} (hr : r ≤ s.received.length)
    (hd : s.delivered = (wire frames).take m) (ht : s.delivered.flatten = s.received.take r) :
    r = (upTo (wire frames) m).length := by
  have hlen := congrArg List.length ht
  rw [hd,List.length_take,Nat.min_eq_left hr] at hlen
  exact hlen.symm

/-- The positions of the ring are the boundaries of the two frame counts. -/
theorem Framing.positions {frames : List Frame} {s : System} {j k : ℕ} {p : List UInt8}
    (h : Framing frames s j k p) :
    Linear s (upTo (wire frames) j).length (upTo (wire frames) k).length ∧
      TaskOk s (upTo (wire frames) j).length (upTo (wire frames) k).length := by
  obtain ⟨_,r,st,hl,ht⟩ := h.safe
  have hjk := upTo_length_le (wire frames) h.le
  have hlen := h.progress.length_eq
  have hls := hl.le_stop
  have hsl := hl.stop_le
  have hlt := hl.ring.lt
  rw [hl.size] at hlt
  have hr : r = (upTo (wire frames) j).length := by
    have hi := h.iterating
    unfold Iterating at hi
    unfold TaskOk at ht
    cases hpc : s.pc <;> simp only [hpc] at hi ht
    case compare => exact read_position (by omega) hi ht
    case down => exact read_position (by omega) hi.1 ht
    case advance n =>
      have := read_position (by omega) hi.1 ht.2
      have hn := hi.2
      unfold outstanding at hn
      omega
    all_goals exact read_position (by omega) hi.1 ht.1
  have hst : st = (upTo (wire frames) k).length := by
    have heq := hl.stop_eq.symm.trans h.stop_eq
    by_contra hne
    rcases Nat.lt_or_gt_of_ne hne with hlt' | hgt
    · exact residue_ne hlt' (by omega) heq
    · exact residue_ne hgt (by omega) heq.symm
  subst hr hst
  exact ⟨hl,ht⟩

/-- With nothing outstanding the two counts agree. -/
theorem Framing.eq_of_outstanding {frames : List Frame} {s : System} {j k : ℕ} {p : List UInt8}
    (h : Framing frames s j k p) (h0 : outstanding frames j k = 0) : j = k := by
  by_contra hne
  have hjk := h.le
  have := upTo_length_lt wire_ne_nil (show j < k by omega) h.progress.le
  unfold outstanding at h0
  omega

/-- The bytes the task takes are the one frame that is outstanding. -/
theorem Framing.taken {frames : List Frame} {s : System} {j k : ℕ} {p : List UInt8}
    (h : Framing frames s j k p) (hpos : 0 < outstanding frames j k) :
    (wire frames).take j ++ [(s.received.drop (upTo (wire frames) j).length).take (outstanding frames j k)] =
      (wire frames).take k := by
  have hk : k = j + 1 := by
    have hjk := h.le
    have hnear := h.near
    by_contra hne
    have hjk : j = k := by omega
    simp [outstanding,hjk] at hpos
  have hkl := h.progress.le
  obtain ⟨f,hget⟩ : ∃ f, (wire frames)[j]? = some f := ⟨_,List.getElem?_eq_getElem (by omega)⟩
  have hup := upTo_succ hget
  rw [h.progress.split]
  subst hk
  unfold outstanding
  rw [hup,List.append_assoc,List.drop_left,List.length_append,Nat.add_sub_cancel_left,List.take_left,
    List.take_add_one,hget]
  rfl

/-! ## One step -/

theorem taskStep_framing {frames : List Frame} {s s' : System} {j k : ℕ} {p : List UInt8}
    {mem : Option (ℕ → UInt8)} (h : Framing frames s j k p) (hmem : mem.isSome)
    (he : taskStep s mem = some s') : ∃ j', Framing frames s' j' k p := by
  have hsafe := taskStep_safe h.safe hmem he
  obtain ⟨hl,ht⟩ := h.positions
  have hcases := hl.stop_cases
  have hrpos := hl.rpos_lt
  have hspan := hl.span_lt
  have hls := hl.le_stop
  have hsize := hl.size
  have hi := h.iterating
  unfold taskStep at he
  unfold TaskOk at ht
  unfold Iterating at hi
  cases hpc : s.pc with
  | down =>
    simp only [hpc] at he hi
    split at he
    · cases he
      exact ⟨j,hsafe,h.le,h.near,h.progress,⟨h.detecting.1,h.detecting.2,h.detecting.3⟩,h.stop_eq,hi.1⟩
    · cases he
  | compare =>
    simp only [hpc] at he hi
    cases he
    refine ⟨j,hsafe,h.le,h.near,h.progress,h.detecting,h.stop_eq,hi,?_⟩
    simp
  | subtract ge =>
    simp only [hpc] at he hi
    cases he
    refine ⟨j,hsafe,h.le,h.near,h.progress,h.detecting,h.stop_eq,hi.1,?_⟩
    unfold outstanding
    have hge := hi.2
    cases ge with
    | true =>
      simp only [true_iff] at hge
      simp only [↓reduceIte]
      omega
    | false =>
      simp only [Bool.false_eq_true,false_iff] at hge
      simp only [Bool.false_eq_true,↓reduceIte,hsize]
      omega
  | alloc count =>
    obtain ⟨buf,rfl⟩ := Option.isSome_iff_exists.mp hmem
    simp only [hpc] at he hi
    split at he
    · cases he
      exact ⟨j,hsafe,h.le,h.near,h.progress,h.detecting,h.stop_eq,hi.1,by omega,by omega⟩
    · cases he
      obtain rfl := h.eq_of_outstanding (by omega)
      exact ⟨j,hsafe,h.le,h.near,h.progress,h.detecting,h.stop_eq,hi.1,fun hlt => absurd hlt (lt_irrefl j)⟩
  | branch n buf =>
    simp only [hpc] at he hi
    cases he
    refine ⟨j,hsafe,h.le,h.near,h.progress,h.detecting,h.stop_eq,?_⟩
    by_cases hgt : s.bus.stopPos > s.bus.rb.rpos
    · simp only [Iterating,if_pos hgt]
      exact hi
    · simp only [Iterating,if_neg hgt]
      exact hi
  | copyWhole n buf | copyHead n buf | copyTail n part buf =>
    simp only [hpc] at he hi
    cases he
    exact ⟨j,hsafe,h.le,h.near,h.progress,h.detecting,h.stop_eq,hi⟩
  | recv n buf =>
    simp only [hpc] at he hi ht
    cases he
    obtain ⟨hd,hn,hpos⟩ := hi
    refine ⟨j,hsafe,h.le,h.near,h.progress,h.detecting,h.stop_eq,?_,hn⟩
    simp only
    rw [hd,ht.2.2,hn,h.taken (hn ▸ hpos)]
  | advance n =>
    simp only [hpc] at he hi
    cases he
    exact ⟨k,hsafe,le_rfl,Nat.le_succ k,h.progress,⟨h.detecting.1,h.detecting.2,h.detecting.3⟩,h.stop_eq,
      hi.1,fun hlt => absurd hlt (lt_irrefl k)⟩

theorem irqHdl_done {u : MacBusUart} {b : UInt8}
    (h : frameDone (storeByte { u with timerArmed := false } b) = true) :
    irqHdl u b = { endFrame (storeByte { u with timerArmed := false } b) with timerArmed := true } := by
  simp only [irqHdl,h,↓reduceIte]

theorem irqHdl_open {u : MacBusUart} {b : UInt8}
    (h : frameDone (storeByte { u with timerArmed := false } b) = false) :
    irqHdl u b = { storeByte { u with timerArmed := false } b with timerArmed := true } := by
  simp only [irqHdl,h,Bool.false_eq_true,↓reduceIte]

/-- Between iterations an interrupt disturbs nothing. -/
theorem Framed.undisturbing {frames : List Frame} {s : System} {a : Act} (h : Framed frames s a) :
    Undisturbing s a := by
  cases a with
  | byte b =>
    refine ⟨h.1,fun hh => ?_⟩
    rw [TaskPc.eq_down h.2.1] at hh
    exact absurd hh id
  | timer =>
    refine ⟨trivial,fun hh => ?_⟩
    rw [TaskPc.eq_down h.1] at hh
    exact absurd hh id
  | task mem => exact ⟨h,trivial⟩

/-- The task has caught up only if it has handed over every frame that has ended. -/
theorem Framing.caught_up {frames : List Frame} {s : System} {j k : ℕ} {p : List UInt8}
    (h : Framing frames s j k p) (hc : s.bus.rb.rpos = s.bus.stopPos) : j = k := by
  have hcases := h.positions.1.stop_cases
  have hspan := h.positions.1.span_lt
  exact h.eq_of_outstanding (by unfold outstanding; omega)

theorem byte_framing {frames : List Frame} {s s' : System} {j k : ℕ} {p : List UInt8} {b : UInt8}
    (h : Framing frames s j k p) (hf : Framed frames s (.byte b)) (hc : CaughtUp frames s (.byte b))
    (he : step s (.byte b) = some s') : ∃ k' p', Framing frames s' j k' p' := by
  have hsafe := step_safe h.safe hf.undisturbing.1 hf.undisturbing.2 he
  obtain ⟨hroom,hdown,hwire⟩ := hf
  have hpc := TaskPc.eq_down hdown
  have hl := h.positions.1
  have hi := h.iterating
  simp only [Iterating,hpc] at hi
  obtain ⟨f,hget,hpre⟩ := h.progress.next wire_ne_nil hwire
  obtain ⟨g,rfl⟩ := wire_get hget
  have hplen := hpre.length_le
  have hmax := g.le_max
  rw [List.length_append,List.length_singleton] at hplen
  -- the byte fits: the ring stays short of the count that ends a frame by itself
  obtain ⟨hat,hsize,_,_⟩ := hl.ring.set hroom.not_full b
  have hlen := h.progress.length_eq
  have hcount : Rbuffer.count (storeByte { s.bus with timerArmed := false } b).rb < rxBufSize - 1 := by
    have hne := mt hat.full_iff.mpr (by simp [hroom.set_not_full])
    have hlt := hat.lt
    have hle := hat.le
    have hcnt := hat.count
    rw [hsize,hl.size] at hne hlt
    change Rbuffer.count (Rbuffer.set s.bus.rb b) < rxBufSize - 1
    omega
  have hdet : Detecting (storeByte { s.bus with timerArmed := false } b) (p ++ [b]) :=
    storeByte_detecting (u := { s.bus with timerArmed := false }) ⟨h.detecting.1,h.detecting.2,h.detecting.3⟩ b
      (by omega)
  have hdone := detecting_done hdet hpre hcount
  simp only [step,Option.some.injEq] at he
  by_cases hlast : p ++ [b] = g.bytes
  · -- the last byte: the stop position becomes the next boundary
    rw [← hlast] at hget
    have hprog := h.progress.complete hget
    have hends : EndsFrame frames s b := ⟨k + 1,hprog.le,by simpa using hprog.split⟩
    obtain rfl := h.caught_up (hc hends)
    rw [irqHdl_done (hdone.mpr hlast)] at he
    subst he
    refine ⟨j + 1,[],hsafe,Nat.le_succ j,le_rfl,hprog,⟨rfl,rfl,rfl⟩,?_,?_⟩
    · have hw := hat.wpos_eq
      rw [hsize,hl.size] at hw
      have hplen' := congrArg List.length hprog.split
      rw [List.append_nil,List.length_append,List.length_singleton] at hplen'
      rw [← hplen']
      exact hw
    · simp only [Iterating,hpc]
      exact ⟨hi.1,fun _ => Nat.succ_pos _⟩
  · have hopen := Bool.eq_false_iff.mpr (mt hdone.mp hlast)
    have hne : (p ++ [b]).length ≠ g.bytes.length := fun hl => hlast (hpre.eq_of_length hl)
    have hprog := h.progress.extend hget hpre (lt_of_le_of_ne hpre.length_le hne)
    rw [irqHdl_open hopen] at he
    subst he
    refine ⟨k,p ++ [b],hsafe,h.le,h.near,hprog,⟨hdet.1,hdet.2,hdet.3⟩,h.stop_eq,?_⟩
    simp only [Iterating,hpc]
    exact hi

theorem timer_framing {frames : List Frame} {s s' : System} {j k : ℕ} {p : List UInt8}
    (h : Framing frames s j k p) (hf : Framed frames s .timer) (he : step s .timer = some s') :
    Framing frames s' j k [] := by
  have hsafe := step_safe h.safe hf.undisturbing.1 hf.undisturbing.2 he
  obtain ⟨hdown,m,hm,hrec⟩ := hf
  have hpc := TaskPc.eq_down hdown
  have hi := h.iterating
  simp only [Iterating,hpc] at hi
  obtain rfl := h.progress.part_nil wire_ne_nil hm hrec
  have hw := h.positions.1.ring.wpos_eq
  rw [h.positions.1.size,h.progress.length_eq] at hw
  simp only [step] at he
  split at he
  · cases he
    refine ⟨hsafe,h.le,h.near,h.progress,⟨rfl,rfl,rfl⟩,hw,?_⟩
    simp only [Iterating,hpc]
    exact ⟨hi.1,fun _ => Nat.succ_pos _⟩
  · cases he

/-- Frames that arrive only after the previous one has been taken. -/
def InStep (frames : List Frame) (s : System) (a : Act) : Prop := Framed frames s a ∧ CaughtUp frames s a

instance (frames : List Frame) (s : System) (a : Act) : Decidable (InStep frames s a) :=
  inferInstanceAs (Decidable (_ ∧ _))

theorem step_framing {frames : List Frame} {s s' : System} {a : Act}
    (h : ∃ j k p, Framing frames s j k p) (hf : InStep frames s a) (he : step s a = some s') :
    ∃ j k p, Framing frames s' j k p := by
  obtain ⟨j,k,p,h⟩ := h
  cases a with
  | byte b =>
    obtain ⟨k',p',h'⟩ := byte_framing h hf.1 hf.2 he
    exact ⟨j,k',p',h'⟩
  | timer => exact ⟨j,k,[],timer_framing h hf.1 he⟩
  | task mem =>
    obtain ⟨j',h'⟩ := taskStep_framing h hf.1 he
    exact ⟨j',k,p,h'⟩

theorem Framing.handedOver {frames : List Frame} {s : System} {j k : ℕ} {p : List UInt8}
    (h : Framing frames s j k p) : HandedOver frames s := by
  have hi := h.iterating
  unfold Iterating at hi
  refine ⟨?_,fun hdown hsema m hm hpre => ?_⟩
  · cases hpc : s.pc <;> simp only [hpc] at hi
    case compare => exact hi ▸ List.take_prefix _ _
    all_goals exact hi.1 ▸ List.take_prefix _ _
  · simp only [TaskPc.eq_down hdown] at hi
    obtain rfl : j = k := by
      have hle := h.le
      by_contra hne
      have := hi.2 (by omega)
      omega
    have hmj := h.progress.le_of_length wire_ne_nil hm hpre.length_le
    rw [hi.1]
    exact List.take_prefix_take_left hmj

/-- In every run in which each frame ends only after the task has taken all
frames before it, bus.recv is called once per frame, in order, with exactly the
bytes of that frame. -/
theorem framed_run_handedOver {frames : List Frame} {s : System} {as : List Act}
    (h : Runs (guarded (InStep frames) step) start as s) : HandedOver frames s := by
  obtain ⟨_,_,_,hf⟩ := h.guarded_invariant (fun _ _ _ hs hg he => step_framing hs hg he)
    ⟨0,0,[],framing_start frames⟩
  exact hf.handedOver

/-- The shortest frame: a header without payload. -/
def headerFrame : Frame := ⟨[0x2B,0x1A,0,0,6,0],by decide,by decide,by decide,by decide⟩

/-- The bytes of one such frame, and one iteration of the task. -/
def frameIn : List Act := headerFrame.bytes.map .byte
def iteration : List Act := List.replicate 8 (.task (some fun _ => 0))

theorem framed_run_handedOver_two : ∃ s, Runs (guarded (InStep [headerFrame,headerFrame]) step) start
    (frameIn ++ iteration ++ frameIn ++ iteration) s ∧ s.delivered.length = 2 ∧
    HandedOver [headerFrame,headerFrame] s := by
  refine Runs.exists_of_exec (fun s => s.delivered.length) (v := 2) rfl ?_
  intro s hrun hd
  exact ⟨hd,framed_run_handedOver hrun⟩

/-- Two frames that end before the task runs reach bus.recv as one buffer. -/
theorem merged_frames : ¬ ∀ frames s as, Runs (guarded (Framed frames) step) start as s →
    HandedOver frames s := by
  intro hall
  obtain ⟨s,hs,hd⟩ : ∃ s, exec (guarded (Framed [headerFrame,headerFrame]) step) start
      (frameIn ++ frameIn ++ iteration) = some s ∧
      s.delivered = [headerFrame.bytes ++ headerFrame.bytes] := ⟨_,rfl,by decide⟩
  have hpre := (hall _ _ _ (Runs.of_exec hs)).1
  rw [hd] at hpre
  exact absurd hpre (by decide)

end FmacSdk.UartBus
