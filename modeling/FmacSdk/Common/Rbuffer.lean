import FmacSdk.Foundation.RingWindow

/-! # The ring buffer macros of rbuffer.h

A ring is a read index, a write index, a size and the storage. One slot stays
free, so that equal indices always mean an empty ring. Every macro is stated
over unbounded positions whose residues the indices are.
-/
namespace FmacSdk.Rbuffer
open RingWindow

/-- The fields of a ring; `rbq` is memory addressed from the start of the buffer. -/
structure RBuffer (α : Type*) where
  rpos : ℕ
  wpos : ℕ
  qsize : ℕ
  rbq : ℕ → α

variable {α : Type*}

/-- RB_NPOS: the index `i` slots behind `pos`. -/
def npos (qsize pos i : ℕ) : ℕ := if pos + i ≥ qsize then pos + i - qsize else pos + i

/-- RB_FULL -/
def full (rb : RBuffer α) : Bool := npos rb.qsize rb.wpos 1 == rb.rpos

/-- RB_COUNT -/
def count (rb : RBuffer α) : ℕ :=
  if rb.rpos ≤ rb.wpos then rb.wpos - rb.rpos else rb.qsize - rb.rpos + rb.wpos

/-- RB_EMPTY -/
def empty (rb : RBuffer α) : Bool := rb.wpos == rb.rpos

/-- RB_GET: an empty ring leaves the result variable as it was. -/
def get (rb : RBuffer α) (val : α) : RBuffer α × α :=
  if empty rb then (rb,val)
  else ({ rb with rpos := npos rb.qsize rb.rpos 1 },rb.rbq rb.rpos)

/-- RB_SET: a full ring drops the value. -/
def set (rb : RBuffer α) (v : α) : RBuffer α :=
  if full rb then rb
  else { rb with rbq := Function.update rb.rbq rb.wpos v, wpos := npos rb.qsize rb.wpos 1 }

/-- RB_INIT_R -/
def init (size : ℕ) (buff : ℕ → α) : RBuffer α := ⟨0,0,size,buff⟩

theorem npos_residue {q p i : ℕ} (hq : 0 < q) (hi : i ≤ q) : npos q (p % q) i = (p + i) % q := by
  rw [residue_add hi hq]
  unfold npos
  split <;> split <;> omega

/-- The indices are the residues of a read and a write position less than one
revolution apart. -/
structure At (rb : RBuffer α) (r w : ℕ) : Prop where
  rpos_eq : rb.rpos = r % rb.qsize
  wpos_eq : rb.wpos = w % rb.qsize
  le : r ≤ w
  lt : w < r + rb.qsize

theorem init_at {size : ℕ} (hs : 0 < size) (buff : ℕ → α) : At (init size buff) 0 0 :=
  ⟨by simp [init],by simp [init],le_rfl,by simpa [init] using hs⟩

variable {rb : RBuffer α} {r w : ℕ}

theorem At.qsize_pos (h : At rb r w) : 0 < rb.qsize := by
  have := h.le
  have := h.lt
  omega

theorem At.rpos_lt (h : At rb r w) : rb.rpos < rb.qsize := h.rpos_eq ▸ Nat.mod_lt _ h.qsize_pos

/-- Any index between the two positions, seen from the read index: it lies
ahead of it or has passed the wrap. -/
theorem At.residue_cases (h : At rb r w) {p : ℕ} (hr : r ≤ p) (hw : p ≤ w) :
    (rb.rpos + (p - r) < rb.qsize ∧ p % rb.qsize = rb.rpos + (p - r)) ∨
    (rb.qsize ≤ rb.rpos + (p - r) ∧ p % rb.qsize + rb.qsize = rb.rpos + (p - r)) := by
  have hlt := h.lt
  have ha := residue_add (p := r) (n := p - r) (q := rb.qsize) (by omega) h.qsize_pos
  rw [Nat.add_sub_cancel' hr, ← h.rpos_eq] at ha
  split at ha <;> omega

theorem At.count (h : At rb r w) : Rbuffer.count rb = w - r := by
  have hr := h.rpos_lt
  have hlt := h.lt
  have hle := h.le
  have hc := h.residue_cases h.le le_rfl
  unfold Rbuffer.count
  rw [h.wpos_eq]
  split <;> omega

theorem At.full_iff (h : At rb r w) : full rb = true ↔ w + 1 = r + rb.qsize := by
  have hr := h.rpos_lt
  have hlt := h.lt
  have hle := h.le
  have hc := h.residue_cases h.le le_rfl
  unfold full npos
  rw [h.wpos_eq, beq_iff_eq]
  split <;> omega

theorem At.wpos_lt (h : At rb r w) : rb.wpos < rb.qsize := h.wpos_eq ▸ Nat.mod_lt _ h.qsize_pos

theorem At.empty_iff (h : At rb r w) : empty rb = true ↔ w = r := by
  have hr := h.rpos_lt
  have hlt := h.lt
  have hle := h.le
  have hc := h.residue_cases h.le le_rfl
  unfold empty
  rw [h.wpos_eq, beq_iff_eq]
  omega

/-- Storing into a ring with room appends to the stored elements. -/
theorem At.set (h : At rb r w) (hf : full rb = false) (v : α) :
    At (Rbuffer.set rb v) r (w + 1) ∧ (Rbuffer.set rb v).qsize = rb.qsize ∧
      (Rbuffer.set rb v).rpos = rb.rpos ∧
      window rb.qsize (Rbuffer.set rb v).rbq r (w + 1 - r) = window rb.qsize rb.rbq r (w - r) ++ [v] := by
  have hroom : w + 1 ≠ r + rb.qsize := fun he => by simp [h.full_iff.mpr he] at hf
  have hlt := h.lt
  have hle := h.le
  have hw : Rbuffer.npos rb.qsize rb.wpos 1 = (w + 1) % rb.qsize := by
    rw [h.wpos_eq,npos_residue h.qsize_pos h.qsize_pos]
  refine ⟨⟨?_,?_,by omega,?_⟩,?_,?_,?_⟩ <;> simp only [Rbuffer.set, hf, Bool.false_eq_true, ↓reduceIte]
  · exact h.rpos_eq
  · exact hw
  · omega
  · rw [h.wpos_eq]
    exact window_write _ _ h.le h.lt

/-- Advancing the read index by RB_NPOS keeps the ring readable from there. -/
theorem At.advance (h : At rb r w) {n : ℕ} (hn : r + n ≤ w) :
    At { rb with rpos := npos rb.qsize rb.rpos n } (r + n) w := by
  have hlt := h.lt
  refine ⟨?_,h.wpos_eq,hn,by simp only; omega⟩
  simp only
  rw [h.rpos_eq,npos_residue h.qsize_pos (by omega)]

end FmacSdk.Rbuffer
