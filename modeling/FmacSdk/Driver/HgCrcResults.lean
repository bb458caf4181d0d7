import FmacSdk.Driver.HgCrc
import FmacSdk.Foundation.Transition
import Mathlib.Logic.Function.Iterate

/-! # Whose result hg_crc_calc returns

One task has requests calculated. The engine finishes each request that was kicked
after some time, loads CRC_OUT and raises its interrupt, whose handler ups a
semaphore; the wait for it may time out before that.
-/
namespace FmacSdk.HgCrcResults
open HgCrc Transition

/-- A request with what its data points to. -/
structure Request where
  req : CrcDevReq
  bytes : List (BitVec 8)
  length : bytes.length = req.len.toNat

/-- What the engine loads into CRC_OUT, from CRC_CFG, CRC_INIT, CRC_INV, CRC_POLY and the data. -/
abbrev Engine := BitVec 32 → BitVec 32 → BitVec 32 → BitVec 32 → List (BitVec 8) → BitVec 32

def Engine.result (e : Engine) (r : Regs) (bytes : List (BitVec 8)) : BitVec 32 :=
  e r.crcCfg r.crcInit r.crcInv r.crcPoly bytes

/-- The locals of hg_crc_calc, with the result that belongs to the request once it is kicked. -/
structure Calc where
  r : Request
  cfg : HgcrcConfig
  cont : Bool
  hold : Bool
  cookie : BitVec 16
  own : BitVec 32

/-- The next statement. -/
inductive Pc
  | out (result : ℤ)
  | program (c : Calc)
  | wait (c : Calc)
  | read (c : Calc) (ok : Bool)

/-- With the results of the requests that the engine works on, the count of the semaphore, the
result of the request kicked last and the type configured last, and the results and stored
values of the calls that returned RET_OK. -/
structure Sys where
  dev : Dev
  regs : Regs
  crcOut : BitVec 32
  working : List (BitVec 32)
  pending : Bool
  done : ℕ
  pc : Pc
  last : BitVec 32
  type : Option ℕ
  given : List (BitVec 32 × BitVec 32)

/-- A call, whose os_mutex_lock of the hold mutex succeeds or not; the registers are written, where
the reset leaves something in CRC_OUT; the engine finishes a request; the interrupt; and the
wait ends or times out, and CRC_OUT is read. -/
inductive Label
  | crcCalc (r : Request) (cont got : Bool) (osJiffies : BitVec 64)
  | program (reset : BitVec 32)
  | finish (k : ℕ)
  | irq
  | down
  | timeout
  | read

section Code
variable (e : Engine)

def Sys.crcCalc (s : Sys) (r : Request) (cont got : Bool) (osJiffies : BitVec 64) : Sys :=
  match r.req.config with
  | .error err => { s with pc := .out err }
  | .ok cfg =>
    let (ret,cookie,dev) := s.dev.hold r.req.cookie got osJiffies
    if ret ≠ RET_OK then { s with pc := .out (-EBUSY) }
    else { s with dev := dev, pc := .program ⟨r,cfg,cont,r.req.cookie = cookie,cookie,0⟩ }

/-- The result that belongs to a request: for one that is continued, from the result before. -/
def Calc.result (c : Calc) (last : BitVec 32) : BitVec 32 :=
  e.result (if c.cont then (c.cfg.regs c.r.req).continued last c.r.req else c.cfg.regs c.r.req) c.r.bytes

def Sys.program (s : Sys) (c : Calc) (reset : BitVec 32) : Sys :=
  let own := c.result e s.last
  let t := if c.cont then { s with regs := s.regs.continued s.crcOut c.r.req }
    else { s with crcOut := reset, regs := c.cfg.regs c.r.req, type := some c.r.req.type }
  { t with working := t.working ++ [e.result t.regs c.r.bytes], last := own, pc := .wait { c with own := own } }

/-- CRC_OUT is stored, and the hold ends unless there was one before. -/
def Sys.read (s : Sys) (c : Calc) (ok : Bool) : Sys :=
  { s with
    given := if ok then (c.own,s.crcOut) :: s.given else s.given
    dev := if c.cont ∨ c.hold then s.dev else (s.dev.unhold c.cookie).2.2
    pc := .out (if ok then RET_OK else RET_ERR) }

def step (s : Sys) : Label → Option Sys
  | .crcCalc r cont got osJiffies => match s.pc with
    | .out _ => some (s.crcCalc r cont got osJiffies)
    | _ => none
  | .program reset => match s.pc with
    | .program c => some (s.program e c reset)
    | _ => none
  | .finish k => match s.working[k]? with
    | some v => some { s with crcOut := v, working := s.working.eraseIdx k, pending := true }
    | none => none
  | .irq => if s.pending then some { s with pending := false, done := s.done + 1 } else none
  | .down => match s.pc with
    | .wait c => if 0 < s.done then some { s with done := s.done - 1, pc := .read c true } else none
    | _ => none
  | .timeout => match s.pc with
    | .wait c => some { s with pc := .read c false }
    | _ => none
  | .read => match s.pc with
    | .read c ok => some (s.read c ok)
    | _ => none

end Code

/-- hg_crc_attach, with what the registers have. -/
def attached (regs : Regs) (out : BitVec 32) : Sys := ⟨⟨0,0⟩,regs,out,[],false,0,.out 0,out,none,[]⟩

/-- The calls that returned RET_OK stored their own results. -/
def Sys.Own (s : Sys) : Prop := ∀ x ∈ s.given, x.2 = x.1

/-- A request is kicked with an earlier one unfinished or its completion not waited for, or one
is continued that is not of the type that is configured. -/
def Confuses (s : Sys) : Label → Prop
  | .program _ => match s.pc with
    | .program c => s.working ≠ [] ∨ s.pending = true ∨ s.done ≠ 0 ∨ (c.cont = true ∧ s.type ≠ some c.r.req.type)
    | _ => False
  | _ => False

instance (s : Sys) (l : Label) : Decidable (Confuses s l) := by
  unfold Confuses
  split
  · split <;> infer_instance
  · infer_instance

/-- The completions on their way. -/
def Sys.completions (s : Sys) : ℕ := s.working.length + s.pending.toNat + s.done

/-- How many of them there are at a statement, and whose. -/
def Sys.At (s : Sys) : Pc → Prop
  | .out _ | .program _ | .read _ false => True
  | .wait c => s.completions = 1 ∧ c.own = s.last
  | .read c true => s.completions = 0 ∧ c.own = s.last

structure Inv (s : Sys) : Prop where
  own : s.Own
  most : s.completions ≤ 1
  working : ∀ v ∈ s.working, v = s.last
  finished : s.working = [] → s.crcOut = s.last
  call : s.At s.pc
  config : ∀ n, s.type = some n → ∃ cfg, hgcrcCfg[n]? = some cfg ∧ s.regs.crcCfg = cfg.cfgReg ∧
    s.regs.crcInv = cfg.xorOut ∧ s.regs.crcPoly = cfg.poly
  asked : ∀ c, s.pc = .program c → c.r.req.config = .ok c.cfg

section Steps
variable {e : Engine} {s t : Sys} {l : Label} {c : Calc} {cfg : HgcrcConfig} {req : CrcDevReq}

theorem Inv.attached (regs : Regs) (out : BitVec 32) : Inv (attached regs out) := by
  refine ⟨?_,?_,?_,?_,?_,?_,?_⟩ <;> simp [HgCrcResults.attached,Sys.Own,Sys.completions,Sys.At]

theorem config_ok (h : req.config = .ok cfg) : hgcrcCfg[req.type]? = some cfg := by
  unfold CrcDevReq.config at h
  split_ifs at h
  split at h
  · next hcfg =>
    obtain rfl := Except.ok.inj h
    exact hcfg
  · cases h

/-- With CRC_OUT that of the request before, a request is kicked for its own result. -/
theorem Inv.kicked (h : Inv s) (hpc : s.pc = .program c) (hidle : s.working = [])
    (htype : c.cont = true → s.type = some c.r.req.type) :
    e.result (if c.cont then s.regs.continued s.crcOut c.r.req else c.cfg.regs c.r.req) c.r.bytes = c.result e s.last := by
  unfold Calc.result
  split_ifs with hcont
  · obtain ⟨cfg,hcfg,hreg,hinv,hpoly⟩ := h.config _ (htype hcont)
    have hasked := config_ok (h.asked c hpc)
    obtain rfl := Option.some.inj (hcfg.symm.trans hasked)
    simp [Engine.result,Regs.continued,HgcrcConfig.regs,hreg,hinv,hpoly,h.finished hidle]
  · rfl

theorem Inv.crcCalc (h : Inv s) (r : Request) (cont got : Bool) (osJiffies : BitVec 64) :
    Inv (s.crcCalc r cont got osJiffies) := by
  unfold Sys.crcCalc
  cases hconfig : r.req.config with
  | error err => exact ⟨h.own,h.most,h.working,h.finished,trivial,h.config,by simp⟩
  | ok cfg =>
    dsimp only
    split_ifs
    · exact ⟨h.own,h.most,h.working,h.finished,trivial,h.config,by simp⟩
    · refine ⟨h.own,h.most,h.working,h.finished,trivial,h.config,fun c hc => ?_⟩
      obtain rfl := Pc.program.inj hc
      exact hconfig

theorem Inv.program (h : Inv s) (hpc : s.pc = .program c) (reset : BitVec 32)
    (hidle : s.working = [] ∧ s.pending = false ∧ s.done = 0) (htype : c.cont = true → s.type = some c.r.req.type) :
    Inv (s.program e c reset) := by
  obtain ⟨hworking,hpending,hdone⟩ := hidle
  have hown := h.kicked (e := e) hpc hworking htype
  have hasked := config_ok (h.asked c hpc)
  unfold Sys.program
  by_cases hcont : c.cont = true
  · rw [if_pos hcont] at hown ⊢
    refine ⟨h.own,?_,?_,?_,?_,fun n hn => ?_,by simp⟩
    · simp [Sys.completions,hworking,hpending,hdone]
    · simp [hworking,hown]
    · simp
    · simp [Sys.At,Sys.completions,hworking,hpending,hdone]
    · exact h.config n hn
  · rw [if_neg hcont] at hown ⊢
    refine ⟨h.own,?_,?_,?_,?_,fun n hn => ?_,by simp⟩
    · simp [Sys.completions,hworking,hpending,hdone]
    · simp [hworking,hown]
    · simp
    · simp [Sys.At,Sys.completions,hworking,hpending,hdone]
    · obtain rfl := Option.some.inj hn
      exact ⟨c.cfg,hasked,rfl,rfl,rfl⟩

/-- A completion goes on its way, and the calls find as many as before. -/
theorem Inv.on (h : Inv s) {out : BitVec 32} {working : List (BitVec 32)} {pending : Bool} {done : ℕ}
    (hcount : working.length + pending.toNat + done = s.completions) (hworking : ∀ v ∈ working, v = s.last)
    (hout : working = [] → out = s.last) :
    Inv { s with crcOut := out, working := working, pending := pending, done := done } := by
  have hcall : Sys.At { s with crcOut := out, working := working, pending := pending, done := done } s.pc := by
    have hat := h.call
    cases hpc : s.pc with
    | out r | program c => trivial
    | wait c =>
      rw [hpc] at hat
      exact ⟨hcount.trans hat.1,hat.2⟩
    | read c ok =>
      rw [hpc] at hat
      cases ok with
      | true => exact ⟨hcount.trans hat.1,hat.2⟩
      | false => trivial
  exact ⟨h.own,Nat.le_trans (Nat.le_of_eq hcount) h.most,hworking,hout,hcall,h.config,h.asked⟩

theorem Inv.read (h : Inv s) {ok : Bool} (hpc : s.pc = .read c ok) : Inv (s.read c ok) := by
  refine ⟨fun x hx => ?_,h.most,h.working,h.finished,trivial,h.config,by simp [Sys.read]⟩
  cases ok with
  | false => exact h.own x hx
  | true =>
    rcases List.mem_cons.mp hx with rfl | hx
    · have hat := h.call
      rw [hpc] at hat
      obtain ⟨hnone,hown⟩ := hat
      have hworking : s.working = [] := by
        apply List.length_eq_zero_iff.mp
        unfold Sys.completions at hnone
        omega
      exact (h.finished hworking).trans hown.symm
    · exact h.own x hx

theorem Inv.step (h : Inv s) (hgood : ¬ Confuses s l) (hs : HgCrcResults.step e s l = some t) : Inv t := by
  cases l with
  | crcCalc r cont got osJiffies =>
    simp only [HgCrcResults.step] at hs
    split at hs
    · obtain rfl := Option.some.inj hs
      exact h.crcCalc r cont got osJiffies
    · cases hs
  | program reset =>
    simp only [HgCrcResults.step] at hs
    split at hs
    · next c hpc =>
      obtain rfl := Option.some.inj hs
      simp only [Confuses,hpc,not_or,not_not,Bool.not_eq_true,not_and] at hgood
      exact h.program hpc reset ⟨hgood.1,hgood.2.1,hgood.2.2.1⟩ hgood.2.2.2
    · cases hs
  | finish k =>
    simp only [HgCrcResults.step] at hs
    split at hs
    · next v hv =>
      obtain rfl := Option.some.inj hs
      obtain ⟨hk,-⟩ := List.getElem?_eq_some_iff.mp hv
      have hlast : v = s.last := h.working v (List.mem_of_getElem? hv)
      have hmost := h.most
      have hlength : (s.working.eraseIdx k).length = s.working.length - 1 := List.length_eraseIdx_of_lt hk
      have hpending : s.pending = false := by
        cases hp : s.pending with
        | false => rfl
        | true =>
          simp only [Sys.completions,hp,Bool.toNat_true] at hmost
          omega
      refine h.on ?_ (fun w hw => h.working w (List.mem_of_mem_eraseIdx hw)) fun _ => hlast
      simp only [Sys.completions,hlength,hpending,Bool.toNat_true,Bool.toNat_false]
      omega
    · cases hs
  | irq =>
    obtain ⟨hpending,hs⟩ := Option.ite_none_right_eq_some.mp hs
    obtain rfl := Option.some.inj hs
    refine h.on ?_ h.working h.finished
    simp only [Sys.completions,hpending,Bool.toNat_true,Bool.toNat_false]
    omega
  | down =>
    simp only [HgCrcResults.step] at hs
    split at hs
    · next c hpc =>
      obtain ⟨hdone,hs⟩ := Option.ite_none_right_eq_some.mp hs
      obtain rfl := Option.some.inj hs
      have hat := h.call
      rw [hpc] at hat
      have hcount : s.working.length + s.pending.toNat + (s.done - 1) = 0 := by
        have hone := hat.1
        unfold Sys.completions at hone
        omega
      exact ⟨h.own,Nat.le_trans (Nat.le_of_eq hcount) (Nat.zero_le 1),h.working,h.finished,⟨hcount,hat.2⟩,h.config,by simp⟩
    · cases hs
  | timeout =>
    simp only [HgCrcResults.step] at hs
    split at hs
    · obtain rfl := Option.some.inj hs
      exact ⟨h.own,h.most,h.working,h.finished,trivial,h.config,by simp⟩
    · cases hs
  | read =>
    simp only [HgCrcResults.step] at hs
    split at hs
    · next c ok hpc =>
      obtain rfl := Option.some.inj hs
      exact h.read hpc
    · cases hs

/-- Where no request is kicked with completions on their way, results belong to their requests. -/
theorem own_run {regs : Regs} {out : BitVec 32} {ls : List Label}
    (h : Runs (guarded (fun s l => ¬ Confuses s l) (HgCrcResults.step e)) (HgCrcResults.attached regs out) ls s) : s.Own := by
  have hinv : Inv s := h.guarded_invariant (fun _ _ _ hi hgood hs => hi.step hgood hs) (Inv.attached regs out)
  exact hinv.own

end Steps

/-- A bit of the data has gone through the remainder. -/
def shift (poly crc : BitVec 32) : BitVec 32 := if crc.getLsbD 0 then (crc >>> 1) ^^^ poly else crc >>> 1

/-- An engine for the types whose data comes in from the right. -/
def fromRight : Engine := fun _ init inv poly bytes =>
  bytes.foldl (fun crc b => (shift poly)^[8] (crc ^^^ b.setWidth 32)) init ^^^ inv

/-- The CRC32 of the digits. -/
example : fromRight crc32Winrar.cfgReg crc32Winrar.initVal crc32Winrar.xorOut crc32Winrar.poly
    [0x31,0x32,0x33,0x34,0x35,0x36,0x37,0x38,0x39] = 0xCBF43926 := by decide +kernel

/-- A request of a type for one byte. -/
def byte (type : ℕ) (cookie : BitVec 16) (b : BitVec 8) : Request := ⟨⟨type,cookie,0x20000000,1⟩,[b],rfl⟩

/-- A calculation is continued. -/
theorem own_continued : ∃ s, Runs (step fromRight) (attached ⟨1,0,0,0,0⟩ 0) [.crcCalc (byte 7 0 0x31) false true 5,.program 0,
      .finish 0,.irq,.down,.read,.crcCalc (byte 7 0 0x32) true true 6,.program 0,.finish 0,.irq,.down,.read] s ∧
    s.given = [(0x4F5344CD,0x4F5344CD),(0x83DCEFB7,0x83DCEFB7)] ∧ s.Own := by
  refine Runs.exists_of_exec_guarded (G := fun s l => ¬ Confuses s l) Sys.given
    (v := [(0x4F5344CD,0x4F5344CD),(0x83DCEFB7,0x83DCEFB7)]) (by decide +kernel) ?_
  intro s hrun hgiven
  exact ⟨hgiven,own_run hrun⟩

/-- The wait for a request times out, and its interrupt ends the wait for the next one: before
the engine has finished that, or with the result of the first; and a request is continued with
the type of the one before. -/
theorem own_fails :
    (∃ s, Runs (step fromRight) (attached ⟨1,0,0,0,0⟩ 0) [.crcCalc (byte 7 0 0x31) false true 5,.program 0,.timeout,.read,
        .finish 0,.irq,.crcCalc (byte 7 0 0x32) false true 6,.program 0,.down,.read] s ∧
      s.given = [(0x1AD5BE0D,0)] ∧ ¬ s.Own) ∧
    (∃ s, Runs (step fromRight) (attached ⟨1,0,0,0,0⟩ 0) [.crcCalc (byte 7 0 0x31) false true 5,.program 0,.timeout,.read,
        .crcCalc (byte 7 0 0x32) false true 6,.program 0,.finish 0,.irq,.down,.read] s ∧
      s.given = [(0x1AD5BE0D,0x83DCEFB7)] ∧ ¬ s.Own) ∧
    ∃ s, Runs (step fromRight) (attached ⟨1,0,0,0,0⟩ 0) [.crcCalc (byte 7 0 0x31) false true 5,.program 0,.finish 0,.irq,
        .down,.read,.crcCalc (byte 4 0 0x32) true true 6,.program 0,.finish 0,.irq,.down,.read] s ∧ ¬ s.Own := by
  refine ⟨?_,?_,?_⟩
  · refine Runs.exists_of_exec Sys.given (v := [(0x1AD5BE0D,0)]) (by decide +kernel) ?_
    intro s _ hgiven
    exact ⟨hgiven,fun h => absurd (h (0x1AD5BE0D,0) (by simp [hgiven])) (by decide)⟩
  · refine Runs.exists_of_exec Sys.given (v := [(0x1AD5BE0D,0x83DCEFB7)]) (by decide +kernel) ?_
    intro s _ hgiven
    exact ⟨hgiven,fun h => absurd (h (0x1AD5BE0D,0x83DCEFB7) (by simp [hgiven])) (by decide)⟩
  · refine Runs.exists_of_exec (fun s => s.given.all fun x => x.2 = x.1) (v := false) (by decide +kernel) ?_
    intro s _ hgiven h
    have hall : s.given.all (fun x => x.2 = x.1) = true := List.all_eq_true.mpr fun x hx => decide_eq_true (h x hx)
    simp [hall] at hgiven

end FmacSdk.HgCrcResults
