import FmacSdk.Foundation.CString
import FmacSdk.Foundation.Transition
import FmacSdk.Project.Atcmd

/-! # The credentials behind AT+SSID and AT+KEY

The two handlers with what they print and with the reads of the buffer on their
stack, which strncpy fills up to its bound but never terminates. Printing is kept
as the format and the bytes that it is given.
-/
namespace FmacSdk.Syscfg
open CString Transition

inductive Reply
  | print (fmt : String) (args : List (List UInt8))
  | ok
  | error
deriving DecidableEq, Repr

/-- atcmd_resp prints the name of the command, the text and OK. -/
def atcmdResp (fmt : String) (args : List (List UInt8)) : List Reply := [.print fmt args,.ok]

/-- What a handler leaves: the world, its answer, and a bound on the bytes of
its local buffer that it read. -/
structure Outcome where
  world : World
  replies : List Reply
  reads : ℕ

namespace Console
variable (drv : Driver) (w : World) (argv : ℕ → List UInt8) (argc : ℕ) (stack : ℕ → UInt8)

def sysWifiAtcmdSetSsid : Outcome :=
  let ifidx := ifidxOf w.cfgs.wifiMode false
  let ssidLen := (argv 0).length % 2 ^ 8
  if asks argv argc then ⟨w,[.print "SSID: %s" [w.cfgs.ssid],.ok],0⟩
  else if argc = 1 then
    if ssidLen > SSID_MAX_LEN then
      ⟨w,[.print "Input SSID length is %d, > SSID_MAX_LEN(32)" [[ssidLen.toUInt8]],.error],0⟩
    else
      let ssid := strncpy SSID_MAX_LEN (argv 0) stack
      let cmp := strncmp SSID_MAX_LEN w.cfgs.ssid ssid
      if cmp.1 = false then
        let new := strncpyFrom SSID_MAX_LEN ssid
        let psk := if w.cfgs.passwd.length > 0 then drv.wpaPassphrase new.1 w.cfgs.passwd else w.cfgs.psk
        ⟨syscfgSave ((w.store { w.cfgs with bssid := 0, ssid := new.1, psk := psk }).call
          ([.conf WIFI_MODE_STA .bssid [],.conf WIFI_MODE_WNBSTA .bssid []] ++ eachAp ifidx fun i =>
            [.conf i .ssid (new.1.map UInt8.toNat),.conf i .psk [psk.toNat]])),
          [.print "set new ssid: %s" [new.1],.ok],max cmp.2 new.2⟩
      else ⟨w,[.print "set same ssid: %s" [w.cfgs.ssid]],cmp.2⟩
  else ⟨w,[.error],0⟩

def sysWifiAtcmdSetKey : Outcome :=
  let ifidx := ifidxOf w.cfgs.wifiMode false
  if asks argv argc then ⟨w,atcmdResp "+KEY" [] ++ atcmdResp "%s" [w.cfgs.passwd],0⟩
  else if argc = 1 then
    if (argv 0).length < 8 then ⟨w,atcmdResp "key needs 8 bytes at least" [] ++ [.error],0⟩
    else
      let passwd := strncpy PASSWD_MAX_LEN (argv 0) stack
      let cmp := strcmp w.cfgs.passwd passwd
      if cmp.1 = false then
        let new := strncpyFrom PASSWD_MAX_LEN passwd
        let psk := if w.cfgs.ssid.length > 0 then drv.wpaPassphrase w.cfgs.ssid new.1 else w.cfgs.psk
        ⟨syscfgSave ((w.store { w.cfgs with passwd := new.1, psk := psk }).call
          (eachAp ifidx fun i => [.conf i .psk [psk.toNat]])),
          (if w.cfgs.ssid.length > 0 then [.print "Wpa_passphrase..." []] else [])
            ++ atcmdResp "Set new key:%s" [new.1] ++ [.ok],max cmp.2 new.2⟩
      else ⟨w,atcmdResp "Set same Key!" [],cmp.2⟩
  else ⟨w,[],0⟩

end Console

/-- Strings as the arrays of 33 bytes hold them. -/
structure Strings (c : SysConfig) : Prop where
  passwd_ne : c.passwd ≠ []
  ssid_nul : 0 ∉ c.ssid
  passwd_nul : 0 ∉ c.passwd
  ssid_length : c.ssid.length ≤ SSID_MAX_LEN
  passwd_length : c.passwd.length ≤ PASSWD_MAX_LEN

inductive AtName
  | ssid | key
deriving DecidableEq, Repr

/-- A command line as the handler gets it, and what the stack holds at that time. -/
structure AtLine where
  name : AtName
  argv : ℕ → List UInt8
  argc : ℕ
  stack : ℕ → UInt8
  terminated : ∀ i, 0 ∉ argv i

variable (drv : Driver)

abbrev Derived (c : SysConfig) : Prop := c.psk = drv.wpaPassphrase c.ssid c.passwd

def AtLine.run (w : World) (l : AtLine) : Outcome :=
  match l.name with
  | .ssid => Console.sysWifiAtcmdSetSsid drv w l.argv l.argc l.stack
  | .key => Console.sysWifiAtcmdSetKey drv w l.argv l.argc l.stack

def AtLine.stored (l : AtLine) (c : SysConfig) : List UInt8 :=
  match l.name with
  | .ssid => c.ssid
  | .key => c.passwd

/-- The query that the console documents. -/
abbrev AtLine.Query (l : AtLine) : Prop := l.argc = 1 ∧ l.argv 0 = [63]

/-- What a command keeps and promises. -/
structure Honest (w : World) (l : AtLine) (o : Outcome) : Prop where
  psk : Derived drv o.world.cfgs
  accepted : .ok ∈ o.replies → .error ∉ o.replies → ¬ l.Query → l.stored o.world.cfgs = l.argv 0
  rejected : .error ∈ o.replies → o.world = w
  reads : o.reads ≤ SSID_MAX_LEN

/-- The arguments that a handler deals with as it says. -/
abbrev AtLine.Fits (c : SysConfig) (l : AtLine) : Prop :=
  if asks l.argv l.argc then l.argv 0 = [63] ∨ l.stored c = l.argv 0
  else l.argc = 1 →
    (l.name = .ssid → (l.argv 0).length ≤ SSID_MAX_LEN ∨
      SSID_MAX_LEN < (l.argv 0).length % 2 ^ 8 ∨ c.ssid = (l.argv 0).take SSID_MAX_LEN) ∧
    (l.name = .key → 8 ≤ (l.argv 0).length → (l.argv 0).length ≤ PASSWD_MAX_LEN ∧
      ¬ ((l.argv 0).length = PASSWD_MAX_LEN ∧ c.passwd = l.argv 0) ∧
      (c.ssid ≠ [] ∨ drv.wpaPassphrase [] (l.argv 0) = c.psk))

variable {drv} {w : World} {l : AtLine}

/-- An answer without a change, in which nothing local was read. -/
theorem honest_unchanged_iff (hd : Derived drv w.cfgs) {replies : List Reply} {n : ℕ} :
    Honest drv w l ⟨w,replies,n⟩ ↔
      (.ok ∈ replies → .error ∉ replies → ¬ l.Query → l.stored w.cfgs = l.argv 0) ∧
        n ≤ SSID_MAX_LEN :=
  ⟨fun h => ⟨h.accepted,h.reads⟩,fun h => ⟨hd,h.1,fun _ => rfl,h.2⟩⟩

/-- An answer of OK alone, to a command that is no query. -/
theorem honest_accepted_iff {o : Outcome} (hok : .ok ∈ o.replies) (herr : .error ∉ o.replies)
    (hq : ¬ l.Query) : Honest drv w l o ↔
      Derived drv o.world.cfgs ∧ l.stored o.world.cfgs = l.argv 0 ∧ o.reads ≤ SSID_MAX_LEN :=
  ⟨fun h => ⟨h.psk,h.accepted hok herr hq,h.reads⟩,
    fun h => ⟨h.1,fun _ _ _ => h.2.1,fun he => absurd he herr,h.2.2⟩⟩

theorem AtLine.stored_ssid (hl : l.name = .ssid) (c : SysConfig) : l.stored c = c.ssid := by
  rw [AtLine.stored,hl]

theorem AtLine.stored_key (hl : l.name = .key) (c : SysConfig) : l.stored c = c.passwd := by
  rw [AtLine.stored,hl]

theorem AtLine.not_query (h : ¬ asks l.argv l.argc) : ¬ l.Query :=
  fun hq => h ⟨hq.1,by simp [hq.2]⟩

/-- A question mark is answered with OK, whatever follows it. -/
theorem honest_asks_iff (hd : Derived drv w.cfgs) (h : asks l.argv l.argc) :
    Honest drv w l (l.run drv w) ↔ l.Fits drv w.cfgs := by
  have hreplies : ∃ replies, l.run drv w = ⟨w,replies,0⟩ ∧ .ok ∈ replies ∧ .error ∉ replies := by
    unfold AtLine.run
    split
    · exact ⟨_,if_pos h,by simp,by simp⟩
    · exact ⟨_,if_pos h,by simp [atcmdResp],by simp [atcmdResp]⟩
  obtain ⟨replies,hrun,hok,herr⟩ := hreplies
  rw [hrun,honest_unchanged_iff hd,AtLine.Fits,if_pos h]
  constructor
  · intro hh
    by_cases hq : l.argv 0 = [63]
    · exact Or.inl hq
    · exact Or.inr (hh.1 hok herr fun hquery => hq hquery.2)
  · intro hh
    exact ⟨fun _ _ hq => hh.resolve_left fun he => hq ⟨h.1,he⟩,Nat.zero_le _⟩

theorem honest_ssid_iff (hs : Strings w.cfgs) (hd : Derived drv w.cfgs) (hl : l.name = .ssid)
    (ha : ¬ asks l.argv l.argc) (hc : l.argc = 1) :
    Honest drv w l (l.run drv w) ↔ l.Fits drv w.cfgs := by
  have hfits : l.Fits drv w.cfgs ↔ (l.argv 0).length ≤ SSID_MAX_LEN ∨
      SSID_MAX_LEN < (l.argv 0).length % 2 ^ 8 ∨ w.cfgs.ssid = (l.argv 0).take SSID_MAX_LEN := by
    rw [AtLine.Fits,if_neg ha]
    simp [hc,hl]
  have hcmp := strncmp_fst_iff (n := SSID_MAX_LEN) (b := l.stack) hs.ssid_nul (l.terminated 0)
  rw [List.take_of_length_le hs.ssid_length] at hcmp
  rw [hfits]
  simp only [AtLine.run,hl,Console.sysWifiAtcmdSetSsid,if_neg ha,if_pos hc]
  by_cases hlen : (l.argv 0).length % 2 ^ 8 > SSID_MAX_LEN
  · rw [if_pos hlen,honest_unchanged_iff hd]
    exact iff_of_true ⟨by simp,Nat.zero_le _⟩ (Or.inr (Or.inl hlen))
  · rw [if_neg hlen]
    by_cases hsame : w.cfgs.ssid = (l.argv 0).take SSID_MAX_LEN
    · rw [if_neg (by simp [hcmp.mpr hsame]),honest_unchanged_iff hd]
      simp [hsame,strncmp_snd_le]
    · rw [if_pos (by simpa using mt hcmp.mp hsame),strncpyFrom_strncpy (l.terminated 0),
        if_pos (List.length_pos_iff.mpr hs.passwd_ne)]
      rw [honest_accepted_iff (by simp) (by simp) (l.not_query ha),l.stored_ssid hl]
      constructor
      · rintro ⟨-,hstored,-⟩
        exact Or.inl (take_eq_self_iff_length.mp hstored)
      · intro h
        have hfit := (h.resolve_right fun h => h.elim hlen hsame)
        exact ⟨rfl,take_eq_self_iff_length.mpr hfit,max_le (strncmp_snd_le _ _ _) (strncpyFrom_snd_le _ _)⟩

theorem derived_ite_iff {s : List UInt8} {p : BitVec 256} {f : List UInt8 → BitVec 256} :
    (if s.length > 0 then f s else p) = f s ↔ s ≠ [] ∨ f [] = p := by
  cases s with
  | nil => simp [eq_comm]
  | cons c s => simp

/-- A key behind the buffer's bound is cut, and one that fills the buffer is
compared past it when it is the stored one. -/
theorem honest_key_iff (hs : Strings w.cfgs) (hd : Derived drv w.cfgs) (hl : l.name = .key)
    (ha : ¬ asks l.argv l.argc) (hc : l.argc = 1) :
    Honest drv w l (l.run drv w) ↔ l.Fits drv w.cfgs := by
  have hfits : l.Fits drv w.cfgs ↔ (8 ≤ (l.argv 0).length → (l.argv 0).length ≤ PASSWD_MAX_LEN ∧
      ¬ ((l.argv 0).length = PASSWD_MAX_LEN ∧ w.cfgs.passwd = l.argv 0) ∧
      (w.cfgs.ssid ≠ [] ∨ drv.wpaPassphrase [] (l.argv 0) = w.cfgs.psk)) := by
    rw [AtLine.Fits,if_neg ha]
    simp [hc,hl]
  have hcmp := strcmp_fst_iff (b := l.stack) hs.passwd_nul (l.terminated 0) hs.passwd_length
  have hreads := strcmp_snd_le_iff (b := l.stack) hs.passwd_nul (l.terminated 0) hs.passwd_length
  rw [hfits]
  simp only [AtLine.run,hl,Console.sysWifiAtcmdSetKey,if_neg ha,if_pos hc]
  by_cases hlen : (l.argv 0).length < 8
  · rw [if_pos hlen,honest_unchanged_iff hd]
    exact iff_of_true ⟨by simp,Nat.zero_le _⟩ fun h => absurd hlen (not_lt.mpr h)
  · rw [if_neg hlen,imp_iff_right (not_lt.mp hlen)]
    by_cases hsame : (strcmp w.cfgs.passwd (strncpy PASSWD_MAX_LEN (l.argv 0) l.stack)).1 = true
    · have hstored := (hcmp.mp hsame).1
      rw [if_neg (by simp [hsame]),honest_accepted_iff (by simp [atcmdResp]) (by simp [atcmdResp])
        (l.not_query ha),l.stored_key hl]
      constructor
      · rintro ⟨-,heq,hle⟩
        have hsize : (l.argv 0).length ≤ PASSWD_MAX_LEN := heq ▸ hs.passwd_length
        refine ⟨hsize,?_,?_⟩
        · rintro ⟨hfull,-⟩
          exact hreads.mp hle ⟨heq ▸ hfull,hstored⟩
        · rw [hd,heq]
          by_cases hempty : w.cfgs.ssid = []
          · exact Or.inr (by rw [hempty])
          · exact Or.inl hempty
      · rintro ⟨hsize,hfull,-⟩
        rw [List.take_of_length_le hsize] at hstored hreads
        refine ⟨hd,hstored,hreads.mpr fun h => hfull ⟨?_,h.2⟩⟩
        rw [← h.2]
        exact h.1
    · rw [if_pos (by simpa using hsame),strncpyFrom_strncpy (l.terminated 0),
        honest_accepted_iff (by simp [atcmdResp]) (by split <;> simp [atcmdResp]) (l.not_query ha),
        l.stored_key hl]
      have hderived := derived_ite_iff (s := w.cfgs.ssid) (p := w.cfgs.psk)
        (f := fun s => drv.wpaPassphrase s ((l.argv 0).take PASSWD_MAX_LEN))
      have hbound : max (strcmp w.cfgs.passwd (strncpy PASSWD_MAX_LEN (l.argv 0) l.stack)).2
          (strncpyFrom PASSWD_MAX_LEN (strncpy PASSWD_MAX_LEN (l.argv 0) l.stack)).2 ≤ SSID_MAX_LEN ↔
          ¬ (w.cfgs.passwd.length = PASSWD_MAX_LEN ∧ w.cfgs.passwd = (l.argv 0).take PASSWD_MAX_LEN) := by
        exact Nat.max_le.trans ((and_iff_left (strncpyFrom_snd_le PASSWD_MAX_LEN _)).trans hreads)
      rw [hbound]
      refine (and_congr hderived (and_congr take_eq_self_iff_length Iff.rfl)).trans ?_
      constructor
      · rintro ⟨hpsk,hsize,hfull⟩
        rw [List.take_of_length_le hsize] at hpsk hfull
        exact ⟨hsize,fun h => hfull ⟨by rw [h.2]; exact h.1,h.2⟩,hpsk⟩
      · rintro ⟨hsize,hfull,hpsk⟩
        rw [List.take_of_length_le hsize]
        exact ⟨hpsk,hsize,fun h => hfull ⟨by rw [← h.2]; exact h.1,h.2⟩⟩

/-- What the handlers leave is what they leave without a look at the buffer, but
for a key that fills it. -/
theorem run_world (hs : Strings w.cfgs) (l : AtLine)
    (hfull : l.name = .key → w.cfgs.passwd.length = PASSWD_MAX_LEN → l.stack PASSWD_MAX_LEN = 0) :
    (l.run drv w).world = match l.name with
      | .ssid => sysWifiAtcmdSetSsid drv w l.argv l.argc
      | .key => sysWifiAtcmdSetKey drv w l.argv l.argc := by
  have hssid := strncmp_fst_iff (n := SSID_MAX_LEN) (b := l.stack) hs.ssid_nul (l.terminated 0)
  have hkey := strcmp_fst_iff (b := l.stack) hs.passwd_nul (l.terminated 0) hs.passwd_length
  cases hl : l.name with
  | ssid =>
    simp only [AtLine.run,hl,Console.sysWifiAtcmdSetSsid,sysWifiAtcmdSetSsid]
    by_cases ha : asks l.argv l.argc
    · rw [if_pos ha,if_pos ha]
    · by_cases hc : l.argc = 1
      · rw [if_neg ha,if_neg ha,if_pos hc]
        by_cases hlen : (l.argv 0).length % 2 ^ 8 > SSID_MAX_LEN
        · rw [if_pos hlen,if_neg fun h => absurd hlen (not_lt.mpr h.2.1)]
        · rw [if_neg hlen,strncpyFrom_strncpy (l.terminated 0)]
          by_cases hsame : w.cfgs.ssid.take SSID_MAX_LEN = (l.argv 0).take SSID_MAX_LEN
          · rw [if_neg (by simp [hssid.mpr hsame]),if_neg fun h => h.2.2 hsame]
          · have hnew : l.argc = 1 ∧ (l.argv 0).length % 2 ^ 8 ≤ SSID_MAX_LEN ∧
                w.cfgs.ssid.take SSID_MAX_LEN ≠ (l.argv 0).take SSID_MAX_LEN :=
              ⟨hc,not_lt.mp hlen,hsame⟩
            rw [if_pos (by simpa using mt hssid.mp hsame),if_pos hnew]
      · rw [if_neg ha,if_neg ha,if_neg hc,if_neg fun h => hc h.1]
  | key =>
    simp only [AtLine.run,hl,Console.sysWifiAtcmdSetKey,sysWifiAtcmdSetKey]
    by_cases ha : asks l.argv l.argc
    · rw [if_pos ha,if_pos ha]
    · by_cases hc : l.argc = 1
      · rw [if_neg ha,if_neg ha,if_pos hc]
        by_cases hlen : (l.argv 0).length < 8
        · rw [if_pos hlen,if_neg fun h => absurd hlen (not_lt.mpr h.2.1)]
        · rw [if_neg hlen,strncpyFrom_strncpy (l.terminated 0)]
          by_cases hsame : w.cfgs.passwd = (l.argv 0).take PASSWD_MAX_LEN
          · rw [if_neg (by simp [hkey.mpr ⟨hsame,hfull hl⟩]),if_neg fun h => h.2.2 hsame]
          · have hnew : l.argc = 1 ∧ (l.argv 0).length ≥ 8 ∧
                w.cfgs.passwd ≠ (l.argv 0).take PASSWD_MAX_LEN := ⟨hc,not_lt.mp hlen,hsame⟩
            have hdiffer : ¬ _ = true := fun h => hsame (hkey.mp h).1
            rw [if_pos (by simpa using hdiffer),if_pos hnew]
      · rw [if_neg ha,if_neg ha,if_neg hc,if_neg fun h => hc h.1]

theorem honest_iff (hs : Strings w.cfgs) (hd : Derived drv w.cfgs) (l : AtLine) :
    Honest drv w l (l.run drv w) ↔ l.Fits drv w.cfgs := by
  by_cases ha : asks l.argv l.argc
  · exact honest_asks_iff hd ha
  · by_cases hc : l.argc = 1
    · cases hl : l.name with
      | ssid => exact honest_ssid_iff hs hd hl ha hc
      | key => exact honest_key_iff hs hd hl ha hc
    · have hfits : l.Fits drv w.cfgs := by
        rw [AtLine.Fits,if_neg ha]
        exact fun h => absurd h hc
      refine iff_of_true ?_ hfits
      cases hl : l.name with
      | ssid =>
        simp only [AtLine.run,hl,Console.sysWifiAtcmdSetSsid,if_neg ha,if_neg hc]
        exact (honest_unchanged_iff hd).mpr ⟨by simp,Nat.zero_le _⟩
      | key =>
        simp only [AtLine.run,hl,Console.sysWifiAtcmdSetKey,if_neg ha,if_neg hc]
        exact (honest_unchanged_iff hd).mpr ⟨by simp,Nat.zero_le _⟩

/-- No command leaves a string that its array cannot hold. -/
theorem run_strings (hs : Strings w.cfgs) (l : AtLine) : Strings (l.run drv w).world.cfgs := by
  have hnul (n : ℕ) : 0 ∉ (l.argv 0).take n := fun h => l.terminated 0 (List.mem_of_mem_take h)
  unfold AtLine.run
  split
  · unfold Console.sysWifiAtcmdSetSsid
    dsimp only
    split
    · exact hs
    · split
      · split
        · exact hs
        · split
          · rw [strncpyFrom_strncpy (l.terminated 0)]
            exact { hs with ssid_nul := hnul _, ssid_length := List.length_take_le _ _ }
          · exact hs
      · exact hs
  · unfold Console.sysWifiAtcmdSetKey
    dsimp only
    split
    · exact hs
    · split
      · split
        · exact hs
        · next hlen =>
          split
          · rw [strncpyFrom_strncpy (l.terminated 0)]
            have hne : (l.argv 0).take PASSWD_MAX_LEN ≠ [] := by
              apply List.ne_nil_of_length_pos
              rw [List.length_take]
              unfold PASSWD_MAX_LEN
              omega
            exact { hs with
              passwd_ne := hne, passwd_nul := hnul _, passwd_length := List.length_take_le _ _ }
          · exact hs
      · exact hs

def atStep (drv : Driver) (w : World) (l : AtLine) : Option World := some (l.run drv w).world

/-- From a state whose key belongs to its strings, every command is honest
exactly if each has an argument that its handler deals with. -/
theorem honest_along_iff {w w' : World} {ls : List AtLine} (hs : Strings w.cfgs)
    (hd : Derived drv w.cfgs) (h : Runs (atStep drv) w ls w') :
    (∀ ms l u, ms ++ [l] <+: ls → Runs (atStep drv) w ms u → Honest drv u l (l.run drv u)) ↔
      Runs (guarded (fun (u : World) (l : AtLine) => l.Fits drv u.cfgs) (atStep drv)) w ls w' := by
  refine Runs.guarded_iff_steps (I := fun u => Strings u.cfgs ∧ Derived drv u.cfgs)
    (Q := fun u l => Honest drv u l (l.run drv u)) ?_ (fun u l hu => honest_iff hu.1 hu.2 l) ⟨hs,hd⟩ h
  intro u l v hu hfits hv
  obtain rfl : (l.run drv u).world = v := by simpa [atStep] using hv
  exact ⟨run_strings hu.1 l,((honest_iff hu.1 hu.2 l).mpr hfits).psk⟩

/-- A driver whose key depends on both strings. -/
def spellDriver : Driver where
  answer := zeroDriver.answer
  wmmParam := zeroDriver.wmmParam
  sysctrlFreqTypeMatch := zeroDriver.sysctrlFreqTypeMatch
  wpaPassphrase s p := BitVec.ofNat 256 (spell ((s ++ 0 :: p).map UInt8.toNat))

def atLine (name : AtName) (s : List UInt8) (h : 0 ∉ s) : AtLine :=
  ⟨name,fun _ => s,1,fun _ => 255,fun _ => h⟩

def fieldedCfgs : SysConfig :=
  { booted.cfgs with
    ssid := bytes ['a','p']
    passwd := bytes ['1','2','3','4','5','6','7','8']
    psk := spellDriver.wpaPassphrase (bytes ['a','p']) (bytes ['1','2','3','4','5','6','7','8']) }

def fielded : World := booted.store fieldedCfgs

theorem fielded_strings : Strings fielded.cfgs :=
  ⟨by decide,by decide,by decide,by decide,by decide⟩

theorem honest_along_iff_fielded : ∃ l : AtLine, l.argv 0 = bytes ['n','e','t'] ∧
    Honest spellDriver fielded l (l.run spellDriver fielded) := by
  refine ⟨atLine .ssid (bytes ['n','e','t']) (by decide),rfl,?_⟩
  obtain ⟨w',hw⟩ : ∃ w', exec (guarded (fun (u : World) (l : AtLine) => l.Fits spellDriver u.cfgs)
      (atStep spellDriver)) fielded [atLine .ssid (bytes ['n','e','t']) (by decide)] = some w' := ⟨_,rfl⟩
  have hrun := Runs.of_exec hw
  exact (honest_along_iff fielded_strings rfl hrun.of_guarded).mpr hrun [] _ fielded
    (List.prefix_refl _) (Runs.refl _)

theorem zero_not_mem_replicate (n : ℕ) : (0 : UInt8) ∉ List.replicate n 97 := by
  intro h
  exact absurd (List.eq_of_mem_replicate h) (by decide)

/-- A key of 33 bytes is cut and accepted, and so is a name of 259 bytes, whose
length is 3 as a uint8. -/
theorem long_arguments : (Strings fielded.cfgs ∧ Derived spellDriver fielded.cfgs) ∧
    (∃ l : AtLine, l.argv 0 = List.replicate 33 97 ∧
      ¬ Honest spellDriver fielded l (l.run spellDriver fielded)) ∧
    ∃ l : AtLine, l.argv 0 = List.replicate 259 97 ∧
      ¬ Honest spellDriver fielded l (l.run spellDriver fielded) := by
  refine ⟨⟨fielded_strings,rfl⟩,?_,?_⟩
  · refine ⟨atLine .key _ (zero_not_mem_replicate 33),rfl,?_⟩
    rw [honest_iff fielded_strings rfl]
    decide
  · refine ⟨atLine .ssid _ (zero_not_mem_replicate 259),rfl,?_⟩
    rw [honest_iff fielded_strings rfl]
    simp only [AtLine.Fits,atLine,List.length_replicate]
    decide

end FmacSdk.Syscfg
