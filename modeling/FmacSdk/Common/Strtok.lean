import FmacSdk.Foundation.Objects
import FmacSdk.Foundation.Separators
import Mathlib.Data.List.Forall2

/-! # Splitting a text in place

os_strtok ends each token with a zero over the first byte of the separator behind it.
The text and the argument array are objects, and pointers are places in the text's one.
-/
namespace FmacSdk.Strtok
open Objects Separators

/-- The argument array as far as `cnt` is filled, and the text as it is cut. -/
structure Tokens where
  cnt : ℕ
  buf : List UInt8
  argv : List ℕ

/-- strstr: the place of the first occurrence, or NULL. -/
def osStrstr (buf : List UInt8) (ptr : ℕ) (separator : List UInt8) : Option (Option ℕ) := do
  let s ← text buf ptr
  some ((cut separator s).map fun w => ptr + w.1.length)

/-- while (ptr && cnt < argv_size), with what is left of argv_size as the bound -/
def osStrtokLoop (separator : List UInt8) : ℕ → Option ℕ → Tokens → Option Tokens
  | 0, _, t => some t
  | _ + 1, none, t => some t
  | room + 1, some ptr, t => do
    let buf ← store t.buf ptr 0
    let ptr := ptr + separator.length
    let rest ← text buf ptr
    if rest = [] then some ⟨t.cnt,buf,t.argv⟩
    else
      let argv ← store t.argv t.cnt ptr
      let next ← osStrstr buf ptr separator
      osStrtokLoop separator room next ⟨t.cnt + 1,buf,argv⟩

def osStrtok (buf : List UInt8) (str : Option ℕ) (separator : Option (List UInt8)) (argv : Option (List ℕ))
    (argvSize : ℤ) : Option Tokens :=
  match str, separator, argv with
  | some ptr, some separator, some argv =>
    if argvSize ≤ 0 then some ⟨0,buf,argv⟩
    else do
      let argv ← store argv 0 ptr
      let next ← osStrstr buf ptr separator
      osStrtokLoop separator (argvSize.toNat - 1) next ⟨1,buf,argv⟩
  | _, _, argv => some ⟨0,buf,argv.getD []⟩

/-- The tokens of a text that lies between `u` and its terminator. -/
structure Splits (u s v separator : List UInt8) (argv : List ℕ) (argvSize : ℤ) (t : Tokens)
    (tokens : List (List UInt8)) : Prop where
  count : 1 ≤ t.cnt ∧ (t.cnt : ℤ) ≤ argvSize
  texts : List.Forall₂ (fun ptr token => text t.buf ptr = some token) (t.argv.take t.cnt) tokens
  length : tokens.length = t.cnt
  joined : separator.intercalate tokens = s ∨ separator.intercalate tokens ++ separator = s
  inner : ∀ token ∈ tokens.dropLast, ¬ separator <:+: token
  last : ∀ token ∈ tokens.getLast?, separator <:+: token → (t.cnt : ℤ) = argvSize
  inside : ∀ ptr ∈ t.argv.take t.cnt, u.length ≤ ptr ∧ ptr ≤ u.length + s.length
  frame : ∃ s' : List UInt8, s'.length = s.length ∧ t.buf = u ++ (s' ++ 0 :: v)
  others : t.argv.drop t.cnt = argv.drop t.cnt

section Loop
variable {u s v x separator : List UInt8} {front back : List ℕ} {room : ℕ}

theorem osStrstr_middle (u v separator : List UInt8) (hs : 0 ∉ s) :
    osStrstr (u ++ (s ++ 0 :: v)) u.length separator =
      some ((cut separator s).map fun w => u.length + w.1.length) := by
  rw [osStrstr,text_middle u v hs]
  rfl

/-- One round: the zero over the first byte of the separator, and on behind the separator. -/
theorem loop_round (u a sep b v : List UInt8) (c : UInt8) (room cnt : ℕ) (argv : List ℕ) (hb : 0 ∉ b) :
    osStrtokLoop (c :: sep) (room + 1) (some (u.length + a.length))
        ⟨cnt,u ++ (a ++ (c :: sep ++ b) ++ 0 :: v),argv⟩ =
      if b = [] then some ⟨cnt,(u ++ (a ++ 0 :: sep)) ++ (b ++ 0 :: v),argv⟩
      else (store argv cnt (u ++ (a ++ 0 :: sep)).length).bind fun argv =>
        osStrtokLoop (c :: sep) room
          ((cut (c :: sep) b).map fun w => (u ++ (a ++ 0 :: sep)).length + w.1.length)
          ⟨cnt + 1,(u ++ (a ++ 0 :: sep)) ++ (b ++ 0 :: v),argv⟩ := by
  have hstore : store (u ++ (a ++ (c :: sep ++ b) ++ 0 :: v)) (u.length + a.length) 0 =
      some ((u ++ (a ++ 0 :: sep)) ++ (b ++ 0 :: v)) := by
    simpa using store_middle (x := (0 : UInt8)) (u ++ a) (sep ++ (b ++ 0 :: v)) c
  have hplace : u.length + a.length + (c :: sep).length = (u ++ (a ++ 0 :: sep)).length := by
    simp only [List.length_append,List.length_cons]
    omega
  rw [osStrtokLoop,hstore]
  simp only [Option.bind_eq_bind,Option.bind_some,hplace,text_middle _ v hb,osStrstr_middle _ v _ hb]

/-- The loop in front of `x`, behind `u`. -/
theorem loop_spec (u v : List UInt8) (front : List ℕ) (hsep : separator ≠ []) (hx : 0 ∉ x)
    (hroom : room ≤ back.length) :
    ∃ x' ps, osStrtokLoop separator room ((cut separator x).map fun w => u.length + w.1.length)
        ⟨front.length,u ++ (x ++ 0 :: v),front ++ back⟩ =
          some ⟨front.length + ps.length,u ++ (x' ++ 0 :: v),front ++ (ps ++ back.drop ps.length)⟩ ∧
      x'.length = x.length ∧
      List.Forall₂ (fun ptr token => text (u ++ (x' ++ 0 :: v)) ptr = some token) (u.length :: ps)
        (pieces separator room x) ∧
      ∀ ptr ∈ ps, u.length ≤ ptr ∧ ptr ≤ u.length + x.length := by
  obtain ⟨c,sep,rfl⟩ := List.exists_cons_of_ne_nil hsep
  induction room, x using pieces_induction (c :: sep) generalizing u front back with
  | zero x =>
    refine ⟨x,[],by simp [osStrtokLoop],rfl,?_,by simp⟩
    exact List.Forall₂.cons (text_middle u v hx) List.Forall₂.nil
  | uncut room x hcut =>
    refine ⟨x,[],by simp [osStrtokLoop,hcut],rfl,?_,by simp⟩
    rw [pieces_uncut room hcut]
    exact List.Forall₂.cons (text_middle u v hx) List.Forall₂.nil
  | ended room x a hcut =>
    obtain rfl := cut_eq_some hcut
    have ha : 0 ∉ a := fun h => hx (by simp [h])
    have hround := loop_round u a sep [] v c room front.length (front ++ back) (by simp)
    rw [if_pos rfl] at hround
    refine ⟨a ++ 0 :: sep,[],?_,by simp,?_,by simp⟩
    · rw [hcut]
      refine hround.trans ?_
      simp
    · rw [pieces_ended room hcut,List.append_assoc]
      exact List.Forall₂.cons (text_middle u _ ha) List.Forall₂.nil
  | step room x a b hcut hb ih =>
    obtain rfl := cut_eq_some hcut
    have ha : 0 ∉ a := fun h => hx (by simp [h])
    have hrest : 0 ∉ b := fun h => hx (by simp [h])
    obtain ⟨y,back,rfl⟩ := List.exists_cons_of_length_pos (Nat.lt_of_lt_of_le (Nat.succ_pos room) hroom)
    have hround := loop_round u a sep b v c room front.length (front ++ y :: back) hrest
    rw [if_neg hb,store_middle front back y,Option.bind_some] at hround
    obtain ⟨x',ps,hloop,hlen,htexts,hin⟩ := ih (u ++ (a ++ 0 :: sep))
      (front ++ [(u ++ (a ++ 0 :: sep)).length]) hrest (Nat.le_of_succ_le_succ hroom)
    have hbuf : (u ++ (a ++ 0 :: sep)) ++ (x' ++ 0 :: v) = u ++ (a ++ 0 :: (sep ++ x') ++ 0 :: v) := by simp
    rw [hbuf] at htexts
    refine ⟨a ++ 0 :: (sep ++ x'),(u ++ (a ++ 0 :: sep)).length :: ps,?_,?_,?_,?_⟩
    · rw [hcut]
      refine hround.trans ?_
      simpa [Nat.add_assoc,Nat.add_comm,Nat.add_left_comm] using hloop
    · simp [hlen]
    · rw [pieces_cut room hcut hb]
      refine List.Forall₂.cons ?_ htexts
      rw [List.append_assoc]
      exact text_middle u _ ha
    · intro ptr hptr
      have hplace : (u ++ (a ++ 0 :: sep)).length + b.length = u.length + (a ++ (c :: sep ++ b)).length := by
        simp only [List.length_append,List.length_cons]
        omega
      have hle : u.length ≤ (u ++ (a ++ 0 :: sep)).length := by simp
      rw [← hplace]
      rcases List.mem_cons.mp hptr with rfl | hrest
      · omega
      · have h := hin ptr hrest
        exact ⟨hle.trans h.1,h.2⟩

end Loop

section Calls
variable {u s v separator : List UInt8} {argv : List ℕ} {argvSize : ℤ}

/-- A text is split without loss, and no call leaves the text or the array. -/
theorem strtok_splits (u v : List UInt8) (hs : 0 ∉ s) (hne : separator ≠ [])
    (hsize : 1 ≤ argvSize) (hargv : argvSize ≤ argv.length) :
    ∃ t tokens, osStrtok (u ++ (s ++ 0 :: v)) (some u.length) (some separator) (some argv) argvSize = some t ∧
      Splits u s v separator argv argvSize t tokens := by
  obtain ⟨y,back,rfl⟩ : ∃ y back, argv = y :: back := List.exists_cons_of_length_pos (by omega)
  have hroom : argvSize.toNat - 1 ≤ back.length := by
    rw [List.length_cons] at hargv
    omega
  obtain ⟨s',ps,hloop,hlen,htexts,hin⟩ := loop_spec u v [u.length] hne hs hroom
  have hstore : store (y :: back) 0 u.length = some (u.length :: back) := store_middle [] back y
  have hcount : (pieces separator (argvSize.toNat - 1) s).length = ps.length + 1 := htexts.length_eq.symm
  have hle := pieces_length_le separator (argvSize.toNat - 1) s
  have htake : (u.length :: (ps ++ back.drop ps.length)).take (1 + ps.length) = u.length :: ps := by
    rw [Nat.add_comm,List.take_succ_cons,List.take_left]
  refine ⟨⟨1 + ps.length,u ++ (s' ++ 0 :: v),u.length :: (ps ++ back.drop ps.length)⟩,
    pieces separator (argvSize.toNat - 1) s,?_,?_⟩
  · rw [osStrtok,if_neg (by omega),hstore]
    simp only [Option.bind_eq_bind,Option.bind_some,osStrstr_middle u v separator hs]
    exact hloop
  · constructor
    · exact ⟨by show 1 ≤ 1 + ps.length; omega,by show ((1 + ps.length : ℕ) : ℤ) ≤ argvSize; omega⟩
    · rw [htake]
      exact htexts
    · show _ = 1 + ps.length
      omega
    · exact pieces_join separator _ s
    · intro token htoken
      exact not_infix_of_mem_pieces hne htoken
    · intro token htoken hocc
      have hfull := length_of_infix_last hne htoken hocc
      show ((1 + ps.length : ℕ) : ℤ) = argvSize
      omega
    · rw [htake]
      intro ptr hptr
      rcases List.mem_cons.mp hptr with rfl | hrest
      · omega
      · exact hin ptr hrest
    · exact ⟨s',hlen,rfl⟩
    · show (u.length :: (ps ++ back.drop ps.length)).drop (1 + ps.length) = (y :: back).drop (1 + ps.length)
      rw [Nat.add_comm,List.drop_succ_cons,List.drop_succ_cons,List.drop_left]

/-- Two cuts at two characters, with an empty token between them. -/
theorem strtok_splits_commas :
    (0 ∉ ([97,44,44,44,44,98] : List UInt8) ∧ ([44,44] : List UInt8) ≠ [] ∧ (1 : ℤ) ≤ 4) ∧
      ∃ t tokens, osStrtok ([1] ++ ([97,44,44,44,44,98] ++ 0 :: [2])) (some 1) (some [44,44])
          (some [0,0,0,0]) 4 = some t ∧
        Splits [1] [97,44,44,44,44,98] [2] [44,44] [0,0,0,0] 4 t tokens := by
  have hs : 0 ∉ ([97,44,44,44,44,98] : List UInt8) := by decide
  exact ⟨⟨hs,by decide,by decide⟩,strtok_splits [1] [2] hs (by decide) (by decide) (by decide)⟩

end Calls

end FmacSdk.Strtok
