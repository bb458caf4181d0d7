import FmacSdk.Foundation.Ranks
import FmacSdk.Foundation.Separators
import Mathlib.Data.List.Infix

/-! # The makefile of a CDK project

The script lists the sources of a project file, gives each an object path in one flat
directory, and writes one rule for each source. Sources whose paths flatten to one stem
are told apart by a counter.
-/
namespace FmacSdk.CdkprojToMakefile
open Ranks Separators

abbrev Str := List Char

/-! ## Strings -/

/-- str.replace, from the left and without overlaps; the counter is what is left of an
occurrence. -/
def replaceFrom (old new : Str) : ℕ → Str → Str
  | _, [] => []
  | 0, c :: s => if old <+: c :: s then new ++ replaceFrom old new (old.length - 1) s else c :: replaceFrom old new 0 s
  | skip + 1, _ :: s => replaceFrom old new skip s

def replace (s old new : Str) : Str := replaceFrom old new 0 s

def lstrip (s chars : Str) : Str := s.dropWhile chars.contains

def strip (s chars : Str) : Str := (lstrip (lstrip s chars).reverse chars).reverse

/-- str.lower; no letter but those of ASCII has c or s as its lower case. -/
def lower (s : Str) : Str := s.map Char.toLower

/-- The index behind the last `c`, or 0: str.rfind plus one. -/
def behindLast (c : Char) (s : Str) : ℕ := s.length - s.reverse.idxOf c

/-- os.path.splitext: leading dots of the file name are no extension. -/
def splitext (p : Str) : Str × Str :=
  let filename := behindLast '/' p
  let dot := behindLast '.' p
  if filename < dot ∧ ((p.take (dot - 1)).drop filename).any (· != '.') then (p.take (dot - 1),p.drop (dot - 1))
  else (p,[])

/-! ## The script -/

/-- An element of the project file: its tag, its Name attribute and its children. -/
inductive Element
  | mk (tag : Str) (name : Option Str) (children : List Element)

mutual

/-- The names of the File elements in document order. -/
def Element.files : Element → List (Option Str)
  | .mk tag name children => (if tag = ['F','i','l','e'] then [name] else []) ++ filesIn children

def filesIn : List Element → List (Option Str)
  | [] => []
  | e :: es => e.files ++ filesIn es

end

/-- findall of .//File leaves the root itself out. -/
def Element.findall : Element → List (Option Str)
  | .mk _ _ children => filesIn children

def isSource (name : Str) : Bool :=
  let ext := lower (splitext name).2
  ext = ['.','c'] || ext = ['.','s']

def extractSources (root : Element) : List Str :=
  (root.findall.map fun name => replace (name.getD []) ['\\'] ['/']).filter isSource

def safeObjName (srcPath : Str) : Str :=
  let p := lstrip (lstrip srcPath ['.','/']) ['.','.','/']
  let p := replace (replace (replace p ['.','.'] []) ['/'] ['_']) ['\\'] ['_']
  strip (splitext p).1 ['_']

structure ObjEntry where
  obj : Str
  src : Str
  isAsm : Bool
  deriving DecidableEq

/-- $(OBJ_DIR)/stem.o -/
def objPath (stem : Str) : Str := ['$','(','O','B','J','_','D','I','R',')','/'] ++ (stem ++ ['.','o'])

def isAsm (src : Str) : Bool := ['.','s'].isSuffixOf (lower src)

def counted (stem : Str) (n : ℕ) : Str := stem ++ '_' :: Nat.toDigits 10 n

/-- The loop over the sources, with the dictionary of the counters. -/
def assignObjs (seenStems : Str → Option ℕ) : List Str → List ObjEntry
  | [] => []
  | src :: sources =>
    let stem := safeObjName src
    match seenStems stem with
    | some n =>
      ⟨objPath (counted stem (n + 1)),src,isAsm src⟩ ::
        assignObjs (Function.update seenStems stem (some (n + 1))) sources
    | none => ⟨objPath stem,src,isAsm src⟩ :: assignObjs (Function.update seenStems stem (some 0)) sources

/-- A rule compiles its source as assembler or as C. -/
structure Rule where
  target : Str
  source : Str
  asm : Bool
  deriving DecidableEq

/-- The objects that are linked, and the rules in the order of the file. -/
structure Makefile where
  objs : List Str
  rules : List Rule

def srcMk (src : Str) : Str :=
  replace (replace src ['\\'] ['/']) ['$','(','P','r','o','j','e','c','t','P','a','t','h',')']
    ['$','(','P','R','O','J','E','C','T','_','D','I','R',')']

def ruleOf (e : ObjEntry) : Rule := ⟨e.obj,srcMk e.src,e.isAsm⟩

def generateMakefile (root : Element) : Makefile :=
  let objEntries := assignObjs (fun _ => none) (extractSources root)
  ⟨objEntries.map ObjEntry.obj,objEntries.map ruleOf⟩

/-- Of several rules for one target, make runs the last. -/
def Makefile.recipe (m : Makefile) (target : Str) : Option Rule := m.rules.reverse.find? fun r => r.target = target

/-! ## Every source is linked -/

/-- What the makefile is for: the objects are distinct, each has one rule, and each source is
what the rule of some linked object compiles, with the tool that it needs. -/
structure LinksAll (m : Makefile) (sources : List Str) : Prop where
  distinct : m.objs.Nodup
  oneRule : ∀ o ∈ m.objs, (m.rules.map Rule.target).count o = 1
  linked : ∀ src ∈ sources, ∃ o ∈ m.objs, m.recipe o = some ⟨o,srcMk src,isAsm src⟩

/-- No stem is another stem with a counter that the sources of that one reach. -/
def CountersFresh (stems : List Str) : Prop := ∀ a ∈ stems, ∀ b ∈ stems, ∀ k < stems.count b, 0 < k → a ≠ counted b k

instance (stems : List Str) : Decidable (CountersFresh stems) :=
  inferInstanceAs (Decidable (∀ a ∈ stems, ∀ b ∈ stems, ∀ k < stems.count b, 0 < k → a ≠ counted b k))

/-- The stem of a source behind `k` sources with the same one. -/
def rankedStem (stem : Str) : ℕ → Str
  | 0 => stem
  | k + 1 => counted stem (k + 1)

section Objects
variable {s t : Str} {j k : ℕ}

theorem counted_inj (h : counted s j = counted t k) : s = t ∧ j = k := by
  obtain ⟨hstem,hdigits⟩ := last_separator_inj Nat.underscore_not_in_toDigits Nat.underscore_not_in_toDigits h
  refine ⟨hstem,?_⟩
  rw [← Nat.ofDigitChars_ten_toDigits (n := j),hdigits,Nat.ofDigitChars_ten_toDigits]

theorem objPath_inj (h : objPath s = objPath t) : s = t :=
  List.append_cancel_right (List.append_cancel_left h)

/-- The loop behind the stems of `past`: every source has the object of its rank. -/
theorem assignObjs_eq (past : List Str) (sources : List Str) :
    (assignObjs (lastRank past) sources).map ObjEntry.obj =
      (ranksAfter past (sources.map safeObjName)).map fun p => objPath (rankedStem p.1 p.2) := by
  induction sources generalizing past with
  | nil => rfl
  | cons src sources ih =>
    have hnext := ih (safeObjName src :: past)
    rw [lastRank_cons] at hnext
    rw [List.map_cons,ranksAfter,List.map_cons,← hnext,assignObjs]
    cases hcount : past.count (safeObjName src) with
    | zero =>
      have hseen : lastRank past (safeObjName src) = none := by simp [lastRank,hcount]
      simp only [hseen]
      rfl
    | succ n =>
      have hseen : lastRank past (safeObjName src) = some n := by simp [lastRank,hcount]
      simp only [hseen]
      rfl

theorem assignObjs_src (seenStems : Str → Option ℕ) (sources : List Str) :
    (assignObjs seenStems sources).map (fun e => (e.src,e.isAsm)) = sources.map fun src => (src,isAsm src) := by
  induction sources generalizing seenStems with
  | nil => rfl
  | cons src sources ih =>
    rw [assignObjs]
    cases seenStems (safeObjName src) with
    | none => exact congrArg ((src,isAsm src) :: ·) (ih _)
    | some n => exact congrArg ((src,isAsm src) :: ·) (ih _)

theorem rankedStem_pos (stem : Str) (hk : 0 < k) : rankedStem stem k = counted stem k := by
  cases k with
  | zero => omega
  | succ k => rfl

theorem distinct_iff (sources : List Str) :
    ((assignObjs (fun _ => none) sources).map ObjEntry.obj).Nodup ↔ CountersFresh (sources.map safeObjName) := by
  have hnames : ((ranks (sources.map safeObjName)).map fun p => objPath (rankedStem p.1 p.2)) =
      ((ranks (sources.map safeObjName)).map fun p => rankedStem p.1 p.2).map objPath := by
    rw [List.map_map]
    rfl
  rw [← lastRank_nil,assignObjs_eq,← ranks,hnames,List.nodup_map_iff (fun _ _ => objPath_inj),
    nodup_names_iff rankedStem (fun _ _ h => h) (fun a b j k h => (counted_inj h).imp id Nat.succ.inj)]
  constructor
  · intro h a ha b hb k hk hpos
    rw [← rankedStem_pos b hpos]
    exact h a ha b hb k hk hpos
  · intro h a ha b hb k hk hpos
    rw [rankedStem_pos b hpos]
    exact h a ha b hb k hk hpos

end Objects

section Rules
variable {es : List ObjEntry}

/-- Of distinct objects each has the recipe of its own entry. -/
theorem recipe_of_mem (hdistinct : (es.map ObjEntry.obj).Nodup) {e : ObjEntry} (he : e ∈ es) :
    (Makefile.mk (es.map ObjEntry.obj) (es.map ruleOf)).recipe e.obj = some (ruleOf e) := by
  unfold Makefile.recipe
  cases hfind : (es.map ruleOf).reverse.find? fun r => r.target = e.obj with
  | none =>
    have hnone := List.find?_eq_none.mp hfind (ruleOf e) (List.mem_reverse.mpr (List.mem_map_of_mem he))
    exact absurd (decide_eq_true rfl) hnone
  | some r =>
    have hfound := List.find?_some hfind
    have htarget : r.target = e.obj := of_decide_eq_true hfound
    obtain ⟨d,hd,rfl⟩ := List.mem_map.mp (List.mem_reverse.mp (List.mem_of_find?_eq_some hfind))
    rw [List.inj_on_of_nodup_map hdistinct hd he htarget]

theorem linksAll_of_distinct (hdistinct : (es.map ObjEntry.obj).Nodup) {sources : List Str}
    (hsrc : es.map (fun e => (e.src,e.isAsm)) = sources.map fun src => (src,isAsm src)) :
    LinksAll ⟨es.map ObjEntry.obj,es.map ruleOf⟩ sources where
  distinct := hdistinct
  oneRule := by
    intro o ho
    have htargets : (es.map ruleOf).map Rule.target = es.map ObjEntry.obj := by
      rw [List.map_map]
      rfl
    rw [htargets]
    exact List.count_eq_one_of_mem hdistinct ho
  linked := by
    intro src hmem
    have hpair : (src,isAsm src) ∈ es.map fun e => (e.src,e.isAsm) := by
      rw [hsrc]
      exact List.mem_map_of_mem hmem
    obtain ⟨e,he,heq⟩ := List.mem_map.mp hpair
    obtain ⟨rfl,hasm⟩ := Prod.mk.inj heq
    refine ⟨e.obj,List.mem_map_of_mem he,?_⟩
    rw [recipe_of_mem hdistinct he,← hasm]
    rfl

end Rules

/-- For every project file, the makefile links all its sources exactly if no source has a stem
that the counter gives to another one. -/
theorem generateMakefile_linksAll_iff (root : Element) :
    LinksAll (generateMakefile root) (extractSources root) ↔ CountersFresh ((extractSources root).map safeObjName) := by
  rw [← distinct_iff]
  exact ⟨fun h => h.distinct,fun h => linksAll_of_distinct h (assignObjs_src _ _)⟩

example : CountersFresh [['a'],['b'],['a']] ∧ ¬ CountersFresh [['a','_','1'],['a'],['a']] := by decide

/-- Three files; the second one gets the counter 1, and the third one has it in its name. -/
def clashing : Element :=
  .mk ['P','r','o','j','e','c','t'] none
    [.mk ['F','i','l','e'] (some ['a','.','c']) [],.mk ['F','i','l','e'] (some ['a','.','s']) [],
      .mk ['F','i','l','e'] (some ['a','_','1','.','c']) []]

/-- The sources are distinct, two of them have one object, and a.s is in no recipe. -/
theorem generateMakefile_clash :
    extractSources clashing = [['a','.','c'],['a','.','s'],['a','_','1','.','c']] ∧
      (extractSources clashing).Nodup ∧
      (generateMakefile clashing).objs = [objPath ['a'],objPath ['a','_','1'],objPath ['a','_','1']] ∧
      (∀ o ∈ (generateMakefile clashing).objs,
        ((generateMakefile clashing).recipe o).map Rule.source ≠ some ['a','.','s']) ∧
      ¬ LinksAll (generateMakefile clashing) (extractSources clashing) := by
  refine ⟨by decide,by decide,by decide,by decide,fun h => ?_⟩
  exact absurd h.distinct (by decide)

end FmacSdk.CdkprojToMakefile
