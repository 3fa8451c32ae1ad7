/-
  Xv6.Fs.Resolve — a path is resolved by looking up its components in turn.

  namei and nameiparent return what a fold of lookups over the components gives, unless an
  inode on the way is free.  The ".." of a directory that was removed while a process was in
  it may lead to one.
-/
import Xv6.Fs.Directory

namespace Xv6.Resolve

open Lib Fs List

/-! ## §1. The components of a path. -/

/-- The maximal non-empty substrings without '/', cut to DIRSIZ bytes. -/
def components (path : List UInt8) : List (List UInt8) :=
  ((path.splitOn SLASH).filter (· ≠ [])).map (·.take DIRSIZ)

section Components

variable {path s : List UInt8}

theorem components_slash (path : List UInt8) : components (SLASH :: path) = components path := by
  have hsplit : (SLASH :: path).splitOn SLASH = [] :: path.splitOn SLASH :=
    splitOn_append_cons_self_of_not_mem (not_mem_nil (a := SLASH)) path
  unfold components
  rw [hsplit, filter_cons_of_neg (by simp)]

theorem components_dropWhile (path : List UInt8) :
    components (path.dropWhile (· = SLASH)) = components path := by
  induction path with
  | nil => rfl
  | cons c path ih =>
    rw [dropWhile_cons]
    split
    · next hc => rw [ih, of_decide_eq_true hc, components_slash]
    · rfl

theorem headD_dropWhile (path : List UInt8) : (path.dropWhile (· = SLASH)).headD 0 ≠ SLASH := by
  induction path with
  | nil => decide
  | cons c path ih =>
    rw [dropWhile_cons]
    split
    · exact ih
    · next hc => simpa using hc

theorem split_elem (h0 : 0 ∉ s) (hhead : s.headD 0 ≠ SLASH) (hne : s ≠ []) :
    ∃ a tail, s = a ++ tail ∧ a ≠ [] ∧ s.takeWhile (fun c => c ≠ SLASH ∧ c ≠ 0) = a ∧
      components s = a.take DIRSIZ :: components tail := by
  obtain ⟨c, r, rfl⟩ := exists_cons_of_ne_nil hne
  rw [mem_cons, not_or] at h0
  have hc : c ≠ SLASH ∧ c ≠ 0 := ⟨hhead, Ne.symm h0.1⟩
  obtain ⟨q, hq⟩ : ∃ q : UInt8 → Bool, q = fun c => decide (c ≠ SLASH ∧ c ≠ 0) := ⟨_, rfl⟩
  have hno : SLASH ∉ c :: r.takeWhile q := by
    intro hmem
    rcases mem_cons.mp hmem with he | hmem
    · exact hc.1 he.symm
    · simpa [hq] using mem_takeWhile_imp hmem
  have hspan : r.takeWhile q ++ r.dropWhile q = r := takeWhile_append_dropWhile
  refine ⟨c :: r.takeWhile q, r.dropWhile q, by rw [cons_append, hspan], by simp, ?_, ?_⟩
  · rw [hq]
    exact takeWhile_cons_of_pos (by simpa using hc)
  · rw [show c :: r = (c :: r.takeWhile q) ++ r.dropWhile q by rw [cons_append, hspan]]
    cases htail : r.dropWhile q with
    | nil =>
      rw [append_nil]
      unfold components
      rw [splitOn_eq_singleton hno]
      rfl
    | cons d t =>
      have hd : d ∈ r := (dropWhile_sublist q).subset (htail ▸ mem_cons_self)
      have hslash : d = SLASH := by
        have hstop : q d = false := by
          have := head_dropWhile_not q (l := r) (by simp [htail])
          simpa [htail] using this
        by_contra hd'
        have hd0 : d ≠ 0 := fun he => h0.2 (he ▸ hd)
        simp [hq, hd', hd0] at hstop
      rw [hslash, components_slash]
      unfold components
      rw [splitOn_append_cons_self_of_not_mem hno]
      rfl

/-- **skipelem takes the first component.** -/
theorem skipelem_spec (h0 : 0 ∉ path) : (skipelem path = none ∧ components path = []) ∨
    ∃ c rest, skipelem path = some (cstr c, rest) ∧ components path = c :: components rest ∧
      0 ∉ rest ∧ rest.length < path.length ∧ (pathEnd rest ↔ components rest = []) := by
  obtain ⟨s, hs⟩ : ∃ s, s = path.dropWhile (· = SLASH) := ⟨_, rfl⟩
  have hsub : s.Sublist path := hs ▸ dropWhile_sublist _
  have hcomp := components_dropWhile path
  unfold skipelem
  dsimp only
  rw [← hcomp, ← hs]
  by_cases hne : s = []
  · rw [hne]
    exact .inl ⟨rfl, rfl⟩
  · right
    obtain ⟨a, tail, hsplit, ha, htake, hcons⟩ := split_elem (fun h => h0 (hsub.subset h))
      (hs ▸ headD_dropWhile path) hne
    have hrest : (tail.dropWhile (· = SLASH)).Sublist tail := dropWhile_sublist _
    have h0' : 0 ∉ tail.dropWhile (· = SLASH) := fun h =>
      h0 (hsub.subset (hsplit ▸ mem_append_right a (hrest.subset h)))
    refine ⟨a.take DIRSIZ, tail.dropWhile (· = SLASH), ?_, ?_, h0', ?_, ?_⟩
    · rw [htake, if_neg ha, hsplit, drop_left]
    · rw [hcons, components_dropWhile]
    · have h1 := hrest.length_le
      have h2 := hsub.length_le
      rw [hsplit, length_append] at h2
      have h3 := length_pos_of_ne_nil ha
      omega
    · have hhead := headD_dropWhile tail
      generalize tail.dropWhile (· = SLASH) = rest at h0' hhead
      cases rest with
      | nil => exact ⟨fun _ => rfl, fun _ => rfl⟩
      | cons c r =>
        obtain ⟨_, _, _, _, _, hcons⟩ := split_elem h0' hhead (cons_ne_nil c r)
        rw [hcons]
        refine ⟨fun hend => absurd (hend ▸ mem_cons_self) h0', fun h => by cases h⟩

end Components

/-! ## §2. namex over a directory graph. -/

structure Graph where
  /-- `ip->type` of an inode; 0 if it is free. -/
  type : Nat → Int16
  /-- dirlookup in a directory. -/
  dirlookup : Nat → Bytes → Option Nat

section Namex

variable (g : Graph)

def namexLoop (parent : Bool) :
    Nat → Nat → List UInt8 → Bytes → Except Stop (Option (Nat × Bytes))
  | 0, ip, _, name => .ok (some (ip, name))
  | fuel + 1, ip, path, name =>
    match skipelem path with
    | none => .ok (if parent then none else some (ip, name))
    | some (name, path) =>
      if g.type ip = 0 then .error (.panic "ilock: no type")
      else if g.type ip ≠ T_DIR then .ok none
      -- Stop one level early.
      else if parent ∧ pathEnd path then .ok (some (ip, name))
      else
        match g.dirlookup ip name with
        | none => .ok none
        | some next => namexLoop parent fuel next path name

def namexStart (cwd : Nat) (path : List UInt8) : Nat :=
  if path.headD 0 = SLASH then ROOTINO else cwd

def namex (cwd : Nat) (path : List UInt8) (parent : Bool) : Except Stop (Option (Nat × Bytes)) :=
  namexLoop g parent (path.length + 1) (namexStart cwd path) path (cstr [])

def namei (cwd : Nat) (path : List UInt8) : Except Stop (Option Nat) :=
  (namex g cwd path false).map fun r => r.map Prod.fst

def nameiparent (cwd : Nat) (path : List UInt8) : Except Stop (Option (Nat × Bytes)) :=
  namex g cwd path true

/-! ## §3. The fold. -/

/-- The lookup of one component: in a directory only. -/
def lookup (ip : Nat) (c : List UInt8) : Option Nat :=
  if g.type ip = T_DIR then g.dirlookup ip (cstr c) else none

def resolve (l : List (List UInt8)) (ip : Nat) : Option Nat := l.foldlM (lookup g) ip

/-- The directory of the last component, and this one. -/
def resolveParent (l : List (List UInt8)) (ip : Nat) : Option (Nat × Bytes) :=
  l.getLast?.bind fun c => (resolve g l.dropLast ip).bind fun dp =>
    if g.type dp = T_DIR then some (dp, cstr c) else none

/-- Every inode to be searched is allocated. -/
def Allocated : List (List UInt8) → Nat → Prop
  | [], _ => True
  | c :: l, ip => g.type ip ≠ 0 ∧ ∀ next ∈ lookup g ip c, Allocated l next

/-- What a walk from `ip` should return. -/
def Agrees (parent : Bool) (l : List (List UInt8)) (ip : Nat) (r : Option (Nat × Bytes)) : Prop :=
  if parent then r = resolveParent g l ip else r.map Prod.fst = resolve g l ip

variable {g} {c : List UInt8} {l : List (List UInt8)} {ip next : Nat}

theorem resolve_cons : resolve g (c :: l) ip = (lookup g ip c).bind (resolve g l) := rfl

theorem resolveParent_cons (hl : l ≠ []) :
    resolveParent g (c :: l) ip = (lookup g ip c).bind (resolveParent g l) := by
  obtain ⟨d, l, rfl⟩ := exists_cons_of_ne_nil hl
  unfold resolveParent
  rw [List.getLast?_cons_cons, dropLast_cons_cons, resolve_cons]
  cases lookup g ip c with
  | none => cases (d :: l).getLast? <;> rfl
  | some next => rfl

theorem agrees_cons {parent : Bool} {r : Option (Nat × Bytes)} (hl : ¬ (parent = true ∧ l = []))
    (hno : lookup g ip c = none → r = none)
    (h : ∀ next ∈ lookup g ip c, Agrees g parent l next r) : Agrees g parent (c :: l) ip r := by
  cases parent with
  | false =>
    show _ = resolve g (c :: l) ip
    rw [resolve_cons]
    cases hlook : lookup g ip c with
    | none => rw [hno hlook]; rfl
    | some next => exact h next hlook
  | true =>
    show _ = resolveParent g (c :: l) ip
    rw [resolveParent_cons fun hnil => hl ⟨rfl, hnil⟩]
    cases hlook : lookup g ip c with
    | none => exact hno hlook
    | some next => exact h next hlook

/-- By induction on the turns: the loop ends as the fold does, or at a free inode. -/
theorem namexLoop_spec (parent : Bool) (fuel : Nat) (path : List UInt8) (ip : Nat) (name : Bytes)
    (h0 : 0 ∉ path) (hfuel : path.length < fuel) :
    (Allocated g (components path) ip ∧ ∃ r, namexLoop g parent fuel ip path name = .ok r ∧
      Agrees g parent (components path) ip r) ∨
    (¬ Allocated g (components path) ip ∧
      ∃ e, namexLoop g parent fuel ip path name = .error e) := by
  induction fuel generalizing path ip name with
  | zero => omega
  | succ fuel ih =>
    unfold namexLoop
    rcases skipelem_spec h0 with ⟨hskip, hnil⟩ | ⟨c, rest, hskip, hcomp, h0', hlen, hend⟩
    · rw [hskip, hnil]
      refine .inl ⟨trivial, _, rfl, ?_⟩
      cases parent <;> rfl
    rw [hskip, hcomp]
    dsimp only
    split_ifs with htype hdir hlast
    · exact .inr ⟨fun hall => hall.1 htype, _, rfl⟩
    · have hno : lookup g ip c = none := if_neg hdir
      refine .inl ⟨⟨htype, by simp [hno]⟩, none, rfl, ?_⟩
      by_cases hlast : parent = true ∧ components rest = []
      · rw [hlast.1, hlast.2]
        exact (if_neg hdir).symm
      · exact agrees_cons hlast (fun _ => rfl) (by simp [hno])
    · rw [hend.mp hlast.2, hlast.1]
      exact .inl ⟨⟨htype, fun _ _ => trivial⟩, _, rfl, (if_pos (not_not.mp hdir)).symm⟩
    · rw [hend] at hlast
      have hlook : lookup g ip c = g.dirlookup ip (cstr c) := if_pos (not_not.mp hdir)
      cases hfind : g.dirlookup ip (cstr c) with
      | none =>
        rw [hfind] at hlook
        exact .inl ⟨⟨htype, by simp [hlook]⟩, none, rfl,
          agrees_cons hlast (fun _ => rfl) (by simp [hlook])⟩
      | some next =>
        rw [hfind] at hlook
        rcases ih rest next (cstr c) h0' (by omega) with ⟨hall, r, hrun, hag⟩ | ⟨hnot, e, hrun⟩
        · exact .inl ⟨⟨htype, by simpa [hlook] using hall⟩, r, hrun,
            agrees_cons hlast (by simp [hlook]) (by simpa [hlook] using hag)⟩
        · exact .inr ⟨fun hall => hnot (hall.2 next hlook), e, hrun⟩

/-- Inode 2 was removed while a process was in it, and then its parent 3 was removed. -/
def removed : Graph where
  type ip := if ip = 1 ∨ ip = 2 then T_DIR else 0
  dirlookup ip name :=
    if namecmp name dot = 0 then some ip
    else if namecmp name dotdot = 0 then some (if ip = 1 then 1 else 3) else none

end Namex

end Xv6.Resolve
